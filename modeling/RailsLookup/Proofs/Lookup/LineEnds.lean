import Mathlib
import RailsLookup.Proofs.Declaration.LineEnds
import RailsLookup.Proofs.Disk.Contents
import RailsLookup.Proofs.Lookup.Soundness
import RailsLookup.Proofs.Reference.Characters

/-! # Lookups and line ends

A file is asked for what it declares or for what one of its lines defines. Neither changes with
the way its line ends are written, so no answer of a lookup does.
-/

namespace RailsLookup

namespace Disk

variable {d : Disk} {path : Path}

def crlf (d : Disk) : Disk := d.mapFiles Bytes.crlf

def Plain (d : Disk) : Prop :=
  ∀ place content, d.get? place = some (.file content) → 13 ∉ content

theorem plain_of_entries
    (h : ∀ e ∈ d.entries, ∀ content, e.2 = .file content → 13 ∉ content) : d.Plain := by
  intro place content hg
  cases place with
  | nil => cases hg
  | cons n parent =>
    obtain ⟨l₁, l₂, he, _⟩ := List.lookup_eq_some_iff.mp hg
    exact h _ (he ▸ List.mem_append_right l₁ List.mem_cons_self) content rfl

theorem readText?_crlf (d : Disk) (path : Path) :
    d.crlf.readText? path = (d.readText? path).map Text.crlf := by
  simp only [readText?, crlf, read?_mapFiles, Option.map_map]
  congr 1
  exact funext Utf8.decode_crlf

theorem Plain.not_mem_of_readText? (hd : d.Plain) {content : Text}
    (h : d.readText? path = some content) : '\r' ∉ content := by
  obtain ⟨bytes, hr, rfl⟩ := readText?_eq_some_iff.mp h
  obtain ⟨place, _, hg⟩ := read?_eq_some_iff.mp hr
  refine Utf8.not_mem_decode (by decide) fun b hb heq => hd place bytes hg ?_
  obtain rfl : b = 13 := UInt8.toNat.inj heq
  exact hb

/-- What is asked of the files of a disk is the same if it is the same for each text. -/
theorem Plain.bind_readText?_crlf (hd : d.Plain) {α : Type} {f : Text → Option α}
    (hf : ∀ content, '\r' ∉ content → f content.crlf = f content) (path : Path) :
    (d.crlf.readText? path).bind f = (d.readText? path).bind f := by
  rw [readText?_crlf]
  cases hr : d.readText? path with
  | none => rfl
  | some content => exact hf content (hd.not_mem_of_readText? hr)

end Disk

theorem Pattern.findInLines?_crlf {content : Text} (h : '\r' ∉ content) (p : Pattern) :
    p.findInLines? content.crlf = p.findInLines? content := by
  rw [findInLines?, findInLines?, Text.lines_crlf h]

def Context.crlf (c : Context) : Context := { c with disk := c.disk.crlf }

@[simp] theorem Context.disk_crlf (c : Context) : c.crlf.disk = c.disk.crlf := rfl

variable {c : Context} (hd : c.disk.Plain)

namespace FixedPath

include hd

theorem locateClass?_crlf (name : Text) (path : Path) :
    locateClass? c.crlf.disk name path = locateClass? c.disk name path := by
  simp only [locateClass?, Option.map_eq_bind]
  refine hd.bind_readText?_crlf (fun content h => ?_) path
  simp only [Function.comp_apply, Pattern.findInLines?_crlf h]

theorem model_crlf (w : Text) (scope : List Text) : model c.crlf w scope = model c w scope := by
  have hl (name : Text) : locateClass? c.crlf.disk name = locateClass? c.disk name :=
    funext (locateClass?_crlf hd name)
  simp only [model, hl]
  rfl

theorem controller_crlf (w : Text) (scope : List Text) :
    controller c.crlf w scope = controller c w scope := by
  have hl (name : Text) : locateClass? c.crlf.disk name = locateClass? c.disk name :=
    funext (locateClass?_crlf hd name)
  simp only [controller, hl]
  rfl

omit hd in
theorem service_crlf (w : Text) (scope : List Text) :
    service c.crlf w scope = service c w scope := by
  have hf : c.crlf.disk.isFile = c.disk.isFile := funext (Disk.isFile_mapFiles _ _)
  simp only [service, hf]
  rfl

end FixedPath

theorem Context.sources_crlf (c : Context) : c.crlf.sources = c.sources := by
  funext directory
  exact Disk.files_mapFiles _ _ _ _ directory

namespace ConstantKind

include hd

theorem declaration?_crlf {leaf scope : Text} (hl : leaf.Unbroken) (hs : scope.Unbroken)
    (path : Path) :
    c.crlf.disk.declaration? leaf scope path = c.disk.declaration? leaf scope path := by
  refine hd.bind_readText?_crlf (fun content _ => ?_) path
  rw [Declaration.find?_crlf hl hs]

theorem find_crlf (kind : ConstantKind) {qualified : Text} (hq : qualified.Unbroken) :
    kind.find c.crlf qualified = kind.find c qualified := by
  obtain ⟨hs, hl⟩ := Namespace.split_subset qualified
  have hleaf := kind.unbroken_constantName (hq.of_subset hl)
  have hdecl := funext (declaration?_crlf hd hleaf (hq.of_subset hs))
  have hsearched : kind.searched c.crlf = kind.searched c := by
    funext root stem token
    simp only [searched, Context.sources_crlf]
    rfl
  simp only [find, hdecl, hsearched]
  rfl

end ConstantKind

theorem Template.find_crlf (c : Context) (w line : Text) : find c.crlf w line = find c w line := by
  have hof : ofController? c.crlf = ofController? c := by
    funext views template
    simp only [ofController?, Context.crlf, Disk.crlf, Disk.isFile_mapFiles]
  have hany : anywhere? c.crlf = anywhere? c := by
    funext views template
    simp only [anywhere?, Context.crlf, Disk.crlf, Disk.files_mapFiles]
  simp only [find, hof, hany]
  rfl

namespace Method

theorem helper?_crlf (c : Context) : helper? c.crlf = helper? c := by
  funext document
  simp only [helper?, Context.crlf, Disk.crlf, Disk.isFile_mapFiles]

include hd in
theorem find?_crlf (name : Text) {content : Text} (hc : '\r' ∉ content) :
    find? c.crlf name content.crlf = find? c name content := by
  have hsource (helper : Path) :=
    hd.bind_readText?_crlf (f := fun source => ((definitionOf name).findInLines? source).bind
      fun position => some (Location.mk helper position))
      (fun source hs => by rw [Pattern.findInLines?_crlf hs]) helper
  simp only [find?, helper?_crlf, Pattern.findInLines?_crlf hc, Context.disk_crlf,
    Option.bind_eq_bind, Option.pure_def, hsource]
  rfl

end Method

theorem Reference.at?_crlf {content : Text} (hc : '\r' ∉ content) (position : Position) :
    at? content.crlf position = at? content position := by
  rw [at?, at?, Text.lines_crlf hc]

include hd in
theorem Category.lookup?_crlf (category : Category) {r : Reference}
    (hr : r.qualifiedName.Unbroken) : category.lookup? c.crlf r = category.lookup? c r := by
  cases category with
  | service => exact congrArg some (FixedPath.service_crlf ..)
  | controller => exact congrArg some (FixedPath.controller_crlf hd ..)
  | helper => exact congrArg some (ConstantKind.find_crlf hd _ hr)
  | mailer => exact congrArg some (ConstantKind.find_crlf hd _ hr)
  | view => exact congrArg some (Template.find_crlf ..)
  | model => exact congrArg some (FixedPath.model_crlf hd ..)
  | callback => rfl
  | method => rfl

namespace Context

include hd in
theorem resolveReference_crlf (category : Category) {r : Reference} {content : Text}
    (hr : r.qualifiedName.Unbroken) (hc : '\r' ∉ content) :
    c.crlf.resolveReference r category content.crlf = c.resolveReference r category content := by
  rw [resolveReference, resolveReference, category.lookup?_crlf hd hr, Method.find, Method.find,
    Method.find?_crlf hd r.word hc]

/-- What stands at a position is resolved to the same place, or to none, whichever way the line
ends of the document and of all files are written. -/
theorem resolve?_crlf (c : Context) (content : Text) (position : Position)
    (hd : c.disk.Plain) (hc : '\r' ∉ content) :
    c.crlf.resolve? content.crlf position = c.resolve? content position := by
  unfold resolve?
  rw [Reference.at?_crlf hc]
  cases hr : Reference.at? content position with
  | none => rfl
  | some r =>
    have hq := Reference.unbroken_of_at? hc hr
    exact congrArg Except.toOption (resolveReference_crlf hd _ hq hc)

/-- A workspace at the root with a helper whose keyword and name stand in two lines. -/
def gallery : Context where
  disk := { entries := [(.ofStrings ["app"], .directory),
    (.ofStrings ["app", "helpers"], .directory),
    (.ofStrings ["app", "helpers", "image_helper.rb"],
      .file (Text.utf8 "# Images\n  module\n    ImageHelper\nend\n".toList))] }
  workspace? := some (.ofString "/")

theorem resolve?_crlf_gallery :
    let content := "class Page\n  include ImageHelper\nend\n".toList
    gallery.disk.Plain ∧ '\r' ∉ content ∧
    gallery.resolve? content ⟨1, 12⟩ = some ⟨.ofString "/app/helpers/image_helper.rb", ⟨1, 2⟩⟩ ∧
    gallery.crlf.resolve? (Text.crlf content) ⟨1, 12⟩ = gallery.resolve? content ⟨1, 12⟩ := by
  have hd : gallery.disk.Plain := by
    apply Disk.plain_of_entries
    simp only [gallery, List.forall_mem_cons]
    refine ⟨nofun, nofun, fun content h => ?_, nofun⟩
    obtain rfl := Entry.file.inj h
    decide
  have h : gallery.resolve? "class Page\n  include ImageHelper\nend\n".toList ⟨1, 12⟩ =
      some ⟨.ofString "/app/helpers/image_helper.rb", ⟨1, 2⟩⟩ := by cbv
  exact ⟨hd, by decide, h, resolve?_crlf _ _ _ hd (by decide)⟩

end Context

end RailsLookup
