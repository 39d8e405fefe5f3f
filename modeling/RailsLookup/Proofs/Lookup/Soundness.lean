import Mathlib
import RailsLookup.Lookup.Resolution
import RailsLookup.Proofs.Declaration.Keywords
import RailsLookup.Proofs.Disk.Listing

/-! # What lookups find

Every lookup of a category ends in a regular file, at its start or where a keyword stands.
The lookup of methods may also end in the document. So does a resolution, which is one of
these.
-/

namespace RailsLookup

open Pattern

namespace Disk

variable {d : Disk} {p : Path}

theorem isFile_iff : d.isFile p = true ↔ ∃ content, d.read? p = some content := by
  rw [isFile, Option.isSome_iff_exists]

theorem readText?_eq_some_iff {t : Text} :
    d.readText? p = some t ↔ ∃ content, d.read? p = some content ∧ Utf8.decode content = t := by
  rw [readText?, Option.map_eq_some_iff]

end Disk

/-- A place in a regular file: its start, or one of the words stands there. -/
def Location.InFile (l : Location) (d : Disk) (words : List Text) : Prop :=
  ∃ content, d.read? l.path = some content ∧
    (l.position = .start ∨ ∃ w ∈ words, w.StandsAt (Utf8.decode content) l.position)

namespace Location.InFile

variable {l : Location} {d : Disk} {words words' : List Text}

theorem mono (h : l.InFile d words) (hw : words ⊆ words') : l.InFile d words' := by
  obtain ⟨content, hr, hp | ⟨w, hm, hs⟩⟩ := h
  · exact ⟨content, hr, .inl hp⟩
  · exact ⟨content, hr, .inr ⟨w, hw hm, hs⟩⟩

theorem start {p : Path} (h : ∃ content, d.read? p = some content) :
    InFile ⟨p, .start⟩ d words := by
  obtain ⟨content, hr⟩ := h
  exact ⟨content, hr, .inl rfl⟩

end Location.InFile

theorem Context.foundOr_eq_ok_iff {name : Text} {found : Option Location} {l : Location} :
    foundOr name found = .ok l ↔ found = some l := by
  cases found <;> simp [foundOr]

theorem Context.workspace_bind_eq_ok_iff {c : Context} {f : Path → Except LookupError Location}
    {l : Location} :
    (c.workspace >>= f) = .ok l ↔ ∃ root, c.workspace? = some root ∧ f root = .ok l := by
  unfold workspace
  cases c.workspace? with
  | none => simp [bind, Except.bind]
  | some root => simp [bind, Except.bind]

namespace FixedPath

open Inflection

variable {c : Context} {d : Disk} {w name : Text} {scope : List Text} {path : Path}
  {l : Location}

theorem beginsWith_classLine (name : Text) : (classLine name).BeginsWith ["class".toList] :=
  ((((beginsWith_lit _).edge_append.append _).append _).append _).append _

theorem inFile_of_locateClass? (h : locateClass? d name path = some l) :
    l.InFile d ["class".toList] := by
  obtain ⟨t, ht, rfl⟩ := Option.map_eq_some_iff.mp h
  obtain ⟨content, hr, rfl⟩ := Disk.readText?_eq_some_iff.mp ht
  refine ⟨content, hr, ?_⟩
  cases hf : (classLine name).findInLines? (Utf8.decode content) with
  | none => exact .inl rfl
  | some pos => exact .inr ((beginsWith_classLine name).standsAt_of_findInLines? hf)

theorem exists_candidate_of_model (h : model c w scope = .ok l) :
    ∃ root name path, c.workspace? = some root ∧ name ∈ modelNames w ∧
      path ∈ candidates root "models" scope (name ++ ".rb".toList) ∧
      locateClass? c.disk (classify name) path = some l := by
  obtain ⟨root, hr, h⟩ := Context.workspace_bind_eq_ok_iff.mp h
  rw [Context.foundOr_eq_ok_iff] at h
  obtain ⟨name, hn, h⟩ := List.exists_of_findSome?_eq_some h
  obtain ⟨path, hp, h⟩ := List.exists_of_findSome?_eq_some h
  exact ⟨root, name, path, hr, hn, hp, h⟩

theorem exists_of_byStem {ending : String} {locate? : Path → Text → Option Location}
    (h : byStem c ending locate? w = .ok l) :
    ∃ root, c.workspace? = some root ∧
      locate? root (snakeCase (w.stripSuffix ending.toList)) = some l := by
  dsimp only [byStem] at h
  split at h
  · cases h
  · obtain ⟨root, hr, h⟩ := Context.workspace_bind_eq_ok_iff.mp h
    exact ⟨root, hr, Context.foundOr_eq_ok_iff.mp h⟩

theorem exists_candidate_of_controller (h : controller c w scope = .ok l) :
    let name := snakeCase (w.stripSuffix "Controller".toList)
    ∃ root path, c.workspace? = some root ∧
      path ∈ candidates root "controllers" scope (name ++ "_controller.rb".toList) ∧
      locateClass? c.disk (classify name ++ "Controller".toList) path = some l := by
  obtain ⟨root, hr, h⟩ := exists_of_byStem h
  obtain ⟨path, hp, h⟩ := List.exists_of_findSome?_eq_some h
  exact ⟨root, path, hr, hp, h⟩

theorem exists_candidate_of_service (h : service c w scope = .ok l) :
    let name := snakeCase (w.stripSuffix "Service".toList)
    ∃ root path, c.workspace? = some root ∧
      path ∈ candidates root "services" scope (name ++ "_service.rb".toList) ∧
      c.disk.isFile path = true ∧ l = ⟨path, .start⟩ := by
  obtain ⟨root, hr, h⟩ := exists_of_byStem h
  obtain ⟨path, hp, rfl⟩ := Option.map_eq_some_iff.mp h
  exact ⟨root, path, hr, List.mem_of_find?_eq_some hp, List.find?_some hp, rfl⟩

theorem inFile_of_model (h : model c w scope = .ok l) : l.InFile c.disk ["class".toList] := by
  obtain ⟨_, _, _, _, _, _, h⟩ := exists_candidate_of_model h
  exact inFile_of_locateClass? h

theorem inFile_of_controller (h : controller c w scope = .ok l) :
    l.InFile c.disk ["class".toList] := by
  obtain ⟨_, _, _, _, h⟩ := exists_candidate_of_controller h
  exact inFile_of_locateClass? h

theorem inFile_of_service (h : service c w scope = .ok l) : l.InFile c.disk [] := by
  obtain ⟨_, _, _, _, hf, rfl⟩ := exists_candidate_of_service h
  exact .start (Disk.isFile_iff.mp hf)

end FixedPath

namespace ConstantKind

variable {c : Context} {kind : ConstantKind} {d : Disk} {leaf scope qualified : Text}
  {path : Path} {l : Location}

theorem inFile_of_declaration? (h : d.declaration? leaf scope path = some l) :
    l.InFile d Declaration.keywords := by
  obtain ⟨t, ht, h⟩ := Option.bind_eq_some_iff.mp h
  obtain ⟨pos, hpos, rfl⟩ := Option.map_eq_some_iff.mp h
  obtain ⟨content, hr, rfl⟩ := Disk.readText?_eq_some_iff.mp ht
  exact ⟨content, hr, Declaration.find?_eq_some hpos⟩

theorem inFile_of_find (h : kind.find c qualified = .ok l) :
    l.InFile c.disk Declaration.keywords := by
  obtain ⟨root, _, h⟩ := Context.workspace_bind_eq_ok_iff.mp h
  rw [Context.foundOr_eq_ok_iff] at h
  obtain ⟨path, _, h⟩ := List.exists_of_findSome?_eq_some h
  exact inFile_of_declaration? h

end ConstantKind

namespace Template

variable {c : Context} {w line template : Text} {views path : Path} {l : Location}

theorem exists_read?_of_ofController? (h : ofController? c views template = some path) :
    ∃ content, c.disk.read? path = some content := by
  simp only [ofController?, Option.bind_eq_bind, Option.bind_eq_some_iff, Option.pure_def,
    Option.some.injEq, Option.guard_eq_some'] at h
  obtain ⟨controller, _, _, hf, rfl⟩ := h
  exact Disk.isFile_iff.mp hf

theorem exists_read?_of_anywhere? (h : anywhere? c views template = some path) :
    ∃ content, c.disk.read? path = some content :=
  Disk.exists_read?_of_mem_files (List.mem_of_find?_eq_some h)

theorem inFile_of_find (h : find c w line = .ok l) : l.InFile c.disk [] := by
  obtain ⟨root, _, h⟩ := Context.workspace_bind_eq_ok_iff.mp h
  rw [Context.foundOr_eq_ok_iff] at h
  obtain ⟨path, hp, rfl⟩ := Option.map_eq_some_iff.mp h
  simp only [Option.orElse_eq_orElse, Option.orElse_eq_or, Option.or_eq_some_iff] at hp
  rcases hp with hp | ⟨_, hp⟩
  · exact .start (exists_read?_of_ofController? hp)
  · exact .start (exists_read?_of_anywhere? hp)

end Template

namespace Method

variable {c : Context} {name content : Text} {document path : Path} {l : Location}

theorem beginsWith_definitionOf (name : Text) :
    (definitionOf name).BeginsWith ["def".toList] :=
  ((((beginsWith_lit _).edge_append.append _).append _).append _).append _

/-- A method is found in the document or else in a file, the helper of its controller. -/
theorem find?_eq_some_cases (h : find? c name content = some l) :
    (c.document? = some l.path ∧ (definitionOf name).findInLines? content = some l.position) ∨
      ∃ source, c.disk.readText? l.path = some source ∧
        (definitionOf name).findInLines? source = some l.position := by
  simp only [find?, Option.bind_eq_bind, Option.bind_eq_some_iff] at h
  obtain ⟨document, hd, h⟩ := h
  split at h
  · next pos hf =>
    obtain rfl := Option.some.inj h
    exact .inl ⟨hd, hf⟩
  · simp only [Option.bind_eq_some_iff, Option.pure_def, Option.some.injEq] at h
    obtain ⟨helper, _, source, hs, pos, hf, rfl⟩ := h
    exact .inr ⟨source, hs, hf⟩

theorem find?_eq_some (h : find? c name content = some l) :
    (c.document? = some l.path ∧ Text.StandsAt "def".toList content l.position) ∨
      l.InFile c.disk ["def".toList] := by
  rcases find?_eq_some_cases h with ⟨hd, hf⟩ | ⟨source, hs, hf⟩
  · obtain ⟨w, hw, hstands⟩ := (beginsWith_definitionOf name).standsAt_of_findInLines? hf
    obtain rfl := List.mem_singleton.mp hw
    exact .inl ⟨hd, hstands⟩
  · obtain ⟨bytes, hr, rfl⟩ := Disk.readText?_eq_some_iff.mp hs
    exact .inr ⟨bytes, hr, .inr ((beginsWith_definitionOf name).standsAt_of_findInLines? hf)⟩

end Method

/-- The words that a definition may begin with. -/
def definitionWords : List Text := ["class", "module", "def"].map String.toList

variable {c : Context} {r : Reference} {content : Text} {position : Position} {l : Location}

theorem Category.inFile_of_lookup? {category : Category}
    (h : category.lookup? c r = some (.ok l)) : l.InFile c.disk definitionWords := by
  cases category <;> simp only [lookup?, Option.some.injEq, reduceCtorEq] at h
  case service => exact (FixedPath.inFile_of_service h).mono (by decide)
  case controller => exact (FixedPath.inFile_of_controller h).mono (by decide)
  case helper => exact (ConstantKind.inFile_of_find h).mono (by decide)
  case mailer => exact (ConstantKind.inFile_of_find h).mono (by decide)
  case view => exact (Template.inFile_of_find h).mono (by decide)
  case model => exact (FixedPath.inFile_of_model h).mono (by decide)

namespace Context

theorem resolveReference_eq_ok {category : Category}
    (h : c.resolveReference r category content = .ok l) :
    (c.document? = some l.path ∧ Text.StandsAt "def".toList content l.position) ∨
      l.InFile c.disk definitionWords := by
  unfold resolveReference at h
  split at h
  · next hl =>
    obtain rfl := Except.ok.inj h
    exact .inr (Category.inFile_of_lookup? hl)
  · rw [Method.find, foundOr_eq_ok_iff] at h
    exact (Method.find?_eq_some h).imp id fun h => h.mono (by decide)

/-- A resolution ends in the document, where `def` stands in its text, or in a regular file, at
its start or where one of `class`, `module` and `def` stands. -/
theorem resolve?_sound (h : c.resolve? content position = some l) :
    (c.document? = some l.path ∧ Text.StandsAt "def".toList content l.position) ∨
    ∃ place bytes, c.disk.lookup? l.path = some place ∧
      c.disk.get? place = some (.file bytes) ∧
      (l.position = .start ∨
        ∃ w ∈ ["class", "module", "def"], Text.StandsAt w.toList (Utf8.decode bytes) l.position) := by
  obtain ⟨r, _, h⟩ := Option.bind_eq_some_iff.mp h
  have hr : c.resolveReference r (Category.classify r.line) content = .ok l := by
    cases hc : c.resolveReference r (Category.classify r.line) content <;>
      simp_all [Except.toOption]
  refine (resolveReference_eq_ok hr).imp id ?_
  rintro ⟨bytes, hb, hp⟩
  obtain ⟨place, hl, he⟩ := Disk.read?_eq_some_iff.mp hb
  refine ⟨place, bytes, hl, he, hp.imp id ?_⟩
  rintro ⟨w, hw, hs⟩
  obtain ⟨w, hm, rfl⟩ := List.mem_map.mp hw
  exact ⟨w, hm, hs⟩

def blog : Context where
  disk := { entries := [(.ofStrings ["app"], .directory),
    (.ofStrings ["app", "models"], .directory),
    (.ofStrings ["app", "models", "blog_post.rb"],
      .file (Text.utf8 "module Blog\n  class BlogPost\nend\n".toList))] }
  workspace? := some (.ofString "/")

theorem resolve?_sound_blog :
    let l : Location := ⟨.ofString "/app/models/blog_post.rb", ⟨1, 2⟩⟩
    blog.resolve? "BlogPost.find(1)".toList ⟨0, 3⟩ = some l ∧
    ((blog.document? = some l.path ∧
        Text.StandsAt "def".toList "BlogPost.find(1)".toList l.position) ∨
      ∃ place bytes, blog.disk.lookup? l.path = some place ∧
        blog.disk.get? place = some (.file bytes) ∧
        (l.position = .start ∨
          ∃ w ∈ ["class", "module", "def"],
            Text.StandsAt w.toList (Utf8.decode bytes) l.position)) := by
  have h : blog.resolve? "BlogPost.find(1)".toList ⟨0, 3⟩ =
      some ⟨.ofString "/app/models/blog_post.rb", ⟨1, 2⟩⟩ := by cbv
  exact ⟨h, resolve?_sound h⟩

end Context

end RailsLookup
