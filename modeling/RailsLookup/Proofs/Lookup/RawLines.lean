import Mathlib
import RailsLookup.Proofs.Declaration.Positions
import RailsLookup.Proofs.Lookup.Soundness
import RailsLookup.Proofs.Text.Encoding
import RailsLookup.Proofs.Text.LineStart

/-! # Reported lines in the bytes of a file

A file is read as a text although not all of its bytes may be readable. Lookups report the line of
a keyword in that text, by its place or line by line. In either way it is the line of the keyword's
first byte: as many line feeds stand before it among the bytes of the file.
-/

namespace RailsLookup

open Pattern Position

variable {content : Bytes} {front rest text : Text} {words : List Text}

/-- One of the words stands after `front`, and the number counts the line feeds before it among the
bytes: those of the only beginning that is read as `front` and goes on with the word. -/
def CountsLines (words : List Text) (content : Bytes) (front rest : Text) (line : Nat) : Prop :=
  ∃ w ∈ words, w <+: rest ∧ ∃ before : Bytes,
    (∀ b, Utf8.WrittenAfter w content front b ↔ b = before) ∧ line = before.count 0x0A

theorem countsLines (hw : ∀ w ∈ words, w ≠ [] ∧ w.all (·.toNat < 0x80) = true)
    (ht : Utf8.decode content = front ++ rest) (hp : ∃ w ∈ words, w <+: rest) :
    CountsLines words content front rest (after front).line := by
  obtain ⟨w, hm, more, rfl⟩ := hp
  obtain ⟨hne, hascii⟩ := hw w hm
  obtain ⟨before, hbefore, hunique⟩ :=
    Utf8.existsUnique_writtenAfter hne (by simpa using hascii) ht
  have hiff (b : Bytes) : Utf8.WrittenAfter w content front b ↔ b = before :=
    ⟨hunique b, fun h => h ▸ hbefore⟩
  refine ⟨w, hm, List.prefix_append w more, before, hiff, ?_⟩
  rw [line_after, ← hbefore.1]
  exact Utf8.count_decode (b := 0x0A) (by decide) before

namespace Declaration

variable {leaf scope : Text} {pos : Position}

theorem beginsWith_of_mem_tiers {p : Pattern} (h : p ∈ tiers leaf scope) :
    p.BeginsWith keywords := by
  rw [tiers] at h
  split at h
  · obtain rfl := List.mem_singleton.mp h
    exact beginsWith_plain leaf
  · simp only [List.mem_cons, List.not_mem_nil, or_false] at h
    rcases h with rfl | rfl
    · exact beginsWith_qualified _ leaf
    · exact beginsWith_plain leaf

theorem findSome?_positionOf? (ps : List Pattern) (text : Text) :
    ps.findSome? (positionOf? · text) =
      (ps.findSome? (·.find? text)).map fun n => after (text.take n) := by
  rw [List.map_findSome?]
  congr 1
  funext p
  exact positionOf?_eq_map p text

theorem find?_eq_some_cases (h : find? text leaf scope = some pos) :
    (∃ n, (tiers leaf scope).findSome? (·.find? text) = some n ∧ pos = after (text.take n)) ∨
      (tiers leaf scope).findSome? (·.find? text) = none ∧ pos = .start := by
  have hcases : (tiers leaf scope).findSome? (positionOf? · text) = some pos ∨
      (tiers leaf scope).findSome? (positionOf? · text) = none ∧ pos = .start := by
    have hl : leaf ≠ [] := by
      rintro rfl
      cases h
    rw [find?_eq_findSome? hl, Option.or_eq_some_iff] at h
    refine h.imp_right fun ⟨hn, h⟩ => ⟨hn, ?_⟩
    split at h
    · exact (Option.some.inj h).symm
    · cases h
  simp only [findSome?_positionOf?, Option.map_eq_some_iff, Option.map_eq_none_iff] at hcases
  rcases hcases with ⟨n, hn, rfl⟩ | hstart
  · exact .inl ⟨n, hn, rfl⟩
  · exact .inr hstart

theorem countsLines_of_find? (h : find? (Utf8.decode content) leaf scope = some pos) :
    (∃ front rest, Utf8.decode content = front ++ rest ∧
      (tiers leaf scope).findSome? (·.find? (Utf8.decode content)) = some front.length ∧
      CountsLines keywords content front rest pos.line) ∨
    (tiers leaf scope).findSome? (·.find? (Utf8.decode content)) = none ∧ pos = .start := by
  rcases find?_eq_some_cases h with ⟨n, hn, rfl⟩ | hstart
  · obtain ⟨p, hp, hf⟩ := List.exists_of_findSome?_eq_some hn
    obtain ⟨front, rest, ht, rfl, -⟩ := (isLeast_of_find? hf).1
    have hword := (beginsWith_of_mem_tiers hp).prefix_of_find? hf
    rw [ht, List.drop_left] at hword
    refine .inl ⟨front, rest, ht, hn, ?_⟩
    rw [ht, List.take_left]
    exact countsLines (by decide) ht hword
  · exact .inr hstart

end Declaration

theorem Pattern.BeginsWith.countsLines_of_findInLines? {p : Pattern} {pos : Position}
    (hp : p.BeginsWith words) (hw : ∀ w ∈ words, w ≠ [] ∧ w.all (·.toNat < 0x80) = true)
    (h : p.findInLines? (Utf8.decode content) = some pos) :
    ∃ front rest, Utf8.decode content = front ++ rest ∧ p.FirstInLines front rest ∧
      CountsLines words content front rest pos.line := by
  obtain ⟨front, rest, ht, hfirst, rfl⟩ := exists_of_findInLines? h
  exact ⟨front, rest, ht, hfirst, countsLines hw ht (hp.prefix_of_firstInLines hfirst)⟩

theorem FixedPath.countsLines_of_locateClass? {d : Disk} {name : Text} {path : Path} {l : Location}
    (hread : d.read? path = some content) (h : locateClass? d name path = some l) :
    l.path = path ∧
      ((∃ front rest, Utf8.decode content = front ++ rest ∧
          (classLine name).FirstInLines front rest ∧
          CountsLines ["class".toList] content front rest l.position.line) ∨
        (∀ line ∈ (Utf8.decode content).lines, (classLine name).find? line = none) ∧
          l.position = .start) := by
  rw [locateClass?, Disk.readText?, hread, Option.map_some, Option.map_some, Option.some.injEq] at h
  subst h
  refine ⟨rfl, ?_⟩
  cases hf : (classLine name).findInLines? (Utf8.decode content) with
  | some pos => exact .inl ((beginsWith_classLine name).countsLines_of_findInLines? (by decide) hf)
  | none =>
    refine .inr ⟨fun line hm => ?_, rfl⟩
    by_contra hsome
    have hfound := isSome_findInLines? hm (Option.isSome_iff_ne_none.mpr hsome)
    rw [hf] at hfound
    cases hfound

theorem Method.countsLines_of_find? {c : Context} {name document : Text} {l : Location}
    (hread : c.disk.read? l.path = some content) (h : find? c name document = some l)
    (hdocument : c.document? = some l.path → document = Utf8.decode content) :
    ∃ front rest, Utf8.decode content = front ++ rest ∧
      (definitionOf name).FirstInLines front rest ∧
      CountsLines ["def".toList] content front rest l.position.line := by
  have hf : (definitionOf name).findInLines? (Utf8.decode content) = some l.position := by
    rcases find?_eq_some_cases h with ⟨hd, hf⟩ | ⟨source, hs, hf⟩
    · rwa [hdocument hd] at hf
    · rw [Disk.readText?, hread, Option.map_some, Option.some.injEq] at hs
      rwa [hs]
  exact (beginsWith_definitionOf name).countsLines_of_findInLines? (by decide) hf

namespace Disk

/-- Bytes that cannot be read move no line. The ASCII of a file's text is that of its bytes, and
the line that a lookup reports for the file is that of the keyword's first byte, be it the keyword
of the declaration that is found first, of the first line that has the class or of the first line
that defines the method. -/
theorem reported_lines_in_bytes (d : Disk) (path : Path) (content : Bytes)
    (hread : d.read? path = some content) :
    ∃ text : Text, d.readText? path = some text ∧
      Text.utf8 (text.filter (·.toNat < 0x80)) = content.filter (·.toNat < 0x80) ∧
      (∀ leaf scope l, d.declaration? leaf scope path = some l → l.path = path ∧
        ((∃ front rest, text = front ++ rest ∧
            (Declaration.tiers leaf scope).findSome? (·.find? text) = some front.length ∧
            CountsLines Declaration.keywords content front rest l.position.line) ∨
          (Declaration.tiers leaf scope).findSome? (·.find? text) = none ∧
            l.position = .start)) ∧
      (∀ name l, FixedPath.locateClass? d name path = some l → l.path = path ∧
        ((∃ front rest, text = front ++ rest ∧
            (FixedPath.classLine name).FirstInLines front rest ∧
            CountsLines ["class".toList] content front rest l.position.line) ∨
          (∀ line ∈ text.lines, (FixedPath.classLine name).find? line = none) ∧
            l.position = .start)) ∧
      ∀ (c : Context) name document l, c.disk = d → Method.find? c name document = some l →
        l.path = path → (c.document? = some path → document = text) →
        ∃ front rest, text = front ++ rest ∧
          (Method.definitionOf name).FirstInLines front rest ∧
          CountsLines ["def".toList] content front rest l.position.line := by
  have htext : d.readText? path = some (Utf8.decode content) := by rw [readText?, hread]; rfl
  refine ⟨Utf8.decode content, htext, Utf8.utf8_filter_decode content, ?_, ?_, ?_⟩
  · intro leaf scope l h
    rw [declaration?, htext, Option.bind_some, Option.map_eq_some_iff] at h
    obtain ⟨pos, hpos, rfl⟩ := h
    exact ⟨rfl, Declaration.countsLines_of_find? hpos⟩
  · intro name l h
    exact FixedPath.countsLines_of_locateClass? hread h
  · rintro c name document l rfl h rfl hdocument
    exact Method.countsLines_of_find? hread h hdocument

def legacy : Disk where
  entries := [(.ofStrings ["legacy.rb"],
    .file (Text.utf8 "# ".toList ++ [0xE4, 0xBD] ++ Text.utf8 "\nmodule Legacy\nend\n".toList))]

theorem reported_lines_in_bytes_legacy :
    let path : Path := .ofString "/legacy.rb"
    ∃ content, legacy.read? path = some content ∧
      legacy.declaration? "Legacy".toList [] path = some ⟨path, ⟨1, 0⟩⟩ ∧
      ∃ front rest, legacy.readText? path = some (front ++ rest) ∧
        CountsLines Declaration.keywords content front rest 1 := by
  have hread : legacy.read? (.ofString "/legacy.rb") = some (Text.utf8 "# ".toList ++
      [0xE4, 0xBD] ++ Text.utf8 "\nmodule Legacy\nend\n".toList) := by cbv
  have hfound : legacy.declaration? "Legacy".toList [] (.ofString "/legacy.rb") =
      some ⟨.ofString "/legacy.rb", ⟨1, 0⟩⟩ := by
    rw [declaration?, readText?, hread]
    decide +kernel
  obtain ⟨text, htext, -, hdeclaration, -⟩ := reported_lines_in_bytes _ _ _ hread
  refine ⟨_, hread, hfound, ?_⟩
  rcases (hdeclaration _ _ _ hfound).2 with ⟨front, rest, rfl, -, hlines⟩ | ⟨-, hstart⟩
  · exact ⟨front, rest, htext, hlines⟩
  · cases hstart

end Disk

end RailsLookup
