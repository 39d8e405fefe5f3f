import Mathlib
import RailsLookup.Proofs.Text.LineEnds
import RailsLookup.Proofs.Text.LineStart
import RailsLookup.Proofs.Text.Offsets

/-! # Searches for a word

A word without line ends lies in one line wherever it stands. So a search line by line finds it
first where its bytes first stand among those of the text, and reports the position of that offset.
-/

namespace RailsLookup

/-- The byte offsets at which the bytes of the word stand among those of the text. -/
def Text.occurrences (word t : Text) : Set Nat := {o | word.utf8 <+: t.utf8.drop o}

theorem Text.mem_occurrences_iff {word t : Text} {o : Nat} (hw : word ≠ []) :
    o ∈ word.occurrences t ↔
      ∃ front rest : Text, t = front ++ (word ++ rest) ∧ front.byteSize = o :=
  utf8_prefix_drop_iff hw

namespace Pattern

open Text Position

variable {word t front rest line : Text} {pos pos' : Position}

theorem startsAt_lit_iff : (lit word).startsAt (.between front rest) = true ↔ word <+: rest := by
  rw [startsAt_iff_exists]
  constructor
  · rintro ⟨e, he⟩
    obtain ⟨_, rfl, hr⟩ := (spells_lit word _ _).mp he
    exact ⟨e.rest, hr.1.symm⟩
  · rintro ⟨rest, rfl⟩
    exact ⟨_, (spells_lit word _ _).mpr ⟨word, rfl, Spot.reads_between front word rest⟩⟩

theorem isSome_find?_lit {column : Nat} (h : word <+: line.drop column) :
    ((lit word).find? line).isSome = true :=
  isSome_find? ⟨line.take column, line.drop column, (List.take_append_drop column line).symm, rfl,
    startsAt_lit_iff.mpr h⟩

theorem isSome_findInLines?_lit (h : word.StandsAt t pos) :
    ((lit word).findInLines? t).isSome = true := by
  obtain ⟨line, hl, hp⟩ := h
  exact isSome_findInLines? (List.mem_of_getElem? hl) (isSome_find?_lit hp)

theorem exists_of_findInLines?_lit (h : (lit word).findInLines? t = some pos) :
    ∃ front rest : Text, t = front ++ (word ++ rest) ∧ pos = after front := by
  obtain ⟨front, rest, rfl, hfirst, rfl⟩ := exists_of_findInLines? h
  obtain ⟨w, hw, more, rfl⟩ := (beginsWith_lit word).prefix_of_firstInLines hfirst
  obtain rfl := List.mem_singleton.mp hw
  exact ⟨front, more, rfl, rfl⟩

theorem not_before_of_findInLines?_lit (h : (lit word).findInLines? t = some pos)
    (h' : word.StandsAt t pos') : ¬pos'.Before pos := by
  obtain ⟨line, hl, hf, hnone⟩ := findInLines?_eq_some_iff.mp h
  obtain ⟨line', hl', hp'⟩ := h'
  rintro (hlt | ⟨heq, hlt⟩)
  · have hmem : line' ∈ t.lines.take pos.line :=
      List.mem_of_getElem? (by rwa [List.getElem?_take_of_lt hlt])
    have hsome := isSome_find?_lit hp'
    rw [hnone line' hmem] at hsome
    cases hsome
  · rw [heq, hl, Option.some.injEq] at hl'
    subst hl'
    have hnot := (find?_eq_some_iff.mp hf).2.2 pos'.column hlt
    rw [startsAt_lit_iff.mpr hp'] at hnot
    cases hnot

/-- A word without line ends is found line by line where its bytes first stand in the text, and is
missed just if they stand nowhere. -/
theorem findInLines?_first_occurrence (content word : Text) (hne : word ≠ [])
    (hword : word.Unbroken) :
    (∀ offset, IsLeast (word.occurrences content) offset →
      ∃ pos, content.positionAt? offset = some pos ∧ (lit word).findInLines? content = some pos) ∧
    ((lit word).findInLines? content = none ↔ ¬word.utf8 <:+: content.utf8) := by
  have hstands (front rest : Text) : word.StandsAt (front ++ (word ++ rest)) (after front) :=
    standsAt_after hne hword.1 hword.2 front rest
  refine ⟨fun offset hleast => ?_, ⟨fun hnone hinfix => ?_, fun hinfix => ?_⟩⟩
  · obtain ⟨front, rest, ht, rfl⟩ := (mem_occurrences_iff hne).mp hleast.1
    have hs := hstands front rest
    rw [← ht] at hs
    obtain ⟨pos, hpos⟩ := Option.isSome_iff_exists.mp (isSome_findInLines?_lit hs)
    obtain ⟨front', rest', ht', rfl⟩ := exists_of_findInLines?_lit hpos
    have hle : front.byteSize ≤ front'.byteSize :=
      hleast.2 ((mem_occurrences_iff hne).mpr ⟨front', rest', ht', rfl⟩)
    have hp : front <+: content := ⟨_, ht.symm⟩
    have hp' : front' <+: content := ⟨_, ht'.symm⟩
    have hge : ¬front.byteSize < front'.byteSize := fun hlt =>
      not_before_of_findInLines?_lit hpos hs ((byteSize_lt_iff_before hp hp').mp hlt)
    obtain rfl := eq_of_byteSize_eq hp hp' (by omega)
    refine ⟨_, ?_, hpos⟩
    rw [ht, positionAt?_byteSize]
  · obtain ⟨before, after, h⟩ := hinfix
    have hmem : before.length ∈ word.occurrences content := by
      change word.utf8 <+: content.utf8.drop before.length
      rw [← h, List.append_assoc, List.drop_left]
      exact List.prefix_append _ _
    obtain ⟨front, rest, rfl, -⟩ := (mem_occurrences_iff hne).mp hmem
    have hsome := isSome_findInLines?_lit (hstands front rest)
    rw [hnone] at hsome
    cases hsome
  · by_contra hsome
    obtain ⟨pos, hpos⟩ := Option.ne_none_iff_exists'.mp hsome
    obtain ⟨front, rest, rfl, -⟩ := exists_of_findInLines?_lit hpos
    exact hinfix ⟨front.utf8, rest.utf8, by simp [utf8_append]⟩

theorem findInLines?_first_occurrence_menu :
    let content : Text := "é = 1\r\nñ = é\n".toList
    let word : Text := "= é".toList
    word ≠ [] ∧ word.Unbroken ∧ IsLeast (word.occurrences content) 11 ∧
      content.positionAt? 11 = some ⟨1, 2⟩ ∧ (lit word).findInLines? content = some ⟨1, 2⟩ := by
  intro content word
  have hleast : IsLeast (word.occurrences content) 11 := by
    have hmem : word.utf8 <+: content.utf8.drop 11 := by decide +kernel
    have hnot : ∀ o < 11, ¬word.utf8 <+: content.utf8.drop o := by decide +kernel
    exact ⟨hmem, fun o ho => Nat.le_of_not_lt fun hlt => hnot o hlt ho⟩
  have hat : content.positionAt? 11 = some ⟨1, 2⟩ := by decide +kernel
  have hword : word.Unbroken := by decide +kernel
  obtain ⟨pos, hpos, hfound⟩ :=
    (findInLines?_first_occurrence content word (by decide) hword).1 11 hleast
  obtain rfl := Option.some.inj (hpos.symm.trans hat)
  exact ⟨by decide, hword, hleast, hat, hfound⟩

end Pattern

end RailsLookup
