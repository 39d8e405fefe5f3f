import Mathlib
import RailsLookup.Proofs.Text.Opening
import RailsLookup.Proofs.Text.Reading

/-! # Where lines begin

A line begins at the start of a text or after a line feed, and its number counts the line feeds
before it. So a search line by line reports the same position as one that counts up to the place
of the match.
-/

namespace RailsLookup

namespace Position

variable {s t : Text}

theorem line_after (t : Text) : (after t).line = t.count '\n' := by
  induction t with
  | nil => rfl
  | cons c t ih =>
    by_cases hc : c = '\n'
    · rw [hc, after_cons_newline, List.count_cons_self, ih]
    · rw [after_cons hc, List.count_cons_of_ne hc, ← ih]
      split
      · next hl => exact hl.symm
      · rfl

theorem after_of_not_mem (h : '\n' ∉ t) : after t = ⟨0, t.length⟩ := by
  induction t with
  | nil => rfl
  | cons c t ih =>
    rw [List.mem_cons, not_or] at h
    rw [after_cons (Ne.symm h.1), ih h.2]
    rfl

theorem after_append_newline (h : '\n' ∉ s) (t : Text) :
    after (s ++ '\n' :: t) = ⟨(after t).line + 1, (after t).column⟩ := by
  induction s with
  | nil => exact after_cons_newline t
  | cons c s ih =>
    rw [List.mem_cons, not_or] at h
    rw [List.cons_append, after_cons (Ne.symm h.1), ih h.2, if_neg (Nat.succ_ne_zero _)]

theorem after_append_of_not_mem {k : Nat} (hs : after s = ⟨k, 0⟩) (ht : '\n' ∉ t) :
    after (s ++ t) = ⟨k, t.length⟩ := by
  have h : after (s ++ t) = t.foldl advance (after s) := List.foldl_append
  rw [h, foldl_advance, hs, after_of_not_mem ht]
  simp

end Position

namespace Text

open Position

variable {s t line : Text} {k : Nat}

/-- The first line is cut off at the first line feed, in the same way whatever follows. -/
theorem exists_lines_append_newline (h : '\n' ∉ s) :
    ∃ line, ∀ t, lines (s ++ '\n' :: t) = line :: lines t := by
  induction s with
  | nil => exact ⟨[], fun t => rfl⟩
  | cons c s ih =>
    rw [List.mem_cons, not_or] at h
    obtain ⟨line, hline⟩ := ih h.2
    cases s with
    | nil =>
      by_cases hc : c = '\r'
      · subst hc
        exact ⟨[], fun t => rfl⟩
      · refine ⟨c :: line, fun t => ?_⟩
        rw [List.cons_append, lines_cons (Ne.symm h.1) fun he => absurd he hc, hline]
        rfl
    | cons d s =>
      refine ⟨c :: line, fun t => ?_⟩
      have hd : d ≠ '\n' := fun he => h.2 (he ▸ List.mem_cons_self)
      rw [List.cons_append, lines_cons (Ne.symm h.1) fun _ => by simpa using hd, hline]
      rfl

theorem tail_lines_of_not_mem (h : '\n' ∉ t) : (lines t).tail = [] := by
  induction t with
  | nil => rfl
  | cons c t ih =>
    rw [List.mem_cons, not_or] at h
    have hr : c = '\r' → t.head? ≠ some '\n' := fun _ hh => h.2 (List.mem_of_head? hh)
    rw [lines_cons (Ne.symm h.1) hr, List.tail_cons, ih h.2]

theorem prefix_of_head?_lines (h : (lines t).head? = some line) : line <+: t ∧ '\n' ∉ line := by
  have hline : (lines t).headD [] = line := by rw [List.headD_eq_head?_getD, h, Option.getD_some]
  rw [← hline]
  exact headD_lines_prefix t

theorem exists_of_getElem?_lines (h : (lines t)[k]? = some line) :
    ∃ earlier rest, t = earlier ++ rest ∧ (earlier = [] ∨ earlier.getLast? = some '\n') ∧
      after earlier = ⟨k, 0⟩ ∧ lines earlier = (lines t).take k ∧
      (lines rest).head? = some line := by
  induction k generalizing t with
  | zero => exact ⟨[], t, rfl, .inl rfl, rfl, rfl, by rwa [List.head?_eq_getElem?]⟩
  | succ k ih =>
    have hn : '\n' ∈ t := by
      by_contra hn
      have hk : (lines t).tail[k]? = some line := by rwa [List.getElem?_tail]
      rw [tail_lines_of_not_mem hn] at hk
      cases hk
    obtain ⟨s, t, rfl, hs⟩ := List.eq_append_cons_of_mem hn
    obtain ⟨l, hl⟩ := exists_lines_append_newline hs
    rw [hl, List.getElem?_cons_succ] at h
    obtain ⟨earlier, rest, rfl, hend, hafter, hlines, hhead⟩ := ih h
    refine ⟨s ++ '\n' :: earlier, rest, by simp, .inr ?_, ?_, ?_, hhead⟩
    · rcases hend with rfl | hend
      · simp
      · simp [List.getLast?_append, List.getLast?_cons, hend]
    · rw [after_append_newline hs, hafter]
    · rw [hl, hl, hlines, List.take_succ_cons]

end Text

namespace Pattern

open Text Position

variable {p : Pattern} {words : List Text} {t front rest : Text} {pos : Position}

/-- Line by line the pattern is first found where `front` ends: no line of `earlier` has it, and in
the line that begins there it is first found after `start`. -/
def FirstInLines (p : Pattern) (front rest : Text) : Prop :=
  ∃ earlier start line : Text, front = earlier ++ start ∧
    (earlier = [] ∨ earlier.getLast? = some '\n') ∧ '\n' ∉ start ∧
    (∀ l ∈ earlier.lines, p.find? l = none) ∧ (start ++ rest).lines.head? = some line ∧
    p.find? line = some start.length

theorem exists_of_findInLines? (h : p.findInLines? t = some pos) :
    ∃ front rest, t = front ++ rest ∧ p.FirstInLines front rest ∧ pos = after front := by
  obtain ⟨line, hl, hf, hnone⟩ := findInLines?_eq_some_iff.mp h
  obtain ⟨earlier, rest, rfl, hend, hafter, hlines, hhead⟩ := exists_of_getElem?_lines hl
  obtain ⟨⟨more, rfl⟩, hn⟩ := prefix_of_head?_lines hhead
  obtain ⟨start, tail, rfl, hcolumn, -⟩ := (isLeast_of_find? hf).1
  have hstart : '\n' ∉ start := fun hm => hn (List.mem_append_left tail hm)
  refine ⟨earlier ++ start, tail ++ more, by simp, ?_, ?_⟩
  · refine ⟨earlier, start, start ++ tail, rfl, hend, hstart, ?_, by simpa using hhead, ?_⟩
    · rwa [hlines]
    · rw [hf, hcolumn]
  · rw [after_append_of_not_mem hafter hstart, hcolumn]

theorem BeginsWith.prefix_of_firstInLines (hp : p.BeginsWith words)
    (h : p.FirstInLines front rest) : ∃ w ∈ words, w <+: rest := by
  obtain ⟨earlier, start, line, rfl, _, _, _, hhead, hf⟩ := h
  obtain ⟨w, hw, hpre⟩ := hp.prefix_of_find? hf
  have hline := (prefix_of_head?_lines hhead).1.drop start.length
  rw [List.drop_left] at hline
  exact ⟨w, hw, hpre.trans hline⟩

end Pattern

end RailsLookup
