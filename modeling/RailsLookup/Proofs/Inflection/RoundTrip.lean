import Mathlib
import RailsLookup.Inflection
import RailsLookup.Proofs.Text.Case
import RailsLookup.Proofs.Text.Pieces

/-! # From constants to file names and back

A constant becomes a file name by an underscore before each of its later words, and all its
letters become small. A file name becomes a constant by a capital at the beginning of each of its
words. There and back again, a name of letters and digits begins with a capital, and of capitals
in a row only the first is left.
-/

namespace RailsLookup.Inflection

variable {s t n : Text} {c p x : Char}

theorem mem_snakeAfter {previous : Option Char} (h : x ∈ snakeAfter previous t) :
    x = '_' ∨ ∃ c ∈ t, x = c.toLower := by
  induction t generalizing previous with
  | nil => cases h
  | cons c t ih =>
    rw [snakeAfter, List.mem_append] at h
    rcases h with h | h
    · split at h
      · simp only [List.mem_cons, List.not_mem_nil, or_false] at h
        rcases h with rfl | rfl
        · exact .inl rfl
        · exact .inr ⟨c, List.mem_cons_self, rfl⟩
      · exact .inr ⟨c, List.mem_cons_self, List.mem_singleton.mp h⟩
    · rcases ih h with hx | ⟨d, hd, hx⟩
      · exact .inl hx
      · exact .inr ⟨d, List.mem_cons_of_mem c hd, hx⟩

theorem not_mem_snakeCase (h : x ∉ t) (hx : x.isAlpha = false) (hu : x ≠ '_') :
    x ∉ snakeCase t := by
  intro hm
  rcases mem_snakeAfter hm with he | ⟨c, hc, he⟩
  · exact hu he
  · rw [(Case.toLower_eq_iff hx).mp he.symm] at hc
    exact h hc

theorem isUpper_of_mem_snakeCase (h : x ∈ snakeCase t) : x.isUpper = false := by
  rcases mem_snakeAfter h with rfl | ⟨c, _, rfl⟩
  · rfl
  · exact Char.isUpper_toLower_eq_false c

theorem snakeAfter_eq_self (h : ∀ c ∈ t, c.isUpper = false) (previous : Option Char) :
    snakeAfter previous t = t := by
  induction t generalizing previous with
  | nil => rfl
  | cons c t ih =>
    obtain ⟨hc, ht⟩ := List.forall_mem_cons.mp h
    rw [snakeAfter, ih ht]
    simp [hc, Char.toLower_eq_of_not_isUpper]

theorem snakeCase_eq_self (h : ∀ c ∈ t, c.isUpper = false) : snakeCase t = t :=
  snakeAfter_eq_self h none

theorem snakeCase_snakeCase (t : Text) : snakeCase (snakeCase t) = snakeCase t :=
  snakeCase_eq_self fun _ => isUpper_of_mem_snakeCase

def classifyRest (s : Text) : Text :=
  (s.splitOn '_').headD [] ++ (s.splitOn '_').tail.flatMap Text.capitalize

theorem classifyRest_underscore (s : Text) : classifyRest ('_' :: s) = classify s := by
  rw [classifyRest, Text.splitOn_cons_self]
  rfl

theorem classify_cons (hc : c ≠ '_') (s : Text) :
    classify (c :: s) = Case.upperChar c ++ classifyRest s := by
  obtain ⟨w, ws, hs, hcons⟩ := Text.splitOn_cons_of_ne hc s
  rw [classify, classifyRest, hs, hcons]
  simp [Text.capitalize]

theorem classifyRest_cons (hc : c ≠ '_') (s : Text) :
    classifyRest (c :: s) = c :: classifyRest s := by
  obtain ⟨w, ws, hs, hcons⟩ := Text.splitOn_cons_of_ne hc s
  rw [classifyRest, classifyRest, hs, hcons]
  rfl

/-- The text after a character, with a small letter for each capital that follows another. -/
def lowerRuns : Char → Text → Text
  | _, [] => []
  | p, c :: t => (if p.isUpper then c.toLower else c) :: lowerRuns c t

theorem lowerRuns_eq_self_iff :
    lowerRuns p t = t ↔ (p :: t).IsChain fun a b => ¬(a.isUpper = true ∧ b.isUpper = true) := by
  induction t generalizing p with
  | nil => simp [lowerRuns]
  | cons c t ih =>
    rw [lowerRuns, List.cons.injEq, ih, List.isChain_cons_cons]
    refine and_congr_left' ?_
    by_cases hp : p.isUpper = true
    · rw [if_pos hp]
      constructor
      · rintro he ⟨-, hc⟩
        have hsmall := Char.isUpper_toLower_eq_false c
        rw [he, hc] at hsmall
        cases hsmall
      · intro hnot
        exact Char.toLower_eq_of_not_isUpper fun hc => hnot ⟨hp, hc⟩
    · simp [hp]

theorem isAlphanum_toLower (h : c.isAlphanum = true) : c.toLower.isAlphanum = true := by
  by_cases hu : c.isUpper = true
  · have hlower : c.toLower.isLower = true := by
      rw [Char.isLower_toLower_eq_isAlpha, Char.isAlpha, hu, Bool.true_or]
    simp [Char.isAlphanum, Char.isAlpha, hlower]
  · rwa [Char.toLower_eq_of_not_isUpper hu]

theorem toLower_ne_underscore (h : c.isAlphanum = true) : c.toLower ≠ '_' := by
  intro he
  have hlower := isAlphanum_toLower h
  rw [he] at hlower
  cases hlower

theorem classify_toLower_cons (h : c.isAlphanum = true) (s : Text) :
    classify (c.toLower :: s) = c.toUpper :: classifyRest s := by
  rw [classify_cons (toLower_ne_underscore h),
    Case.upperChar_of_isAlphanum (isAlphanum_toLower h), Char.toUpper_toLower_eq_toUpper,
    List.singleton_append]

theorem isLower_or_isDigit (h : p.isAlphanum = true) :
    (p.isLower || p.isDigit) = !p.isUpper := by
  cases hu : p.isUpper with
  | false => simpa [Char.isAlphanum, Char.isAlpha, hu] using h
  | true =>
    have hlower : p.isLower = false := by simpa using Char.not_isLower_of_isUpper hu
    have hdigit : p.isDigit = false := by
      simp only [Char.isUpper, Char.isDigit, Bool.and_eq_false_iff, decide_eq_true_eq,
        decide_eq_false_iff_not, ge_iff_le, UInt32.le_iff_toNat_le] at hu ⊢
      change 65 ≤ p.toNat ∧ p.toNat ≤ 90 at hu
      right
      change ¬p.toNat ≤ 57
      omega
    simp [hlower, hdigit]

theorem classifyRest_snakeAfter (hp : p.isAlphanum = true) (ht : ∀ c ∈ t, c.isAlphanum = true) :
    classifyRest (snakeAfter (some p) t) = lowerRuns p t := by
  induction t generalizing p with
  | nil => rfl
  | cons c t ih =>
    obtain ⟨hc, ht⟩ := List.forall_mem_cons.mp ht
    rw [snakeAfter, lowerRuns, Option.any_some, isLower_or_isDigit hp]
    split
    · -- a capital after a small letter or a digit: the underscore makes it a capital again
      next hparted =>
      obtain ⟨hcu, hpu⟩ : c.isUpper = true ∧ p.isUpper = false := by simpa using hparted
      have hup : c.toUpper = c := Char.toUpper_eq_of_not_isLower (Char.not_isLower_of_isUpper hcu)
      rw [List.cons_append, List.cons_append, List.nil_append, classifyRest_underscore,
        classify_toLower_cons hc, ih hc ht, hup, hpu]
      rfl
    · -- no underscore: what is no capital stays as it is, and a capital after another stays small
      next hjoined =>
      have hcl : (if p.isUpper then c.toLower else c) = c.toLower := by
        split
        · rfl
        · next hpu =>
          refine (Char.toLower_eq_of_not_isUpper fun hcu => hjoined ?_).symm
          simp [hcu, hpu]
      rw [List.singleton_append, classifyRest_cons (toLower_ne_underscore hc), ih hc ht, hcl]

/-- There and back again a name begins with a capital and keeps of its later ones those that follow
no other. -/
theorem classify_snakeCase_cons (h : ∀ d ∈ c :: t, d.isAlphanum = true) :
    classify (snakeCase (c :: t)) = c.toUpper :: lowerRuns c t := by
  obtain ⟨hc, ht⟩ := List.forall_mem_cons.mp h
  have hsnake : snakeCase (c :: t) = c.toLower :: snakeAfter (some c) t := by
    simp [snakeCase, snakeAfter]
  rw [hsnake, classify_toLower_cons hc, classifyRest_snakeAfter hc ht]

/-- Letters and digits that begin with a capital and have no two capitals in a row. -/
structure IsConstant (n : Text) : Prop where
  head : n.head?.any Char.isUpper = true
  isAlphanum : ∀ c ∈ n, c.isAlphanum = true
  apart : n.IsChain fun a b => ¬(a.isUpper = true ∧ b.isUpper = true)

namespace IsConstant

theorem exists_cons (h : IsConstant n) : ∃ c t, n = c :: t ∧ c.isUpper = true := by
  cases n with
  | nil => cases h.head
  | cons c t => exact ⟨c, t, rfl, h.head⟩

theorem classify_snakeCase (h : IsConstant n) : classify (snakeCase n) = n := by
  obtain ⟨c, t, rfl, hc⟩ := h.exists_cons
  have hup : c.toUpper = c := Char.toUpper_eq_of_not_isLower (Char.not_isLower_of_isUpper hc)
  rw [classify_snakeCase_cons h.isAlphanum, lowerRuns_eq_self_iff.mpr h.apart, hup]

theorem head_snakeCase (h : IsConstant n) : (snakeCase n).head?.any Char.isLower = true := by
  obtain ⟨c, t, rfl, hc⟩ := h.exists_cons
  simp [snakeCase, snakeAfter, Char.isAlpha, hc]

end IsConstant

end RailsLookup.Inflection
