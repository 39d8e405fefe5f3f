import Mathlib
import RailsLookup.Proofs.Inflection.RoundTrip
import RailsLookup.Proofs.Text.Pieces

/-! # Names that survive both conversions

A constant is the same after it has become a file name and a constant again if it does not begin
with a small letter and has no two capitals in a row, and only then. The other way round it depends
on the underscores. Each of them is put back where a letter follows it and where the word before it
does not end with its own capital, as a word of one letter does.
-/

namespace RailsLookup.Inflection

variable {n s t w : Text} {c : Char} {previous : Option Char} {ws : List Text}

theorem toUpper_eq_self_iff : c.toUpper = c ↔ c.isLower = false := by
  constructor
  · intro h
    have hc := Char.isLower_toUpper_eq_false c
    rwa [h] at hc
  · intro h
    apply Char.toUpper_eq_of_not_isLower
    simp [h]

/-- A name of letters and digits is the same constant again exactly if it does not begin with a
small letter and has no two capitals in a row. -/
theorem classify_snakeCase_eq_self_iff (n : Text) (hn : ∀ c ∈ n, c.isAlphanum = true) :
    classify (snakeCase n) = n ↔
      n.head?.any Char.isLower = false ∧
        n.IsChain fun a b => ¬(a.isUpper = true ∧ b.isUpper = true) := by
  cases n with
  | nil => exact iff_of_true rfl ⟨rfl, .nil⟩
  | cons c t =>
    rw [classify_snakeCase_cons hn, List.cons.injEq, toUpper_eq_self_iff, lowerRuns_eq_self_iff]
    rfl

theorem classify_snakeCase_eq_self_iff_client :
    (∀ c ∈ "2ndApi2Client".toList ++ "HTMLParser".toList, c.isAlphanum = true) ∧
    classify (snakeCase "2ndApi2Client".toList) = "2ndApi2Client".toList ∧
    classify (snakeCase "HTMLParser".toList) ≠ "HTMLParser".toList := by
  have h : ∀ c ∈ "2ndApi2Client".toList ++ "HTMLParser".toList, c.isAlphanum = true :=
    List.all_eq_true.mp (by decide)
  have hall := List.forall_mem_append.mp h
  refine ⟨h, (classify_snakeCase_eq_self_iff _ hall.1).mpr (by decide), fun he => ?_⟩
  exact absurd ((classify_snakeCase_eq_self_iff _ hall.2).mp he).2 (by decide)

theorem isAlphanum_toUpper (h : c.isAlphanum = true) : c.toUpper.isAlphanum = true := by
  by_cases hl : c.isLower = true
  · have hupper : c.toUpper.isUpper = true := by
      rw [Char.isUpper_toUpper_eq_isAlpha, Char.isAlpha, hl, Bool.or_true]
    simp [Char.isAlphanum, Char.isAlpha, hupper]
  · rwa [Char.toUpper_eq_of_not_isLower hl]

def IsSmall (w : Text) : Prop := ∀ c ∈ w, c.isLower = true ∨ c.isDigit = true

def allowsUnderscore (previous : Option Char) : Bool := previous.any fun p => p.isLower || p.isDigit

theorem snakeAfter_cons (previous : Option Char) (c : Char) (t : Text) :
    snakeAfter previous (c :: t) =
      (if c.isUpper && allowsUnderscore previous then ['_'] else []) ++
        c.toLower :: snakeAfter (some c) t := by
  rw [snakeAfter]
  change (if c.isUpper && allowsUnderscore previous then _ else _) ++ _ = _
  split <;> rfl

theorem snakeAfter_append (previous : Option Char) (s t : Text) :
    snakeAfter previous (s ++ t) =
      snakeAfter previous s ++ snakeAfter (s.getLast?.or previous) t := by
  induction s generalizing previous with
  | nil => rfl
  | cons c s ih =>
    have hlast : (c :: s).getLast?.or previous = s.getLast?.or (some c) := by
      cases s <;> simp [List.getLast?_cons]
    rw [hlast, List.cons_append, snakeAfter_cons, snakeAfter_cons, ih, List.append_assoc,
      List.cons_append]

theorem exists_of_snakeAfter_eq (ht : '_' ∉ t) (h : snakeAfter previous t = '_' :: s) :
    ∃ d rest, d ≠ '_' ∧ s = d :: rest := by
  cases t with
  | nil => cases h
  | cons c t =>
    have hc : c.toLower ≠ '_' := by
      intro he
      rw [Case.toLower_eq_iff rfl] at he
      exact ht (he ▸ List.mem_cons_self)
    rw [snakeAfter_cons] at h
    split at h
    · exact ⟨c.toLower, _, hc, (List.cons.inj h).2.symm⟩
    · exact absurd (List.cons.inj h).1 hc

namespace IsSmall

theorem isAlphanum (h : IsSmall w) (hc : c ∈ w) : c.isAlphanum = true := by
  rcases h c hc with hc | hc <;> simp [Char.isAlphanum, Char.isAlpha, hc]

theorem isUpper_eq_false (h : IsSmall w) (hc : c ∈ w) : c.isUpper = false := by
  have hsmall : (c.isLower || c.isDigit) = true := Bool.or_eq_true_iff.mpr (h c hc)
  rwa [isLower_or_isDigit (h.isAlphanum hc), Bool.not_eq_true'] at hsmall

theorem toLower_eq_self (h : IsSmall w) (hc : c ∈ w) : c.toLower = c := by
  apply Char.toLower_eq_of_not_isUpper
  simp [h.isUpper_eq_false hc]

theorem ne_underscore (h : IsSmall w) (hc : c ∈ w) : c ≠ '_' := by
  rintro rfl
  exact absurd (h _ hc) (by decide)

theorem capitalize_cons (h : IsSmall (c :: w)) : Text.capitalize (c :: w) = c.toUpper :: w := by
  rw [Text.capitalize, Case.upperChar_of_isAlphanum (h.isAlphanum List.mem_cons_self),
    List.singleton_append]

theorem underscore_not_mem_capitalize (h : IsSmall w) : '_' ∉ w.capitalize := by
  cases w with
  | nil => exact List.not_mem_nil
  | cons c w =>
    have hc := h.toLower_eq_self List.mem_cons_self
    rw [h.capitalize_cons, List.mem_cons, not_or]
    refine ⟨fun he => ?_, fun hm => h.ne_underscore (List.mem_cons_of_mem c hm) rfl⟩
    rw [← Char.toLower_toUpper_eq_toLower, ← he] at hc
    exact h.ne_underscore List.mem_cons_self hc.symm

/-- A capitalized word becomes small again, with an underscore before it if it begins with a letter
and what comes before allows for one. -/
theorem snakeAfter_capitalize (h : IsSmall w) (previous : Option Char) :
    snakeAfter previous w.capitalize =
      (if w.head?.any Char.isAlpha && allowsUnderscore previous then ['_'] else []) ++ w := by
  cases w with
  | nil => rfl
  | cons c w =>
    rw [h.capitalize_cons, snakeAfter_cons, Char.isUpper_toUpper_eq_isAlpha,
      Char.toLower_toUpper_eq_toLower, h.toLower_eq_self List.mem_cons_self,
      snakeAfter_eq_self fun d hd => h.isUpper_eq_false (List.mem_cons_of_mem c hd)]
    rfl

theorem allowsUnderscore_capitalize (h : IsSmall w) :
    allowsUnderscore w.capitalize.getLast? = true ↔ w ≠ [] ∧ ∀ c, c.isAlpha = true → w ≠ [c] := by
  match w with
  | [] => simp [Text.capitalize, allowsUnderscore]
  | [c] =>
    have hallows : allowsUnderscore [c.toUpper].getLast? = !c.isAlpha := by
      have hc := isAlphanum_toUpper (h.isAlphanum List.mem_cons_self)
      rw [← Char.isUpper_toUpper_eq_isAlpha]
      exact isLower_or_isDigit hc
    rw [h.capitalize_cons, hallows]
    constructor
    · intro hc
      refine ⟨by simp, ?_⟩
      rintro d hd ⟨⟩
      simp [hd] at hc
    · rintro ⟨-, hc⟩
      simpa using fun ha => hc c ha rfl
  | c :: d :: w =>
    have hallows : allowsUnderscore (d :: w).getLast? = true := by
      have hne := List.cons_ne_nil d w
      rw [List.getLast?_eq_some_getLast hne]
      exact Bool.or_eq_true_iff.mpr (h _ (List.mem_cons_of_mem c (List.getLast_mem hne)))
    rw [h.capitalize_cons, List.getLast?_cons_cons, hallows]
    simp

theorem forall_not_mem_dropLast_iff (h : IsSmall w) (ws : List Text) :
    (ws ≠ [] → allowsUnderscore w.capitalize.getLast? = true) ∧
        (∀ c, c.isAlpha = true → [c] ∉ ws.dropLast) ↔
      (ws ≠ [] → w ≠ []) ∧ ∀ c, c.isAlpha = true → [c] ∉ (w :: ws).dropLast := by
  cases ws with
  | nil => simp
  | cons v ws =>
    have hmem (c : Char) : [c] ∉ (w :: v :: ws).dropLast ↔ w ≠ [c] ∧ [c] ∉ (v :: ws).dropLast := by
      rw [List.dropLast_cons_cons, List.mem_cons, not_or, ne_comm]
    simp only [hmem, h.allowsUnderscore_capitalize, ne_eq, reduceCtorEq, not_false_eq_true,
      forall_const, forall_and]
    tauto

end IsSmall

/-- The capitals of some words are parted by underscores again exactly if what comes before allows
for the first one, each word begins with a letter and none but the last is a single letter. -/
theorem snakeAfter_flatMap_capitalize_eq_iff (h : ∀ w ∈ ws, IsSmall w) (previous : Option Char) :
    snakeAfter previous (ws.flatMap Text.capitalize) = ws.flatMap ('_' :: ·) ↔
      (ws ≠ [] → allowsUnderscore previous = true) ∧ (∀ w ∈ ws, w.head?.any Char.isAlpha = true) ∧
        ∀ c, c.isAlpha = true → [c] ∉ ws.dropLast := by
  induction ws generalizing previous with
  | nil => simp [snakeAfter]
  | cons w ws ih =>
    obtain ⟨hw, hws⟩ := List.forall_mem_cons.mp h
    rw [List.flatMap_cons, List.flatMap_cons, snakeAfter_append, hw.snakeAfter_capitalize]
    cases w with
    | nil =>
      -- an empty word: a second underscore would have to follow, or nothing
      refine iff_of_false (fun he => ?_) (fun hr => ?_)
      · have hnot : '_' ∉ ws.flatMap Text.capitalize := by
          simpa using fun w hm => (hws w hm).underscore_not_mem_capitalize
        obtain ⟨d, rest, hd, hrest⟩ := exists_of_snakeAfter_eq hnot he
        cases ws with
        | nil => cases hrest
        | cons v ws => exact hd (List.cons.inj hrest).1.symm
      · exact absurd (hr.2.1 [] List.mem_cons_self) (by simp)
    | cons c w =>
      have hlast : (Text.capitalize (c :: w)).getLast?.or previous =
          (Text.capitalize (c :: w)).getLast? := by
        rw [hw.capitalize_cons, List.getLast?_cons, Option.some_or]
      by_cases hparted : (c.isAlpha && allowsUnderscore previous) = true
      · rw [List.head?_cons, Option.any_some, if_pos hparted, hlast, List.singleton_append,
          List.append_right_inj, ih hws, and_left_comm, hw.forall_not_mem_dropLast_iff]
        simp only [Bool.and_eq_true] at hparted
        simp [hparted]
      · rw [List.head?_cons, Option.any_some, if_neg hparted]
        refine iff_of_false (fun he => ?_) (fun hr => hparted ?_)
        · exact hw.ne_underscore List.mem_cons_self (List.cons.inj he).1
        · rw [Bool.and_eq_true]
          exact ⟨hr.2.1 _ List.mem_cons_self, hr.1 (List.cons_ne_nil _ _)⟩

theorem splitOn_underscore (s : Text) :
    ∃ (w : Text) (ws : List Text), s.splitOn '_' = w :: ws ∧ s = w ++ ws.flatMap ('_' :: ·) := by
  obtain ⟨w, ws, hs⟩ := List.exists_cons_of_ne_nil (List.splitOn_ne_nil '_' s)
  refine ⟨w, ws, hs, ?_⟩
  rw [← intercalate_cons_eq, ← hs, List.intercalate_splitOn]

/-- A name of small letters, digits and underscores is the same file name again exactly if it has
no underscore, or if all its words have characters, all but the first begin with a letter and none
but the last is a single letter. -/
theorem snakeCase_classify_eq_self_iff (s : Text)
    (hs : ∀ c ∈ s, (c.isLower || c.isDigit || c == '_') = true) :
    snakeCase (classify s) = s ↔
      '_' ∉ s ∨
        (∀ w ∈ s.splitOn '_', w ≠ []) ∧
        (∀ w ∈ (s.splitOn '_').tail, w.head?.any Char.isAlpha = true) ∧
        ∀ c, c.isAlpha = true → [c] ∉ (s.splitOn '_').dropLast := by
  have hsmall : ∀ w ∈ s.splitOn '_', IsSmall w := by
    intro w hw c hc
    obtain ⟨hsub, hnot⟩ := Text.mem_splitOn hw
    have hne : (c == '_') = false := beq_false_of_ne fun he => hnot (he ▸ hc)
    simpa [hne] using hs c (hsub hc)
  obtain ⟨w, ws, hsplit, hjoin⟩ := splitOn_underscore s
  rw [hsplit] at hsmall ⊢
  obtain ⟨hw, hws⟩ := List.forall_mem_cons.mp hsmall
  have hback : snakeCase (classify s) =
      w ++ snakeAfter w.capitalize.getLast? (ws.flatMap Text.capitalize) := by
    rw [snakeCase, classify, hsplit, List.flatMap_cons, snakeAfter_append, hw.snakeAfter_capitalize]
    simp [allowsUnderscore]
  have hnone : '_' ∉ s ↔ ws = [] := by
    rw [hjoin]
    cases ws with
    | nil => simpa using fun hm => hw.ne_underscore hm rfl
    | cons v ws => simp
  have hfull (hhead : ∀ v ∈ ws, v.head?.any Char.isAlpha = true) : ∀ v ∈ ws, v ≠ [] := by
    rintro v hv rfl
    cases hhead _ hv
  rw [hnone, hback, hjoin, List.append_right_inj, snakeAfter_flatMap_capitalize_eq_iff hws,
    and_left_comm, hw.forall_not_mem_dropLast_iff, List.forall_mem_cons, List.tail_cons]
  cases ws with
  | nil => simp
  | cons v ws =>
    simp only [ne_eq, reduceCtorEq, not_false_eq_true, forall_const, false_or]
    tauto

theorem snakeCase_classify_eq_self_iff_plan :
    (∀ c ∈ "1_api2_client".toList ++ "plan_b_client".toList,
      (c.isLower || c.isDigit || c == '_') = true) ∧
    snakeCase (classify "1_api2_client".toList) = "1_api2_client".toList ∧
    snakeCase (classify "plan_b_client".toList) ≠ "plan_b_client".toList := by
  have hclient : "1_api2_client".toList.splitOn '_' =
      ["1".toList, "api2".toList, "client".toList] := by decide +kernel
  have hplan : "plan_b_client".toList.splitOn '_' =
      ["plan".toList, "b".toList, "client".toList] := by decide +kernel
  have h : ∀ c ∈ "1_api2_client".toList ++ "plan_b_client".toList,
      (c.isLower || c.isDigit || c == '_') = true := List.all_eq_true.mp (by decide)
  have hall := List.forall_mem_append.mp h
  refine ⟨h, (snakeCase_classify_eq_self_iff _ hall.1).mpr (.inr ?_), fun he => ?_⟩
  · rw [hclient]
    refine ⟨by decide, by decide, fun c hc hm => ?_⟩
    obtain rfl : c = '1' := by simpa using hm
    cases hc
  · rcases (snakeCase_classify_eq_self_iff _ hall.2).mp he with hnot | ⟨-, -, hletters⟩
    · exact hnot (by decide)
    · rw [hplan] at hletters
      exact hletters 'b' (by decide) (by decide)

end RailsLookup.Inflection
