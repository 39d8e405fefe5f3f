import Mathlib
import RailsLookup.Text.Basic

/-! # Pieces of a text

A text is cut at each place of a character or at the last one, and pieces are put together with
the character between them. A character that a text does not have cuts nothing, and an ending that
it does not have is not taken off.
-/

namespace RailsLookup

theorem intercalate_cons_eq {α : Type} (x : α) (l : List α) (ls : List (List α)) :
    [x].intercalate (l :: ls) = l ++ ls.flatMap (x :: ·) := by
  induction ls generalizing l with
  | nil => simp
  | cons l' ls ih => simp [List.intercalate_cons_cons, ih]

theorem flatMap_cons_eq {α : Type} (x : α) {ls : List (List α)} (h : ls ≠ []) :
    ls.flatMap (x :: ·) = x :: [x].intercalate ls := by
  obtain ⟨l, ls, rfl⟩ := List.exists_cons_of_ne_nil h
  rw [intercalate_cons_eq, List.flatMap_cons, List.cons_append]

namespace Text

variable {a b c : Char} {s t p mark front back ending : Text}

theorem splitOn_cons_self (a : Char) (t : Text) : (a :: t).splitOn a = [] :: t.splitOn a := by
  rw [List.splitOn_cons_eq_if_modifyHead, if_pos (beq_self_eq_true a)]

theorem splitOn_cons_of_ne (hc : c ≠ a) (t : Text) :
    ∃ w ws, t.splitOn a = w :: ws ∧ (c :: t).splitOn a = (c :: w) :: ws := by
  obtain ⟨w, ws, ht⟩ := List.exists_cons_of_ne_nil (List.splitOn_ne_nil a t)
  refine ⟨w, ws, ht, ?_⟩
  rw [List.splitOn_cons_eq_if_modifyHead, if_neg (by simpa using hc), ht]
  rfl

theorem mem_splitOn (h : p ∈ t.splitOn a) : p ⊆ t ∧ a ∉ p := by
  induction t generalizing p with
  | nil =>
    obtain rfl : p = [] := by simpa using h
    exact ⟨List.Subset.refl _, List.not_mem_nil⟩
  | cons c t ih =>
    by_cases hc : c = a
    · subst hc
      rw [splitOn_cons_self] at h
      rcases List.mem_cons.mp h with rfl | h
      · exact ⟨List.nil_subset _, List.not_mem_nil⟩
      · exact ⟨List.subset_cons_of_subset c (ih h).1, (ih h).2⟩
    · obtain ⟨w, ws, ht, hct⟩ := splitOn_cons_of_ne hc t
      rw [hct] at h
      rw [ht] at ih
      rcases List.mem_cons.mp h with rfl | h
      · obtain ⟨hsub, hnot⟩ := ih List.mem_cons_self
        exact ⟨List.cons_subset_cons c hsub, List.not_mem_cons_of_ne_of_not_mem (Ne.symm hc) hnot⟩
      · obtain ⟨hsub, hnot⟩ := ih (List.mem_cons_of_mem w h)
        exact ⟨List.subset_cons_of_subset c hsub, hnot⟩

theorem mem_intercalate {ts : List Text} (h : c ∈ s.intercalate ts) :
    c ∈ s ∨ ∃ t ∈ ts, c ∈ t := by
  induction ts with
  | nil => cases h
  | cons t ts ih =>
    cases ts with
    | nil => exact .inr ⟨t, List.mem_cons_self, by simpa using h⟩
    | cons t' ts =>
      rw [List.intercalate_cons_cons, List.mem_append, List.mem_append] at h
      rcases h with (h | h) | h
      · exact .inr ⟨t, List.mem_cons_self, h⟩
      · exact .inl h
      · rcases ih h with h | ⟨u, hu, hc⟩
        · exact .inl h
        · exact .inr ⟨u, List.mem_cons_of_mem _ hu, hc⟩

theorem cutLast_eq_some (h : cutLast mark t = some (front, back)) : t = front ++ mark ++ back := by
  induction t generalizing front with
  | nil => cases h
  | cons c t ih =>
    rw [cutLast] at h
    split at h
    · next front' back' hr =>
      obtain ⟨rfl, rfl⟩ := Prod.mk.inj (Option.some.inj h)
      rw [ih hr]
      rfl
    · split at h
      · next hp =>
        obtain ⟨rfl, rfl⟩ := Prod.mk.inj (Option.some.inj h)
        exact (List.prefix_iff_eq_append.mp (List.isPrefixOf_iff_prefix.mp hp)).symm
      · cases h

theorem cutLast_eq_none (h : a ∉ t) : cutLast [a] t = none := by
  induction t with
  | nil => rfl
  | cons c t ih =>
    rw [List.mem_cons, not_or] at h
    simp [cutLast, ih h.2, h.1]

theorem cutLast_append (h : a ∉ t) (s : Text) : cutLast [a] (s ++ a :: t) = some (s, t) := by
  induction s with
  | nil => simp [cutLast, cutLast_eq_none h]
  | cons c s ih => rw [List.cons_append, cutLast, ih]

theorem bne_of_not_mem (h : c ∉ s) : ∀ x ∈ s, (x != c) = true :=
  fun _ hx => bne_iff_ne.mpr fun he => h (he ▸ hx)

theorem takeWhile_ne_append (h : c ∉ s) (t : Text) : (s ++ c :: t).takeWhile (· != c) = s := by
  rw [List.takeWhile_append_of_pos (bne_of_not_mem h), List.takeWhile_cons_of_neg (by simp),
    List.append_nil]

theorem dropWhile_ne_append (h : c ∉ s) (t : Text) :
    (s ++ c :: t).dropWhile (· != c) = c :: t := by
  rw [List.dropWhile_append_of_pos (bne_of_not_mem h), List.dropWhile_cons_of_neg (by simp)]

theorem replaceChar_eq_self (h : a ∉ t) : replaceChar a b t = t := by
  have hid : replaceChar a b t = t.map id := by
    refine List.map_congr_left fun c hc => if_neg ?_
    rintro rfl
    exact h hc
  rw [hid, List.map_id]

theorem not_mem_replaceChar (h : b ≠ a) (t : Text) : a ∉ replaceChar a b t := by
  intro hm
  obtain ⟨c, _, hc⟩ := List.mem_map.mp hm
  split at hc
  · exact h hc
  · next hne => exact hne hc

theorem stripSuffix_append (t ending : Text) : (t ++ ending).stripSuffix ending = t := by
  simp [stripSuffix, List.isSuffixOf_iff_suffix]

theorem stripSuffix_eq_self (h : ¬ending <:+ t) : t.stripSuffix ending = t := by
  rw [stripSuffix, if_neg]
  rwa [List.isSuffixOf_iff_suffix]

theorem stripSuffix_subset (t ending : Text) : t.stripSuffix ending ⊆ t := by
  rw [stripSuffix]
  split
  · exact List.take_subset _ _
  · exact List.Subset.refl t

end Text

end RailsLookup
