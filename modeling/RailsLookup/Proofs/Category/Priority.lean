import Mathlib
import RailsLookup.Category
import RailsLookup.Proofs.Text.Surroundings

/-! # The priority of categories

The category of a line is the first one that the line shows. No pattern of a category asks for the
end of the line, so more text on either side takes no category away unless it runs into a word.
What is put together from two lines is then of no lower priority than the one or the other.
-/

namespace RailsLookup.Category

open Pattern

variable {c : Category} {p : Pattern} {line front rest : Text}

/-- The number of categories that come before the category. A method comes after all others. -/
def rank (c : Category) : Nat := priority.idxOf c

theorem matchesLine_iff :
    c.matchesLine line = true ↔ c = method ∨ ∃ p ∈ c.patterns, p.occursIn line = true := by
  rw [matchesLine, Bool.or_eq_true, beq_iff_eq, List.any_eq_true]

theorem mem_priority_or_eq_method (c : Category) : c ∈ priority ∨ c = method := by
  cases c <;> simp [priority]

theorem mem_candidates_iff :
    c ∈ candidates line ↔ c ∈ priority ∧ c.matchesLine line = true :=
  List.mem_filter

theorem classify_cases (line : Text) :
    (∃ higher lower, priority = higher ++ classify line :: lower ∧
      (classify line).matchesLine line = true ∧ ∀ c ∈ higher, c.matchesLine line = false) ∨
    classify line = method ∧ ∀ c ∈ priority, c.matchesLine line = false := by
  have hhead : classify line = (priority.find? (·.matchesLine line)).getD method := by
    rw [classify, candidates, List.headD_eq_head?_getD, List.head?_filter]
  rw [hhead]
  cases hf : priority.find? (·.matchesLine line) with
  | none =>
    refine .inr ⟨rfl, fun c hc => ?_⟩
    simpa using List.find?_eq_none.mp hf c hc
  | some c =>
    obtain ⟨hc, higher, lower, hp, hnone⟩ := List.find?_eq_some_iff_append.mp hf
    refine .inl ⟨higher, lower, hp, hc, fun c' hc' => ?_⟩
    simpa using hnone c' hc'

theorem matchesLine_classify (line : Text) : (classify line).matchesLine line = true := by
  obtain ⟨_, _, _, hc, _⟩ | ⟨hm, _⟩ := classify_cases line
  · exact hc
  · exact matchesLine_iff.mpr (.inl hm)

theorem rank_classify_le (h : c.matchesLine line = true) : (classify line).rank ≤ c.rank := by
  obtain ⟨higher, lower, hp, hc, hnone⟩ | ⟨hm, hnone⟩ := classify_cases line
  · have hnot {c : Category} (h : c.matchesLine line = true) : c ∉ higher := by
      intro hin
      rw [hnone c hin] at h
      cases h
    have hown : (classify line).rank = higher.length := by
      rw [rank, hp, List.idxOf_append_of_notMem (hnot hc), List.idxOf_cons_self, Nat.add_zero]
    rw [hown, rank, hp, List.idxOf_append_of_notMem (hnot h)]
    exact Nat.le_add_right _ _
  · obtain hin | rfl := mem_priority_or_eq_method c
    · rw [hnone c hin] at h
      cases h
    · rw [hm]

theorem anchored_of_mem_patterns (h : p ∈ c.patterns) : p.anchored = false := by
  have hall : c.patterns.all (!·.anchored) = true := by
    cases c <;> rfl
  simpa using List.all_eq_true.mp hall p h

/-- A category that a part of the line shows is shown by the line. -/
theorem matchesLine_surrounded (hf : front.getLast?.any isWord = false)
    (hr : rest.head?.any isWord = false) (h : c.matchesLine line = true) :
    c.matchesLine (front ++ (line ++ rest)) = true := by
  rw [matchesLine_iff] at h ⊢
  apply h.imp_right
  rintro ⟨p, hp, ho⟩
  exact ⟨p, hp, occursIn_surrounded (anchored_of_mem_patterns hp) hf hr ho⟩

/-- The candidates of a line are the categories that it shows, in the order of their priority, and
its category is the first of them. Two lines on the sides of a character that is not in a word
show together what each of them shows. So their category is of no lower priority than those of the
two lines. -/
theorem classify_first_and_monotone (line a b : Text) (x : Char) (hx : isWord x = false) :
    ((candidates line).Sublist priority ∧
      (∀ c, c ∈ candidates line ↔ c ∈ priority ∧ c.matchesLine line = true) ∧
      classify line = (candidates line).headD method ∧
      (classify line).matchesLine line = true ∧
      ∀ c : Category, c.matchesLine line = true → (classify line).rank ≤ c.rank) ∧
    (∀ c : Category, c.matchesLine a = true ∨ c.matchesLine b = true →
      c.matchesLine (a ++ x :: b) = true) ∧
    (classify (a ++ x :: b)).rank ≤ (classify a).rank ∧
    (classify (a ++ x :: b)).rank ≤ (classify b).rank := by
  have hleft {c : Category} (h : c.matchesLine a = true) :
      c.matchesLine (a ++ x :: b) = true := by
    have hnil : ([] : Text).getLast?.any isWord = false := rfl
    have hhead : (x :: b).head?.any isWord = false := hx
    exact matchesLine_surrounded hnil hhead h
  have hright {c : Category} (h : c.matchesLine b = true) :
      c.matchesLine (a ++ x :: b) = true := by
    have hlast : (a ++ [x]).getLast?.any isWord = false := by simpa using hx
    have hnil : ([] : Text).head?.any isWord = false := rfl
    have hall := matchesLine_surrounded hlast hnil h
    rwa [List.append_nil, List.append_assoc] at hall
  refine ⟨⟨List.filter_sublist, fun c => mem_candidates_iff, rfl, matchesLine_classify line,
    fun c => rank_classify_le⟩, fun c h => h.elim hleft hright, ?_, ?_⟩
  · exact rank_classify_le (hleft (matchesLine_classify a))
  · exact rank_classify_le (hright (matchesLine_classify b))

theorem classify_first_and_monotone_invoice :
    let a := "InvoiceService".toList
    let b := "render :edit".toList
    isWord '.' = false ∧ classify a = service ∧ classify b = view ∧
      service.matchesLine (a ++ '.' :: b) = true ∧ view.matchesLine (a ++ '.' :: b) = true ∧
      (classify (a ++ '.' :: b)).rank ≤ service.rank := by
  have hx : isWord '.' = false := by decide
  have ha : classify "InvoiceService".toList = service := by decide +kernel
  have hb : classify "render :edit".toList = view := by decide +kernel
  obtain ⟨-, hkept, hle, -⟩ := classify_first_and_monotone [] "InvoiceService".toList
    "render :edit".toList '.' hx
  refine ⟨hx, ha, hb, hkept service (.inl ?_), hkept view (.inr ?_), ha ▸ hle⟩
  · exact ha ▸ matchesLine_classify _
  · exact hb ▸ matchesLine_classify _

end RailsLookup.Category
