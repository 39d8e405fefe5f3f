import Mathlib
import RailsLookup.Lookup.Constant
import RailsLookup.Proofs.Text.Case
import RailsLookup.Proofs.Text.LineEnds
import RailsLookup.Proofs.Text.Pieces
import RailsLookup.Reference

/-! # The characters of names

The word of a reference and its qualifiers are made of characters of its line, and so are the
parts of a qualified name. The constant that a name stands for may have other letters, but no
line end comes in with them.
-/

namespace RailsLookup

namespace Pattern

variable {a body back : Pattern} {t w : Text}

theorem infix_of_between? {spot : Spot} (h : between? a body back spot = some w) :
    w <:+: spot.rest := by
  have hm := List.mem_of_mem_head? h
  obtain ⟨first, hf, hm⟩ := List.mem_flatMap.mp hm
  obtain ⟨last, _, rfl⟩ := List.mem_map.mp hm
  exact (List.take_prefix _ _).isInfix.trans (suffix_of_mem_ends hf).isInfix

/-- What is captured is a part of the text. -/
theorem infix_of_capture? (h : capture? a body back t = some w) : w <:+: t := by
  obtain ⟨⟨n, w⟩, hs, rfl⟩ := Option.map_eq_some_iff.mp h
  obtain ⟨b, hb⟩ := Spot.exists_of_search_eq_some hs
  exact (infix_of_between? hb).trans (List.drop_suffix n t).isInfix

end Pattern

namespace Namespace

variable {t : Text}

theorem subset_of_mem_pieces {p : Text} (h : p ∈ pieces t) : p ⊆ t := by
  fun_induction pieces t generalizing p with
  | case1 =>
    obtain rfl := List.mem_singleton.mp h
    exact List.Subset.refl _
  | case2 rest ih =>
    rcases List.mem_cons.mp h with rfl | h
    · exact List.nil_subset _
    · exact List.subset_cons_of_subset _ (List.subset_cons_of_subset _ (ih h))
  | case3 c rest _ hr ih =>
    obtain rfl := List.mem_singleton.mp h
    simp
  | case4 c rest _ q qs hr ih =>
    rw [hr] at ih
    rcases List.mem_cons.mp h with rfl | h
    · exact List.cons_subset_cons c (ih List.mem_cons_self)
    · exact List.subset_cons_of_subset c (ih (List.mem_cons_of_mem _ h))

theorem subset_of_mem_segments {s : Text} (h : s ∈ segments t) : s ⊆ t :=
  subset_of_mem_pieces (List.mem_of_mem_filter h)

theorem split_subset (t : Text) : (split t).1 ⊆ t ∧ (split t).2 ⊆ t := by
  unfold split
  cases hc : Text.cutLast mark t with
  | none => exact ⟨List.nil_subset _, List.Subset.refl _⟩
  | some parts =>
    have ht : t = parts.1 ++ mark ++ parts.2 := Text.cutLast_eq_some hc
    rw [Option.getD_some, ht]
    exact ⟨fun c hm => by simp [hm], fun c hm => by simp [hm]⟩

theorem unbroken_join {names : List Text} (h : ∀ n ∈ names, n.Unbroken) :
    Text.Unbroken (join names) := by
  unfold join
  induction names with
  | nil => exact ⟨List.not_mem_nil, List.not_mem_nil⟩
  | cons n names ih =>
    rw [List.forall_mem_cons] at h
    cases names with
    | nil => simpa using h.1
    | cons m names =>
      rw [List.intercalate_cons_cons, Text.unbroken_append, Text.unbroken_append]
      exact ⟨⟨h.1, by decide⟩, ih h.2⟩

end Namespace

namespace Reference

variable {content : Text} {position : Position} {r : Reference}

theorem subset_of_mem_chain {line w s : Text} {n : Nat}
    (h : s ∈ ((chainBefore? (line.take n) <|> chainOnLine? line w).map
      Namespace.segments).getD []) : s ⊆ line := by
  cases hc : chainBefore? (line.take n) <|> chainOnLine? line w with
  | none => simp [hc] at h
  | some chain =>
    rw [hc] at h
    have hchain : chain ⊆ line := by
      rcases (Option.orElse_eq_some _ _ _).mp hc with hb | ⟨_, hl⟩
      · exact List.Subset.trans (Pattern.infix_of_capture? hb).subset (List.take_subset n line)
      · exact (Pattern.infix_of_capture? hl).subset
    exact List.Subset.trans (Namespace.subset_of_mem_segments h) hchain

/-- The line of a reference is a line of the document, and its word and its qualifiers are
made of characters of the line. -/
theorem subset_line_of_at? (h : at? content position = some r) :
    r.line ∈ content.lines ∧ r.word ⊆ r.line ∧ ∀ s ∈ r.scope, s ⊆ r.line := by
  simp only [at?, Option.bind_eq_bind, Option.bind_eq_some_iff, Option.pure_def,
    Option.some.injEq] at h
  obtain ⟨line, hl, _, _, _, _, rfl⟩ := h
  refine ⟨List.mem_of_getElem? hl, ?_, ?_⟩
  · refine List.append_subset.mpr ⟨fun c hc => ?_, fun c hc => ?_⟩
    · have hc := List.mem_reverse.mp hc
      exact List.mem_of_mem_take (List.mem_reverse.mp ((List.takeWhile_prefix _).subset hc))
    · exact List.mem_of_mem_drop ((List.takeWhile_prefix _).subset hc)
  · exact fun s hs => subset_of_mem_chain hs

theorem unbroken_of_at? (hc : '\r' ∉ content) (h : at? content position = some r) :
    r.qualifiedName.Unbroken := by
  obtain ⟨hl, hw, hs⟩ := subset_line_of_at? h
  have hline := Text.unbroken_of_mem_lines hc r.line hl
  have hword := hline.of_subset hw
  unfold qualifiedName
  split
  · exact hword
  · have hjoin := Namespace.unbroken_join fun s hm => hline.of_subset (hs s hm)
    exact Text.unbroken_append.mpr ⟨Text.unbroken_append.mpr ⟨hjoin, by decide⟩, hword⟩

end Reference

theorem Inflection.not_mem_classify {t : Text} {a : Char} (ha : 0 < a.toNat ∧ a.toNat < 0x20)
    (h : a ∉ t) : a ∉ classify t := by
  intro hm
  obtain ⟨p, hp, hm⟩ := List.mem_flatMap.mp hm
  have hp : a ∉ p := fun hmem => h ((Text.mem_splitOn hp).1 hmem)
  cases p with
  | nil => cases hm
  | cons c rest =>
    rw [List.mem_cons, not_or] at hp
    rcases List.mem_append.mp hm with hm | hm
    · exact Case.ne_of_mem_upperChar hm (Ne.symm hp.1) ha rfl
    · exact hp.2 hm

theorem ConstantKind.unbroken_constantName {leaf : Text} (kind : ConstantKind)
    (h : leaf.Unbroken) : (kind.constantName leaf).Unbroken := by
  unfold constantName
  split
  · have hstem : Text.Unbroken (Inflection.classify leaf) :=
      ⟨Inflection.not_mem_classify (by decide) h.1, Inflection.not_mem_classify (by decide) h.2⟩
    exact Text.unbroken_append.mpr ⟨hstem, by cases kind <;> decide⟩
  · exact h

end RailsLookup
