import Mathlib
import RailsLookup.Proofs.Declaration.Grammar
import RailsLookup.Proofs.Reference.Chain

/-! # Declarations in one line

A declaration with its namespace is meant to stand in one line, with `::` or white space between
the namespace and the name. What is searched for is more than that: line ends are white space too,
and between the two there may be nothing, or the mark and white space. The parts of what is found
can be read in one way only, and they tell whether it is meant.
-/

namespace RailsLookup

theorem Ranges.exists_of_contains {ranges : List (Nat × Nat)} {n : Nat}
    (h : contains ranges n = true) : ∃ range ∈ ranges, range.1 ≤ n ∧ n ≤ range.2 := by
  induction ranges with
  | nil => cases h
  | cons range ranges ih =>
    rw [contains] at h
    split at h
    · cases h
    · next hlo =>
      rw [Bool.or_eq_true, decide_eq_true_eq] at h
      rcases h with hhi | h
      · exact ⟨range, List.mem_cons_self, Nat.le_of_not_lt hlo, hhi⟩
      · obtain ⟨range', hm, hn⟩ := ih h
        exact ⟨range', List.mem_cons_of_mem _ hm, hn⟩

theorem isBlank_eq_false_of_isWord {c : Char} (h : isWord c = true) : isBlank c = false := by
  have hall : ∀ range ∈ Ranges.whiteSpace, ∀ k < range.2 + 1 - range.1,
      isWord (Char.ofNat (range.1 + k)) = false := by decide +kernel
  rw [← Bool.not_eq_true]
  intro hb
  obtain ⟨range, hm, hlo, hhi⟩ := Ranges.exists_of_contains hb
  have hc := hall range hm (c.toNat - range.1) (by omega)
  rw [Nat.add_sub_cancel' hlo, Char.ofNat_toNat, h] at hc
  cases hc

namespace Declaration

open Namespace Pattern

variable {content scope leaf key key' gap parting rest t t' : Text} {names : List Text}
  {pos : Position}

def isParting (c : Char) : Bool := isBlank c || c == ':'

theorem isParting_eq_false_of_isWord {c : Char} (h : isWord c = true) : isParting c = false := by
  have hcolon : c ≠ ':' := by
    rintro rfl
    exact absurd h (by decide)
  simp [isParting, isBlank_eq_false_of_isWord h, hcolon]

theorem head?_append_any_eq_false {p : Char → Bool} (h : t.head?.any isWord = true)
    (hp : ∀ c, isWord c = true → p c = false) (t' : Text) : (t ++ t').head?.any p = false := by
  obtain ⟨c, hc, hw⟩ := (Option.any_eq_true _ _).mp h
  rw [List.head?_append, hc, Option.some_or, Option.any_some, hp c hw]

/-- The text begins with a declaration as it is meant: a keyword, white space, the namespace, `::`
or white space, and the name as a whole word. -/
def OpensAsMeant (scope leaf t : Text) : Prop :=
  ∃ key gap parting rest : Text, t = key ++ (gap ++ (scope ++ (parting ++ (leaf ++ rest)))) ∧
    key ∈ keywords ∧ gap ≠ [] ∧ (∀ c ∈ gap, isBlank c = true) ∧
    (parting = mark ∨ parting ≠ [] ∧ ∀ c ∈ parting, isBlank c = true) ∧
    rest.head?.any isWord = false

/-- The parts that a declaration of a name with its namespace is read as. -/
structure Parts (content scope leaf : Text) where
  front : Text
  key : Text
  gap : Text
  mark : Text
  blanks : Text
  rest : Text
  content_eq : content = front ++ (key ++ (gap ++ (scope ++ (mark ++ blanks ++ (leaf ++ rest)))))
  isWord_before : front.getLast?.any isWord = false
  key_mem : key ∈ keywords
  gap_ne_nil : gap ≠ []
  isBlank_gap : ∀ c ∈ gap, isBlank c = true
  mark_cases : mark = [] ∨ mark = Namespace.mark
  isBlank_blanks : ∀ c ∈ blanks, isBlank c = true
  isWord_after : rest.head?.any isWord = false

theorem exists_parts (hl : leaf.getLast?.any isWord = true)
    (h : positionOf? (qualified scope leaf) content = some pos) :
    ∃ parts : Parts content scope leaf, pos = .after parts.front := by
  have hne : leaf ≠ [] := by
    rintro rfl
    cases hl
  rcases positionOf?_cases (qualified scope leaf) content with ⟨-, hnone⟩ | ⟨o, pos', ho, hat, hpos⟩
  · rw [hnone] at h
    cases h
  · rw [offsets_qualified hne] at ho
    obtain rfl : pos' = pos := Option.some.inj (hpos.symm.trans h)
    obtain ⟨front, key, gap, _, rest, rfl, rfl, hbefore, hk, hg, hgap,
      ⟨mark, blanks, hmark, hblanks, rfl⟩, hend⟩ := ho.1
    rw [Text.positionAt?_byteSize] at hat
    obtain ⟨c, hc, hcw⟩ := (Option.any_eq_true _ _).mp hl
    have hafter : rest.head?.any isWord = false := by
      simpa [List.getLast?_append, hc, hcw] using hend
    exact ⟨⟨front, key, gap, mark, blanks, rest, by simp only [List.append_assoc], hbefore, hk, hg,
      hgap, hmark, hblanks, hafter⟩, (Option.some.inj hat).symm⟩

theorem eq_of_keyword_append (hk : key ∈ keywords) (hk' : key' ∈ keywords)
    (h : key ++ t = key' ++ t') : key = key' ∧ t = t' := by
  simp only [keywords, List.mem_cons, List.not_mem_nil, or_false] at hk hk'
  rcases hk with rfl | rfl <;> rcases hk' with rfl | rfl <;> simp_all

namespace Parts

def text (parts : Parts content scope leaf) : Text :=
  parts.key ++ (parts.gap ++ (scope ++ (parts.mark ++ parts.blanks ++ (leaf ++ parts.rest))))

theorem head?_text (parts : Parts content scope leaf) :
    ∃ c t, parts.text = c :: t ∧ c ≠ '\n' ∧ c ≠ '\r' := by
  have hk := parts.key_mem
  simp only [keywords, List.mem_cons, List.not_mem_nil, or_false] at hk
  rcases hk with hk | hk
  · exact ⟨'m', _, by rw [text, hk]; rfl, by decide, by decide⟩
  · exact ⟨'c', _, by rw [text, hk]; rfl, by decide, by decide⟩

theorem lineFrom?_after (parts : Parts content scope leaf) :
    content.lineFrom? (.after parts.front) = some (parts.text.lines.headD []) := by
  obtain ⟨c, t, ht, hn, hr⟩ := parts.head?_text
  have hline := Text.lineFrom?_after hn hr parts.front t
  rwa [← ht, text, ← parts.content_eq] at hline

theorem isParting_mark_append_blanks (parts : Parts content scope leaf) :
    ∀ c ∈ parts.mark ++ parts.blanks, isParting c = true := by
  intro c hc
  rcases List.mem_append.mp hc with hc | hc
  · rcases parts.mark_cases with hm | hm
    · simp [hm] at hc
    · have hcolon : c = ':' := by simpa [hm, Namespace.mark] using hc
      simp [isParting, hcolon]
  · simp [isParting, parts.isBlank_blanks c hc]

/-- The gap and what parts the name from the namespace are runs of characters that neither of the
two begins with, so they can be read in one way only. -/
theorem unique (parts : Parts content scope leaf) (hs : scope.head?.any isWord = true)
    (hl : leaf.head?.any isWord = true) (hk : key ∈ keywords)
    (hg : ∀ c ∈ gap, isBlank c = true) (hp : ∀ c ∈ parting, isParting c = true)
    (h : parts.text = key ++ (gap ++ (scope ++ (parting ++ (leaf ++ rest))))) :
    parts.gap = gap ∧ parts.mark ++ parts.blanks = parting := by
  have hscope (t : Text) : (scope ++ t).head?.any isBlank = false :=
    head?_append_any_eq_false hs (fun _ => isBlank_eq_false_of_isWord) t
  have hleaf (t : Text) : (leaf ++ t).head?.any isParting = false :=
    head?_append_any_eq_false hl (fun _ => isParting_eq_false_of_isWord) t
  obtain ⟨-, h⟩ := eq_of_keyword_append parts.key_mem hk h
  obtain ⟨hgap, h⟩ := Text.eq_of_run_append parts.isBlank_gap hg (hscope _) (hscope _) h
  have h := List.append_cancel_left h
  exact ⟨hgap, (Text.eq_of_run_append parts.isParting_mark_append_blanks hp (hleaf _) (hleaf _)
    h).1⟩

theorem parted_iff (parts : Parts content scope leaf) :
    (parts.mark ++ parts.blanks = Namespace.mark ∨ parts.mark ++ parts.blanks ≠ [] ∧
      ∀ c ∈ parts.mark ++ parts.blanks, isBlank c = true) ↔
        (parts.mark = [] ↔ parts.blanks ≠ []) := by
  have hblanks := parts.isBlank_blanks
  rcases parts.mark_cases with hm | hm
  · have hne : parts.blanks ≠ Namespace.mark := by
      intro h
      rw [h] at hblanks
      exact absurd (hblanks ':' (by decide)) (by decide)
    simp only [hm, hne, List.nil_append, false_or, true_iff]
    exact and_iff_left hblanks
  · have hmark : Namespace.mark ≠ [] := by decide
    have hnot : ¬∀ c ∈ Namespace.mark ++ parts.blanks, isBlank c = true := fun h =>
      absurd (h ':' (by simp [Namespace.mark])) (by decide)
    simp only [hm, hmark, hnot, List.append_right_eq_self, and_false, or_false, false_iff, not_not]

theorem headD_lines_text (parts : Parts content scope leaf) (hn : '\n' ∉ scope) (hne : leaf ≠ [])
    (hw : ∀ c ∈ leaf, isWord c = true) (hbreak : '\n' ∉ parts.gap ++ parts.blanks) :
    parts.text.lines.headD [] = parts.key ++ (parts.gap ++ (scope ++
      (parts.mark ++ parts.blanks ++ (leaf ++ parts.rest.lines.headD [])))) := by
  let declared := parts.key ++ (parts.gap ++ (scope ++ (parts.mark ++ parts.blanks ++ leaf)))
  have hline : '\n' ∉ declared := by
    have hkey : '\n' ∉ parts.key := fun h => by
      have hall : ∀ key ∈ keywords, '\n' ∉ key := by decide
      exact hall _ parts.key_mem h
    have hmark : '\n' ∉ parts.mark := by
      rcases parts.mark_cases with hm | hm <;> rw [hm] <;> decide
    have hleaf : '\n' ∉ leaf := fun h => absurd (hw _ h) (by decide)
    simp only [declared, List.mem_append] at hbreak ⊢
    tauto
  have hlast : declared.getLast? ≠ some '\r' := by
    have hmem : declared.getLast? = some (leaf.getLast hne) := by
      simp [declared, List.getLast?_append, List.getLast?_eq_some_getLast hne]
    rw [hmem, ne_eq, Option.some.injEq]
    intro h
    exact absurd (hw _ (h ▸ List.getLast_mem hne)) (by decide)
  have htext : parts.text = declared ++ parts.rest := by
    simp only [text, declared, List.append_assoc]
  rw [htext, Text.headD_lines_append hline hlast]
  simp only [declared, List.append_assoc]

/-- What is found is what is meant just if its white space holds no line end and either the mark
or white space stands before the name, but not both. -/
theorem opensAsMeant_iff (parts : Parts content scope leaf) (hs : scope.head?.any isWord = true)
    (hn : '\n' ∉ scope) (hne : leaf ≠ []) (hw : ∀ c ∈ leaf, isWord c = true) :
    OpensAsMeant scope leaf (parts.text.lines.headD []) ↔
      '\n' ∉ parts.gap ++ parts.blanks ∧ (parts.mark = [] ↔ parts.blanks ≠ []) := by
  rw [← parts.parted_iff]
  obtain ⟨⟨more, hmore⟩, hline⟩ := Text.headD_lines_prefix parts.text
  constructor
  · rintro ⟨key, gap, parting, rest, ht, hk, -, hg, hparted, -⟩
    have hp : ∀ c ∈ parting, isParting c = true := by
      intro c hc
      rcases hparted with rfl | ⟨-, hb⟩
      · have hcolon : c = ':' := by simpa [Namespace.mark] using hc
        simp [isParting, hcolon]
      · simp [isParting, hb c hc]
    have hl : leaf.head?.any isWord = true := by
      obtain ⟨c, leaf, rfl⟩ := List.exists_cons_of_ne_nil hne
      exact hw c List.mem_cons_self
    rw [ht] at hmore hline
    have htext : parts.text =
        key ++ (gap ++ (scope ++ (parting ++ (leaf ++ (rest ++ more))))) := by
      rw [← hmore]
      simp only [List.append_assoc]
    obtain ⟨hgap, hparts⟩ := parts.unique hs hl hk hg hp htext
    rw [hparts]
    refine ⟨fun hm => hline ?_, hparted⟩
    rw [← hgap, ← hparts]
    simp only [List.mem_append] at hm ⊢
    tauto
  · rintro ⟨hbreak, hparted⟩
    obtain ⟨more, hmore⟩ := (Text.headD_lines_prefix parts.rest).1
    have hafter : (parts.rest.lines.headD []).head?.any isWord = false := by
      have hrest := parts.isWord_after
      rw [← hmore, List.head?_append] at hrest
      cases hh : (parts.rest.lines.headD []).head? with
      | none => rfl
      | some c => rwa [hh, Option.some_or] at hrest
    exact ⟨parts.key, parts.gap, _, _, parts.headD_lines_text hn hne hw hbreak, parts.key_mem,
      parts.gap_ne_nil, parts.isBlank_gap, hparted, hafter⟩

end Parts

theorem trimColons_join (h : IsChain names) : trimColons (join names) = join names := by
  obtain ⟨before, after, ht, hcolons, -, -⟩ := trimColons_eq (join names)
  have hword : isWord ':' = false := by decide
  have hbefore : before = [] := by
    cases before with
    | nil => rfl
    | cons c before =>
      have hhead := h.head_join []
      rw [ht, hcolons c (by simp)] at hhead
      simp [hword] at hhead
  have hafter : after = [] := by
    cases after using List.reverseRecOn with
    | nil => rfl
    | append_singleton after c =>
      obtain ⟨front, d, hlast, hd⟩ := h.exists_last
      rw [ht, ← List.append_assoc] at hlast
      obtain rfl : c = d := List.singleton_inj.mp (List.append_inj_right' hlast rfl)
      rw [hcolons c (by simp), hword] at hd
      cases hd
  rw [hbefore, hafter, List.nil_append, List.append_nil] at ht
  exact ht.symm

/-- Where the search for a name with its namespace succeeds, its answer is where a keyword, white
space, the namespace and the name stand in this order, possibly with `::` and white space before
the name. The line of the answer goes on as it is meant exactly if no line end is in the white
space and either `::` or white space, but not both, stands before the name. -/
theorem qualified_in_one_line_iff (content leaf : Text) (names : List Text) (pos : Position)
    (hn : IsChain names) (hne : leaf ≠ []) (hw : ∀ c ∈ leaf, isWord c = true)
    (h : positionOf? (qualified (join names) leaf) content = some pos) :
    find? content leaf (join names) = some pos ∧
    ∃ (parts : Parts content (join names) leaf) (line : Text),
      pos = .after parts.front ∧ content.lineFrom? pos = some line ∧
      (OpensAsMeant (join names) leaf line ↔
        '\n' ∉ parts.gap ++ parts.blanks ∧ (parts.mark = [] ↔ parts.blanks ≠ [])) := by
  have hlast : leaf.getLast?.any isWord = true := by
    rw [List.getLast?_eq_some_getLast hne]
    exact hw _ (List.getLast_mem hne)
  have hhead : (join names).head?.any isWord = true := by
    simpa using hn.head_join []
  have hline : '\n' ∉ join names := by
    intro hm
    rcases hn.mem_join hm with hc | hc
    · exact absurd hc (by decide)
    · exact absurd hc (by decide)
  have hscope : join names ≠ [] := by
    intro hnil
    simp [hnil] at hhead
  obtain ⟨parts, rfl⟩ := exists_parts hlast h
  refine ⟨?_, parts, _, rfl, parts.lineFrom?_after, parts.opensAsMeant_iff hhead hline hne hw⟩
  rw [find?_of_scope hne ((trimColons_join hn).symm ▸ hscope), trimColons_join hn, h,
    Option.some_or]

theorem qualified_in_one_line_iff_report :
    let content : Text := "# class Report\n  module Sales::Admin \t Report\n  end\n".toList
    let names := ["Sales".toList, "Admin".toList]
    positionOf? (qualified (join names) "Report".toList) content = some ⟨1, 2⟩ ∧
    find? content "Report".toList (join names) = some ⟨1, 2⟩ ∧
    ∃ (parts : Parts content (join names) "Report".toList) (line : Text),
      ⟨1, 2⟩ = Position.after parts.front ∧ content.lineFrom? ⟨1, 2⟩ = some line ∧
      (OpensAsMeant (join names) "Report".toList line ↔
        '\n' ∉ parts.gap ++ parts.blanks ∧ (parts.mark = [] ↔ parts.blanks ≠ [])) := by
  have h : positionOf? (qualified (join ["Sales".toList, "Admin".toList]) "Report".toList)
      "# class Report\n  module Sales::Admin \t Report\n  end\n".toList = some ⟨1, 2⟩ := by cbv
  have hword : ∀ n ∈ ["Sales".toList, "Admin".toList, "Report".toList],
      n ≠ [] ∧ n.all isWord = true := by decide +kernel
  have hn : IsChain ["Sales".toList, "Admin".toList] := by
    refine ⟨by simp, fun n hm => ?_⟩
    obtain ⟨hne, hall⟩ := hword n (List.mem_append_left ["Report".toList] hm)
    exact ⟨hne, List.all_eq_true.mp hall⟩
  obtain ⟨hne, hall⟩ := hword "Report".toList (by simp)
  exact ⟨h, qualified_in_one_line_iff _ _ _ _ hn hne (List.all_eq_true.mp hall) h⟩

def together : Text := "class AdminReports\nend\nclass Admin::Reports\nend\n".toList

def broken : Text := "class Admin\n  Reports.load\nend\nclass Admin::Reports\nend\n".toList

def togetherParts : Parts together "Admin".toList "Reports".toList where
  front := []
  key := "class".toList
  gap := [' ']
  mark := []
  blanks := []
  rest := "\nend\nclass Admin::Reports\nend\n".toList
  content_eq := by decide
  isWord_before := rfl
  key_mem := by decide
  gap_ne_nil := by simp
  isBlank_gap := List.all_eq_true.mp (by decide)
  mark_cases := .inl rfl
  isBlank_blanks := by simp
  isWord_after := by decide

def brokenParts : Parts broken "Admin".toList "Reports".toList where
  front := []
  key := "class".toList
  gap := [' ']
  mark := []
  blanks := "\n  ".toList
  rest := ".load\nend\nclass Admin::Reports\nend\n".toList
  content_eq := by decide
  isWord_before := rfl
  key_mem := by decide
  gap_ne_nil := by simp
  isBlank_gap := List.all_eq_true.mp (by decide)
  mark_cases := .inl rfl
  isBlank_blanks := List.all_eq_true.mp (by decide)
  isWord_after := by decide

/-- Neither the longer constant nor the reference is a declaration as it is meant, and yet they
are found. -/
theorem qualified_found_not_as_meant :
    (positionOf? (qualified "Admin".toList "Reports".toList) together = some ⟨0, 0⟩ ∧
      find? together "Reports".toList "Admin".toList = some ⟨0, 0⟩ ∧
      ∃ line, Text.lineFrom? together ⟨0, 0⟩ = some line ∧
        ¬OpensAsMeant "Admin".toList "Reports".toList line) ∧
    (positionOf? (qualified "Admin".toList "Reports".toList) broken = some ⟨0, 0⟩ ∧
      find? broken "Reports".toList "Admin".toList = some ⟨0, 0⟩ ∧
      ∃ line, Text.lineFrom? broken ⟨0, 0⟩ = some line ∧
        ¬OpensAsMeant "Admin".toList "Reports".toList line) := by
  have hleaf : ∀ c ∈ "Reports".toList, isWord c = true := List.all_eq_true.mp (by decide +kernel)
  refine ⟨⟨by decide +kernel, by decide +kernel, _, togetherParts.lineFrom?_after, ?_⟩,
    ⟨by decide +kernel, by decide +kernel, _, brokenParts.lineFrom?_after, ?_⟩⟩
  · rw [togetherParts.opensAsMeant_iff (by decide) (by decide) (by decide) hleaf]
    simp [togetherParts]
  · rw [brokenParts.opensAsMeant_iff (by decide) (by decide) (by decide) hleaf]
    simp [brokenParts]

end Declaration

end RailsLookup
