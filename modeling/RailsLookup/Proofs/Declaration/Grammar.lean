import Mathlib
import RailsLookup.Proofs.Declaration.Keywords
import RailsLookup.Proofs.Text.Reading

/-! # The grammar of declarations

A declaration is a keyword at the beginning of a word, white space and a name that ends where a
word begins or ends. The name may have its namespace before it. A text is searched for the first
declaration with the namespace, then for the first one without it, and last for mentions of the
two names.
-/

namespace RailsLookup

open Pattern

namespace Declaration

variable {content leaf scope front key gap name rest : Text} {names : Language Char}
  {p : Pattern} {o : Nat}

/-- The name after its namespace, with `::` and white space in between where they are wanted. -/
def qualifiedNames (scope leaf : Text) : Language Char :=
  {s | ∃ mark blanks : Text, (mark = [] ∨ mark = "::".toList) ∧
    (∀ c ∈ blanks, isBlank c = true) ∧ s = scope ++ mark ++ blanks ++ leaf}

def openings : Language Char :=
  {s | ∃ key gap : Text, key ∈ keywords ∧ gap ≠ [] ∧ (∀ c ∈ gap, isBlank c = true) ∧
    s = key ++ gap}

/-- At the byte offset of a text a declaration of one of the names begins: a keyword with no word
character before it, white space, and the name, which ends at the edge of a word. -/
def DeclaredAt (names : Language Char) (content : Text) (offset : Nat) : Prop :=
  ∃ front key gap name rest : Text,
    content = front ++ (key ++ gap ++ name ++ rest) ∧ front.byteSize = offset ∧
    front.getLast?.any isWord = false ∧ key ∈ keywords ∧
    gap ≠ [] ∧ (∀ c ∈ gap, isBlank c = true) ∧
    name ∈ names ∧ name.getLast?.any isWord ≠ rest.head?.any isWord

theorem spells_keyword : keyword.SpellsFromEdge openings := by
  have hkey := ((spells_lit "module".toList).alt (spells_lit "class".toList)).edge_append
  refine (hkey.append (spells_some isBlank)).congr fun s => ?_
  constructor
  · rintro ⟨key, hk, gap, ⟨hne, hg⟩, rfl⟩
    refine ⟨key, gap, ?_, hne, hg, rfl⟩
    rcases hk with rfl | rfl <;> simp [keywords]
  · rintro ⟨key, gap, hk, hne, hg, rfl⟩
    refine ⟨key, ?_, gap, ⟨hne, hg⟩, rfl⟩
    have hk : key = "module".toList ∨ key = "class".toList := by simpa [keywords] using hk
    exact hk

theorem spells_plain (leaf : Text) :
    (keyword ++ lit leaf).SpellsFromEdge (openings * {leaf}) :=
  spells_keyword.append (spells_lit leaf)

theorem spells_qualified (scope leaf : Text) :
    (keyword ++ lit scope ++ optional (lit "::".toList) ++ blanks ++ lit leaf).SpellsFromEdge
      (openings * qualifiedNames scope leaf) := by
  have h := (((spells_keyword.append (spells_lit scope)).append
    (spells_lit "::".toList).optional).append (spells_most isBlank)).append (spells_lit leaf)
  refine h.congr fun s => ?_
  constructor
  · rintro ⟨_, ⟨_, ⟨_, ⟨opening, ho, _, rfl, rfl⟩, mark, hm, rfl⟩, blanks, hb, rfl⟩, _, rfl, rfl⟩
    exact ⟨opening, ho, _, ⟨mark, blanks, hm.symm, hb, rfl⟩, by simp⟩
  · rintro ⟨opening, ho, _, ⟨mark, blanks, hm, hb, rfl⟩, rfl⟩
    refine ⟨opening ++ scope ++ mark ++ blanks, ?_, leaf, rfl, by simp⟩
    exact ⟨_, ⟨_, ⟨opening, ho, scope, rfl, rfl⟩, mark, hm.symm, rfl⟩, blanks, hb, rfl⟩

theorem head?_of_mem_openings {s : Text} (h : s ∈ openings * names) :
    s.head?.any isWord = true := by
  obtain ⟨_, ⟨key, gap, hk, -, -, rfl⟩, name, -, rfl⟩ := h
  have hw : isWord 'm' = true ∧ isWord 'c' = true := by decide
  simp only [keywords, List.mem_cons, List.not_mem_nil, or_false] at hk
  rcases hk with rfl | rfl
  · exact hw.1
  · exact hw.2

/-- A pattern for a keyword and a name starts just where the grammar has a declaration. -/
theorem mem_offsets_iff (hp : p.SpellsFromEdge (openings * names)) (hne : [] ∉ names) :
    o ∈ (p ++ edge).offsets content ↔ DeclaredAt names content o := by
  have hlast {name : Text} (hname : name ∈ names) (before : Text) :
      (before ++ name).getLast? = name.getLast? :=
    List.getLast?_append_of_ne_nil before fun h => hne (h ▸ hname)
  have hstarts := hp.startsAt_append_edge_iff_of_head fun s => head?_of_mem_openings
  constructor
  · rintro ⟨front, t, rfl, rfl, h⟩
    obtain ⟨hfree, _, ⟨_, ⟨key, gap, hk, hgne, hg, rfl⟩, name, hname, rfl⟩, rest, rfl, hend⟩ :=
      (hstarts front t).mp h
    rw [hlast hname] at hend
    exact ⟨front, key, gap, name, rest, rfl, rfl, hfree, hk, hgne, hg, hname, hend⟩
  · rintro ⟨front, key, gap, name, rest, rfl, rfl, hfree, hk, hgne, hg, hname, hend⟩
    refine ⟨front, _, rfl, rfl, (hstarts _ _).mpr ⟨hfree, _, ?_, rest, rfl, ?_⟩⟩
    · exact ⟨_, ⟨key, gap, hk, hgne, hg, rfl⟩, name, hname, rfl⟩
    · rw [hlast hname]
      exact hend

theorem offsets_plain (hl : leaf ≠ []) (content : Text) :
    (plain leaf).offsets content = {o | DeclaredAt {leaf} content o} := by
  ext o
  exact mem_offsets_iff (spells_plain leaf) (Ne.symm hl)

theorem offsets_qualified (hl : leaf ≠ []) (scope content : Text) :
    (qualified scope leaf).offsets content =
      {o | DeclaredAt (qualifiedNames scope leaf) content o} := by
  ext o
  refine mem_offsets_iff (spells_qualified scope leaf) ?_
  rintro ⟨mark, blanks, _, _, h⟩
  exact hl (List.append_eq_nil_iff.mp h.symm).2

theorem positionOf?_cases (p : Pattern) (content : Text) :
    ((∀ o, o ∉ p.offsets content) ∧ positionOf? p content = none) ∨
      ∃ o pos, IsLeast (p.offsets content) o ∧ content.positionAt? o = some pos ∧
        positionOf? p content = some pos := by
  cases ho : p.findOffset? content with
  | none =>
    refine .inl ⟨fun o hm => ?_, by rw [positionOf?, ho, Option.bind_none]⟩
    simpa [ho] using isSome_findOffset? hm
  | some o =>
    have hleast := isLeast_of_findOffset? ho
    obtain ⟨front, rest, rfl, rfl, _⟩ := hleast.1
    have hpos := Text.positionAt?_byteSize front rest
    exact .inr ⟨_, _, hleast, hpos, by rw [positionOf?, ho, Option.bind_some, hpos]⟩

theorem positionOf?_of_isLeast (h : IsLeast (p.offsets content) o) :
    positionOf? p content = content.positionAt? o := by
  rcases positionOf?_cases p content with ⟨hn, _⟩ | ⟨o', pos, hleast, hat, hpos⟩
  · exact absurd h.1 (hn o)
  · rw [hpos, ← hleast.unique h, hat]

theorem positionOf?_eq_none (h : ∀ o, o ∉ p.offsets content) : positionOf? p content = none := by
  rcases positionOf?_cases p content with ⟨_, hn⟩ | ⟨o, _, hleast, _, _⟩
  · exact hn
  · exact absurd hleast.1 (h o)

theorem mentions_iff : mentions scope leaf content = true ↔
    "module ".toList ++ scope <:+: content ∧
      ("module ".toList ++ leaf <:+: content ∨ "class ".toList ++ leaf <:+: content) := by
  simp only [mentions, Bool.and_eq_true, Bool.or_eq_true, Text.occurs_iff_infix]

/-- What a search for a name with a namespace comes to: the first declaration of the name with
the namespace, else the first one of the name alone, else the start of a text that mentions
both. -/
inductive Scan (content leaf scope : Text) : Option Position → Prop where
  | qualified {o : Nat} {pos : Position} : scope ≠ [] →
      IsLeast {o | DeclaredAt (qualifiedNames scope leaf) content o} o →
      content.positionAt? o = some pos → Scan content leaf scope (some pos)
  | plain {o : Nat} {pos : Position} :
      (scope ≠ [] → ∀ o, ¬DeclaredAt (qualifiedNames scope leaf) content o) →
      IsLeast {o | DeclaredAt {leaf} content o} o →
      content.positionAt? o = some pos → Scan content leaf scope (some pos)
  | mentioned : (∀ o, ¬DeclaredAt (qualifiedNames scope leaf) content o) →
      (∀ o, ¬DeclaredAt {leaf} content o) → scope ≠ [] →
      "module ".toList ++ scope <:+: content →
      "module ".toList ++ leaf <:+: content ∨ "class ".toList ++ leaf <:+: content →
      Scan content leaf scope (some .start)
  | missing : (scope ≠ [] → ∀ o, ¬DeclaredAt (qualifiedNames scope leaf) content o) →
      (∀ o, ¬DeclaredAt {leaf} content o) →
      (scope ≠ [] → "module ".toList ++ scope <:+: content →
        ¬("module ".toList ++ leaf <:+: content ∨ "class ".toList ++ leaf <:+: content)) →
      Scan content leaf scope none

variable {qualifier : Text} {found : Option Position}

theorem find?_of_scope (hl : leaf ≠ []) (hs : trimColons qualifier ≠ []) :
    find? content leaf qualifier =
      (positionOf? (qualified (trimColons qualifier) leaf) content).or
        ((positionOf? (plain leaf) content).or
          (if mentions (trimColons qualifier) leaf content then some .start else none)) := by
  simp [find?, hl, hs]

theorem find?_of_no_scope (hl : leaf ≠ []) (hs : trimColons qualifier = []) :
    find? content leaf qualifier = positionOf? (plain leaf) content := by
  simp [find?, hl, hs]

theorem scan_find? (hl : leaf ≠ []) :
    Scan content leaf (trimColons qualifier) (find? content leaf qualifier) := by
  generalize hs : trimColons qualifier = scope
  have hq := positionOf?_cases (Declaration.qualified scope leaf) content
  have hp := positionOf?_cases (Declaration.plain leaf) content
  rw [offsets_qualified hl] at hq
  rw [offsets_plain hl] at hp
  by_cases hne : scope = []
  · rw [find?_of_no_scope hl (hs.trans hne)]
    rcases hp with ⟨hno, hpos⟩ | ⟨o, pos, hleast, hat, hpos⟩
    · rw [hpos]
      exact .missing (fun h => absurd hne h) hno (fun h => absurd hne h)
    · rw [hpos]
      exact .plain (fun h => absurd hne h) hleast hat
  · rw [find?_of_scope hl (hs ▸ hne), hs]
    rcases hq with ⟨hnoq, hqpos⟩ | ⟨o, pos, hleast, hat, hqpos⟩
    · rw [hqpos, Option.none_or]
      rcases hp with ⟨hno, hpos⟩ | ⟨o, pos, hleast, hat, hpos⟩
      · rw [hpos, Option.none_or]
        split
        · next hm =>
          obtain ⟨hscope, hleaf⟩ := mentions_iff.mp hm
          exact .mentioned hnoq hno hne hscope hleaf
        · next hm =>
          exact .missing (fun _ => hnoq) hno fun _ hscope hleaf =>
            hm (mentions_iff.mpr ⟨hscope, hleaf⟩)
      · rw [hpos, Option.some_or]
        exact .plain (fun _ => hnoq) hleast hat
    · rw [hqpos, Option.some_or]
      exact .qualified hne hleast hat

theorem Scan.eq_find? (h : Scan content leaf (trimColons qualifier) found) (hl : leaf ≠ []) :
    find? content leaf qualifier = found := by
  have hqualified (hno : ∀ o, ¬DeclaredAt (qualifiedNames (trimColons qualifier) leaf) content o) :
      positionOf? (Declaration.qualified (trimColons qualifier) leaf) content = none := by
    apply positionOf?_eq_none
    rwa [offsets_qualified hl]
  have hplain (hno : ∀ o, ¬DeclaredAt {leaf} content o) :
      positionOf? (Declaration.plain leaf) content = none := by
    apply positionOf?_eq_none
    rwa [offsets_plain hl]
  cases h with
  | qualified hne hleast hat =>
    rw [← offsets_qualified hl] at hleast
    rw [find?_of_scope hl hne, positionOf?_of_isLeast hleast, hat, Option.some_or]
  | plain hno hleast hat =>
    rw [← offsets_plain hl] at hleast
    have hpos := (positionOf?_of_isLeast hleast).trans hat
    by_cases hne : trimColons qualifier = []
    · rw [find?_of_no_scope hl hne, hpos]
    · rw [find?_of_scope hl hne, hqualified (hno hne), hpos, Option.none_or, Option.some_or]
  | mentioned hnoq hno hne hscope hleaf =>
    rw [find?_of_scope hl hne, hqualified hnoq, hplain hno, Option.none_or, Option.none_or,
      if_pos (mentions_iff.mpr ⟨hscope, hleaf⟩)]
  | missing hnoq hno hm =>
    by_cases hne : trimColons qualifier = []
    · rw [find?_of_no_scope hl hne, hplain hno]
    · have hnot : ¬mentions (trimColons qualifier) leaf content = true := fun h =>
        hm hne (mentions_iff.mp h).1 (mentions_iff.mp h).2
      rw [find?_of_scope hl hne, hqualified (hnoq hne), hplain hno, Option.none_or, Option.none_or,
        if_neg hnot]

theorem isSome_find? (hl : leaf ≠ []) (h : (find? content leaf []).isSome = true)
    (qualifier : Text) : (find? content leaf qualifier).isSome = true := by
  rw [find?_of_no_scope hl rfl] at h
  by_cases hne : trimColons qualifier = []
  · rwa [find?_of_no_scope hl hne]
  · rw [find?_of_scope hl hne, Option.isSome_or, Option.isSome_or, h]
    simp

theorem trimColons_eq (t : Text) :
    ∃ before after : Text, t = before ++ trimColons t ++ after ∧ (∀ c ∈ before ++ after, c = ':') ∧
      (trimColons t).head? ≠ some ':' ∧ (trimColons t).getLast? ≠ some ':' := by
  have hhead (t : Text) : (t.dropWhile (· == ':')).head? ≠ some ':' := by
    intro h
    have hnot := List.head?_dropWhile_not (· == ':') t
    rw [h] at hnot
    cases hnot
  have hall (t : Text) : ∀ c ∈ t.takeWhile (· == ':'), c = ':' := fun c hc => by
    simpa using List.mem_takeWhile_imp hc
  obtain ⟨after, hafter, hback⟩ : ∃ after : Text, (∀ c ∈ after, c = ':') ∧
      t.dropWhile (· == ':') = trimColons t ++ after := by
    refine ⟨((t.dropWhile (· == ':')).reverse.takeWhile (· == ':')).reverse,
      fun c hc => hall _ c (List.mem_reverse.mp hc), ?_⟩
    rw [trimColons, ← List.reverse_append, List.takeWhile_append_dropWhile, List.reverse_reverse]
  refine ⟨t.takeWhile (· == ':'), after, ?_, ?_, ?_, ?_⟩
  · rw [List.append_assoc, ← hback, List.takeWhile_append_dropWhile]
  · intro c hc
    exact (List.mem_append.mp hc).elim (hall t c) (hafter c)
  · intro h
    apply hhead t
    rw [hback, List.head?_append, h, Option.some_or]
  · rw [trimColons, List.getLast?_reverse]
    exact hhead _

/-- A text is scanned for a declaration as its grammar says, with the colons at the ends of the
qualifier left out. What is found without a qualifier is found, there or elsewhere, with every
qualifier. -/
theorem find?_eq_iff_scan (content leaf qualifier : Text) (hl : leaf ≠ []) :
    (∃ before after : Text, qualifier = before ++ trimColons qualifier ++ after ∧
      (∀ c ∈ before ++ after, c = ':') ∧ (trimColons qualifier).head? ≠ some ':' ∧
      (trimColons qualifier).getLast? ≠ some ':') ∧
    (∀ found, find? content leaf qualifier = found ↔
      Scan content leaf (trimColons qualifier) found) ∧
    ((find? content leaf []).isSome → (find? content leaf qualifier).isSome) := by
  refine ⟨trimColons_eq qualifier, fun found => ⟨?_, fun h => h.eq_find? hl⟩, fun h => ?_⟩
  · rintro rfl
    exact scan_find? hl
  · exact isSome_find? hl h qualifier

theorem find?_eq_iff_scan_report :
    let content := "class Report\nend\nmodule Admin\n  Report\nend\n".toList
    "Report".toList ≠ [] ∧ find? content "Report".toList "::Admin".toList = some ⟨2, 0⟩ ∧
      Scan content "Report".toList "Admin".toList (some ⟨2, 0⟩) := by
  have h : find? "class Report\nend\nmodule Admin\n  Report\nend\n".toList "Report".toList
      "::Admin".toList = some ⟨2, 0⟩ := by cbv
  exact ⟨by decide, h, ((find?_eq_iff_scan _ _ _ (by decide)).2.1 _).mp h⟩

end Declaration

end RailsLookup
