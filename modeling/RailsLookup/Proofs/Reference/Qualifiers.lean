import Mathlib
import RailsLookup.Proofs.Reference.Cursor
import RailsLookup.Proofs.Text.Reading

/-! # The qualifiers of a word

The qualifiers of a word are read off its line: they stand there in front of it, joined by `::`,
and are made of word characters. What is read directly before the word is the longest chain there.
Names without a colon are found again when the text that they are joined to is taken apart.
-/

namespace RailsLookup

open Computability

namespace Namespace

variable {names other : List Text} {n w t : Text}

structure IsChain (names : List Text) : Prop where
  ne_nil : names ≠ []
  isName : ∀ n ∈ names, n ≠ [] ∧ ∀ c ∈ n, isWord c = true

/-- The names are the longest chain that a text ends in. -/
structure IsLongestChain (t : Text) (names : List Text) : Prop where
  isChain : IsChain names
  suffix : join names <:+ t
  longest : ∀ other, IsChain other → join other <:+ t → (join other).length ≤ (join names).length

theorem join_cons (n : Text) (names : List Text) :
    join (n :: names) = n ++ (names.map (mark ++ ·)).flatten := by
  induction names generalizing n with
  | nil => simp [join]
  | cons m names ih =>
    rw [List.map_cons, List.flatten_cons, List.append_assoc, ← ih m, join,
      List.intercalate_cons_cons, List.append_assoc]
    rfl

theorem pieces_of_not_mem (h : ':' ∉ n) : pieces n = [n] := by
  induction n with
  | nil => rfl
  | cons c n ih =>
    rw [List.mem_cons, not_or] at h
    simp [pieces, Ne.symm h.1, ih h.2]

theorem pieces_append (h : ':' ∉ n) (t : Text) : pieces (n ++ mark ++ t) = n :: pieces t := by
  induction n with
  | nil => rfl
  | cons c n ih =>
    rw [List.mem_cons, not_or] at h
    rw [List.append_assoc] at ih
    simp [pieces, Ne.symm h.1, ih h.2]

theorem segments_join (h : ∀ n ∈ names, n ≠ [] ∧ ':' ∉ n) : segments (join names) = names := by
  induction names with
  | nil => rfl
  | cons n names ih =>
    obtain ⟨⟨hne, hn⟩, h⟩ := List.forall_mem_cons.mp h
    cases names with
    | nil => simp [join, segments, pieces_of_not_mem hn, hne]
    | cons m names =>
      rw [join, List.intercalate_cons_cons, segments, pieces_append hn,
        List.filter_cons_of_pos (by simpa using hne)]
      exact congrArg (n :: ·) (ih h)

theorem cutLast_mark_of_not_mem (h : ':' ∉ w) : Text.cutLast mark w = none := by
  induction w with
  | nil => rfl
  | cons c w ih =>
    rw [List.mem_cons, not_or] at h
    rw [Text.cutLast, ih h.2]
    simp [mark, h.1]

theorem cutLast_mark_append (h : ':' ∉ w) (front : Text) :
    Text.cutLast mark (front ++ mark ++ w) = some (front, w) := by
  induction front with
  | nil =>
    -- the second colon of the mark does not begin another one
    have hcolon : Text.cutLast mark (':' :: w) = none := by
      rw [Text.cutLast, cutLast_mark_of_not_mem h]
      cases w with
      | nil => rfl
      | cons c w =>
        have hc := (not_or.mp (List.mem_cons.not.mp h)).1
        simp [mark, hc]
    change Text.cutLast mark (':' :: ':' :: w) = _
    rw [Text.cutLast, hcolon]
    rfl
  | cons c front ih =>
    rw [List.append_assoc, List.cons_append, Text.cutLast, ← List.append_assoc, ih]

theorem exists_suffix_join (h : names ≠ []) : ∃ n ∈ names, n <:+ join names := by
  induction names with
  | nil => exact absurd rfl h
  | cons n names ih =>
    cases names with
    | nil => exact ⟨n, List.mem_cons_self, by simp [join]⟩
    | cons m names =>
      obtain ⟨p, hp, hs⟩ := ih (List.cons_ne_nil m names)
      rw [join, List.intercalate_cons_cons]
      exact ⟨p, List.mem_cons_of_mem n hp, hs.trans (List.suffix_append _ _)⟩

theorem IsChain.not_mem_colon (h : IsChain names) : ∀ n ∈ names, n ≠ [] ∧ ':' ∉ n := by
  intro n hn
  obtain ⟨hne, hw⟩ := h.isName n hn
  exact ⟨hne, fun hc => absurd (hw ':' hc) (by decide)⟩

/-- Word characters in front of a chain make its first name longer. -/
theorem IsChain.extend (h : IsChain names) (hw : ∀ c ∈ w, isWord c = true) :
    ∃ other, IsChain other ∧ join other = w ++ join names := by
  obtain ⟨n, names, rfl⟩ := List.exists_cons_of_ne_nil h.ne_nil
  obtain ⟨⟨hne, hn⟩, hnames⟩ := List.forall_mem_cons.mp h.isName
  refine ⟨(w ++ n) :: names, ⟨by simp, List.forall_mem_cons.mpr ⟨⟨by simp [hne], ?_⟩, hnames⟩⟩, ?_⟩
  · intro c hc
    exact (List.mem_append.mp hc).elim (hw c) (hn c)
  · rw [join_cons, join_cons, List.append_assoc]

theorem IsChain.head_join (h : IsChain names) (t : Text) :
    (join names ++ t).head?.any isWord = true := by
  obtain ⟨n, names, rfl⟩ := List.exists_cons_of_ne_nil h.ne_nil
  obtain ⟨⟨hne, hn⟩, -⟩ := List.forall_mem_cons.mp h.isName
  obtain ⟨c, n, rfl⟩ := List.exists_cons_of_ne_nil hne
  rw [join_cons]
  exact hn c List.mem_cons_self

theorem IsChain.exists_last (h : IsChain names) :
    ∃ front c, join names = front ++ [c] ∧ isWord c = true := by
  obtain ⟨n, hn, front, hjoin⟩ := exists_suffix_join h.ne_nil
  obtain ⟨hne, hw⟩ := h.isName n hn
  refine ⟨front ++ n.dropLast, n.getLast hne, ?_, hw _ (List.getLast_mem hne)⟩
  rw [List.append_assoc, List.dropLast_append_getLast hne, hjoin]

/-- A chain that a text ends in can be made longer until it begins at the edge of a word. -/
theorem IsChain.exists_edge (h : IsChain names) (front : Text) :
    ∃ front' other, IsChain other ∧ front' ++ join other = front ++ join names ∧
      front'.length ≤ front.length ∧ front'.getLast?.any isWord = false := by
  obtain ⟨other, hother, hjoin⟩ :=
    h.extend (w := front.rtakeWhile isWord) fun c hc => List.mem_rtakeWhile_imp hc
  refine ⟨front.rdropWhile isWord, other, hother, ?_, ?_, ?_⟩
  · rw [hjoin, ← List.append_assoc, List.rdropWhile_append_rtakeWhile]
  · exact (List.rdropWhile_prefix isWord front).length_le
  · cases hl : front.rdropWhile isWord using List.reverseRecOn with
    | nil => rfl
    | append_singleton l c =>
      have hnot := List.rdropWhile_last_not isWord front (by simp [hl])
      simpa [hl] using hnot

theorem IsLongestChain.unique (h : IsLongestChain t names) (h' : IsLongestChain t other) :
    names = other := by
  have hlen : (join names).length = (join other).length :=
    le_antisymm (h'.longest names h.isChain h.suffix) (h.longest other h'.isChain h'.suffix)
  have hjoin : join names = join other :=
    (List.suffix_of_suffix_length_le h.suffix h'.suffix hlen.le).eq_of_length hlen
  rw [← segments_join h.isChain.not_mem_colon, hjoin, segments_join h'.isChain.not_mem_colon]

end Namespace

namespace Reference

open Namespace Pattern

variable {content front w t : Text} {position : Position} {r : Reference}

def chains : Language Char := {s | ∃ names, IsChain names ∧ s = join names}

theorem exists_names_of_marked {L : Language Char} {ss : List Text}
    (h : ∀ s ∈ ss, s ∈ {mark} * L) :
    ∃ names : List Text, (∀ n ∈ names, n ∈ L) ∧ ss = names.map (mark ++ ·) := by
  induction ss with
  | nil => exact ⟨[], by simp, rfl⟩
  | cons s ss ih =>
    obtain ⟨⟨_, rfl, n, hn, rfl⟩, hss⟩ := List.forall_mem_cons.mp h
    obtain ⟨names, hnames, rfl⟩ := ih hss
    exact ⟨n :: names, List.forall_mem_cons.mpr ⟨hn, hnames⟩, rfl⟩

theorem spells_chain : chain.Spells chains := by
  have hword := spells_some isWord
  refine (hword.append ((spells_lit mark).append hword).star).congr fun s => ?_
  constructor
  · rintro ⟨n, hn, _, hstar, rfl⟩
    obtain ⟨_, rfl, hss⟩ := Language.mem_kstar.mp hstar
    obtain ⟨names, hnames, rfl⟩ := exists_names_of_marked hss
    exact ⟨n :: names, ⟨by simp, List.forall_mem_cons.mpr ⟨hn, hnames⟩⟩, (join_cons n names).symm⟩
  · rintro ⟨names, h, rfl⟩
    obtain ⟨n, names, rfl⟩ := List.exists_cons_of_ne_nil h.ne_nil
    obtain ⟨hn, hnames⟩ := List.forall_mem_cons.mp h.isName
    refine ⟨n, hn, _, Language.mem_kstar.mpr ⟨names.map (mark ++ ·), rfl, ?_⟩,
      (join_cons n names).symm⟩
    intro s hs
    obtain ⟨m, hm, rfl⟩ := List.mem_map.mp hs
    exact ⟨mark, rfl, m, hnames m hm, rfl⟩

theorem startsAt_mark_finish :
    (lit mark ++ finish).startsAt (.between front t) = true ↔ t = mark := by
  simp only [startsAt_iff_exists, mem_ends_append, mem_ends_finish, spells_lit _ _ _]
  constructor
  · rintro ⟨_, mid, ⟨_, rfl, hr⟩, hend, rfl⟩
    obtain ⟨rest, rfl, rfl⟩ := hr.eq_between
    obtain rfl : rest = [] := hend
    exact List.append_nil _
  · rintro rfl
    refine ⟨_, .between (front ++ mark) [], ⟨mark, rfl, ?_⟩, rfl, rfl⟩
    simpa using Spot.reads_between front mark []

theorem exists_of_startsAt_mark_word
    (h : (lit mark ++ lit w ++ edge).startsAt (.between front t) = true) :
    ∃ rest, t = mark ++ w ++ rest := by
  obtain ⟨_, he⟩ := startsAt_iff_exists.mp h
  obtain ⟨mid, hm, -⟩ := mem_ends_append.mp he
  obtain ⟨_, ⟨_, rfl, _, rfl, rfl⟩, hr⟩ := ((spells_lit mark).append (spells_lit w) _ _).mp hm
  obtain ⟨rest, ht, -⟩ := hr.eq_between
  exact ⟨rest, ht⟩

theorem capture_chain {names : List Text} (h : IsChain names)
    (hfront : front.getLast?.any isWord = false) :
    Capture chains (lit mark ++ finish) front (join names) mark :=
  ⟨⟨names, h, rfl⟩, (Spot.isEdge_between_of_head (h.head_join mark)).mpr hfront,
    startsAt_mark_finish.mpr rfl⟩

theorem isSome_chainBefore? (stem : Text) {c : Char} (hc : isWord c = true) :
    (chainBefore? (stem ++ [c] ++ mark)).isSome = true := by
  have hsingle : IsChain [[c]] := ⟨by simp, by simpa using hc⟩
  obtain ⟨front, names, h, hjoin, -, hfront⟩ := hsingle.exists_edge stem
  have hparts : stem ++ [c] ++ mark = front ++ (join names ++ mark) := by
    rw [← List.append_assoc, hjoin]
    simp [join]
  rw [hparts]
  exact (capture_chain h hfront).isSome_capture? spells_chain

theorem isLongestChain_of_chainBefore? {s : Text} (h : chainBefore? (t ++ mark) = some s) :
    ∃ names, s = join names ∧ IsLongestChain t names := by
  obtain ⟨front, rest, ht, ⟨⟨names, hn, rfl⟩, -, hstarts⟩, hleast⟩ :=
    capture?_eq_some spells_chain h
  obtain rfl := startsAt_mark_finish.mp hstarts
  have hparts : t = front ++ join names := by
    rw [← List.append_assoc] at ht
    exact List.append_cancel_right ht
  refine ⟨names, rfl, hn, ⟨front, hparts.symm⟩, ?_⟩
  rintro other hother ⟨front', hparts'⟩
  -- the other chain may begin inside a word, but one at the edge before it is not shorter
  obtain ⟨front'', wide, hwide, hjoin, hle, hedge⟩ := hother.exists_edge front'
  have hle' := hleast front'' (join wide) mark (by rw [← List.append_assoc, hjoin, hparts'])
    (capture_chain hwide hedge)
  have hlength := congrArg List.length (hparts'.trans hparts)
  rw [List.length_append, List.length_append] at hlength
  omega

theorem exists_of_chainBefore? {s : Text} (h : chainBefore? front = some s) :
    ∃ names x, IsChain names ∧ s = join names ∧ front = x ++ join names ++ mark := by
  obtain ⟨x, rest, ht, ⟨⟨names, hn, rfl⟩, -, hstarts⟩, -⟩ := capture?_eq_some spells_chain h
  obtain rfl := startsAt_mark_finish.mp hstarts
  exact ⟨names, x, hn, rfl, by rw [ht, List.append_assoc]⟩

theorem exists_of_chainOnLine? {s : Text} (h : chainOnLine? t w = some s) :
    ∃ names x y, IsChain names ∧ s = join names ∧ t = x ++ (join names ++ mark ++ w) ++ y := by
  obtain ⟨x, rest, ht, ⟨⟨names, hn, rfl⟩, -, hstarts⟩, -⟩ := capture?_eq_some spells_chain h
  obtain ⟨y, rfl⟩ := exists_of_startsAt_mark_word hstarts
  exact ⟨names, x, y, hn, rfl, by simp [ht]⟩

theorem scope_cases (h : at? content position = some r) :
    r.scope = [] ∨ IsChain r.scope ∧ (join r.scope ++ mark ++ r.word) <:+: r.line := by
  obtain ⟨l, s, e, -, hrun, -, -, rfl⟩ := exists_run_of_at? h
  dsimp only [ofWord]
  cases hc : chainBefore? (l.take s) <|> chainOnLine? l ((l.take e).drop s) with
  | none => exact .inl rfl
  | some chain =>
    right
    rcases (Option.orElse_eq_some _ _ _).mp hc with hb | ⟨-, hon⟩
    · obtain ⟨names, x, hn, rfl, hx⟩ := exists_of_chainBefore? hb
      rw [Option.map_some, Option.getD_some, segments_join hn.not_mem_colon]
      refine ⟨hn, x, l.drop e, ?_⟩
      calc x ++ (join names ++ mark ++ (l.take e).drop s) ++ l.drop e
        _ = l.take s ++ (l.take e).drop s ++ l.drop e := by rw [hx]; simp only [List.append_assoc]
        _ = l := by rw [l.take_append_slice hrun.lt.le, List.take_append_drop]
    · obtain ⟨names, x, y, hn, rfl, hl⟩ := exists_of_chainOnLine? hon
      rw [Option.map_some, Option.getD_some, segments_join hn.not_mem_colon]
      exact ⟨hn, x, y, hl.symm⟩

theorem isIdentifier_of_mem_word (h : at? content position = some r) :
    ∀ c ∈ r.word, isIdentifier c = true := by
  obtain ⟨l, s, e, -, hrun, -, -, rfl⟩ := exists_run_of_at? h
  exact hrun.forall_mem_slice le_rfl le_rfl

theorem colon_not_mem_word (h : at? content position = some r) : ':' ∉ r.word := by
  intro hc
  exact absurd (isIdentifier_of_mem_word h _ hc) (by decide)

theorem split_qualifiedName_of_not_mem (hw : ':' ∉ r.word) :
    Namespace.split r.qualifiedName = (join r.scope, r.word) := by
  rw [qualifiedName]
  split
  · next hs =>
    rw [Namespace.split, cutLast_mark_of_not_mem hw, List.isEmpty_iff.mp hs]
    rfl
  · rw [Namespace.split, cutLast_mark_append hw]
    rfl

theorem split_qualifiedName (h : at? content position = some r) :
    Namespace.split r.qualifiedName = (join r.scope, r.word) :=
  split_qualifiedName_of_not_mem (colon_not_mem_word h)

theorem infix_qualifiedName (h : at? content position = some r) :
    r.qualifiedName <:+: r.line := by
  rw [qualifiedName]
  split
  · obtain ⟨l, s, e, -, -, -, -, rfl⟩ := exists_run_of_at? h
    exact (List.drop_suffix s _).isInfix.trans (List.take_prefix e l).isInfix
  · next hs =>
    rcases scope_cases h with hnil | ⟨-, hline⟩
    · exact absurd (List.isEmpty_iff.mpr hnil) hs
    · exact hline

theorem isLongestChain_ofWord {l stem : Text} {s : Nat} {c : Char}
    (hl : l.take s = stem ++ [c] ++ mark) (hc : isWord c = true) (column e : Nat) :
    IsLongestChain (stem ++ [c]) (ofWord l column s e).scope := by
  obtain ⟨chain, hchain⟩ := Option.isSome_iff_exists.mp (isSome_chainBefore? stem hc)
  obtain ⟨names, rfl, hlongest⟩ := isLongestChain_of_chainBefore? hchain
  have hscope : (ofWord l column s e).scope = names := by
    rw [ofWord, hl, hchain]
    exact segments_join hlongest.isChain.not_mem_colon
  rw [hscope]
  exact hlongest

theorem scope_eq_nil (h : at? content position = some r)
    (hnot : ∀ c, isWord c = true → ¬([c] ++ mark ++ r.word) <:+: r.line) : r.scope = [] := by
  rcases scope_cases h with hnil | ⟨hchain, x, y, hline⟩
  · exact hnil
  · obtain ⟨front, c, hjoin, hc⟩ := hchain.exists_last
    refine absurd ⟨x ++ front, y, ?_⟩ (hnot c hc)
    rw [← hline, hjoin]
    simp only [List.append_assoc]

/-- The qualifiers of a reference are what its line says. -/
structure Faithful (r : Reference) : Prop where
  isInfix : r.qualifiedName <:+: r.line
  isName : ∀ n ∈ r.scope, n ≠ [] ∧ ∀ c ∈ n, isWord c = true
  split : Namespace.split r.qualifiedName = (join r.scope, r.word)
  segments : Namespace.segments (Namespace.split r.qualifiedName).1 = r.scope
  /-- If a word character and `::` stand directly before the word, the qualifiers are the longest
  chain that ends in this character. -/
  longest : ∃ s e, r.line.Run s e ∧ s ≤ r.column ∧ r.column ≤ e ∧
    r.word = (r.line.take e).drop s ∧
    ∀ stem c, r.line.take s = stem ++ [c] ++ mark → isWord c = true →
      ∀ names, IsLongestChain (stem ++ [c]) names ↔ names = r.scope
  /-- If nowhere on the line `::` and the word come after a word character, there are no
  qualifiers. -/
  unqualified : (∀ c, isWord c = true → ¬([c] ++ mark ++ r.word) <:+: r.line) → r.scope = []

/-- Every reference that is found is faithful to its line. -/
theorem faithful_of_at? (content : Text) (position : Position) (r : Reference)
    (h : at? content position = some r) : r.Faithful := by
  have hsplit := split_qualifiedName h
  refine ⟨infix_qualifiedName h, ?_, hsplit, ?_, ?_, scope_eq_nil h⟩
  · intro n hn
    rcases scope_cases h with hnil | ⟨hchain, -⟩
    · exact absurd (hnil ▸ hn) List.not_mem_nil
    · exact hchain.isName n hn
  · rw [hsplit]
    rcases scope_cases h with hnil | ⟨hchain, -⟩
    · rw [hnil]
      rfl
    · exact segments_join hchain.not_mem_colon
  · obtain ⟨l, s, e, -, hrun, hs, he, rfl⟩ := exists_run_of_at? h
    refine ⟨s, e, hrun, hs, he, rfl, fun stem c hl hc names => ?_⟩
    have hlongest := isLongestChain_ofWord hl hc position.column e
    constructor
    · intro hnames
      exact hnames.unique hlongest
    · rintro rfl
      exact hlongest

theorem faithful_of_at?_row :
    let r : Reference :=
      { word := "Row".toList, line := "A:::B::Cé::Row, X::Y::Z::Row".toList, column := 12,
        scope := ["B".toList, "Cé".toList] }
    at? "A:::B::Cé::Row, X::Y::Z::Row\n".toList ⟨0, 12⟩ = some r ∧ r.Faithful := by
  have h : at? "A:::B::Cé::Row, X::Y::Z::Row\n".toList ⟨0, 12⟩ = some
      { word := "Row".toList, line := "A:::B::Cé::Row, X::Y::Z::Row".toList, column := 12,
        scope := ["B".toList, "Cé".toList] } := by cbv
  exact ⟨h, faithful_of_at? _ _ _ h⟩

end Reference

end RailsLookup
