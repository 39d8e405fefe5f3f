import Mathlib
import RailsLookup.Reference

/-! # The word at a cursor

The word of a reference is the one longest run of identifier characters that the cursor touches,
be it before, inside or just after the run. So it is the same for every cursor that touches the
run. The ends of the run can be found by two loops whose indices stay in the line.
-/

namespace RailsLookup

namespace Text

variable {t : Text} {s e s' e' column i : Nat}

def IdentifierAt (t : Text) (i : Nat) : Prop := ∃ c, t[i]? = some c ∧ isIdentifier c = true

/-- A run of identifier characters, from `s` up to `e`, that cannot be made longer. -/
structure Run (t : Text) (s e : Nat) : Prop where
  lt : s < e
  inside : ∀ i, s ≤ i → i < e → t.IdentifierAt i
  before : ∀ i, i + 1 = s → ¬t.IdentifierAt i
  after : ¬t.IdentifierAt e

theorem IdentifierAt.lt_length (h : t.IdentifierAt i) : i < t.length := by
  obtain ⟨c, hc, _⟩ := h
  exact (List.getElem?_eq_some_iff.mp hc).1

theorem Run.le_length (h : t.Run s e) : e ≤ t.length := by
  have hlt := h.lt
  have hlast := (h.inside (e - 1) (by omega) (by omega)).lt_length
  omega

/-- Of two runs that touch one column neither begins in the other one, as the character before
it would belong to a run; and neither ends in the other one. -/
theorem Run.unique (h : t.Run s e) (h' : t.Run s' e') (hs : s ≤ column) (he : column ≤ e)
    (hs' : s' ≤ column) (he' : column ≤ e') : s = s' ∧ e = e' := by
  have hlt := h.lt
  have hlt' := h'.lt
  constructor
  · rcases Nat.lt_trichotomy s s' with hss | rfl | hss
    · exact absurd (h.inside (s' - 1) (by omega) (by omega)) (h'.before _ (by omega))
    · rfl
    · exact absurd (h'.inside (s - 1) (by omega) (by omega)) (h.before _ (by omega))
  · rcases Nat.lt_trichotomy e e' with hee | rfl | hee
    · exact absurd (h'.inside e (by omega) hee) h.after
    · rfl
    · exact absurd (h.inside e' (by omega) hee) h'.after

/-- The index where the identifier characters before `i` begin, found by going back one by one;
`none` if a character is looked for outside the text. -/
def scanBack? (t : Text) : Nat → Option Nat
  | 0 => some 0
  | i + 1 => t[i]?.bind fun c => if isIdentifier c then scanBack? t i else some (i + 1)

def scanOn? (t : Text) (i : Nat) : Option Nat :=
  if i < t.length then
    t[i]?.bind fun c => if isIdentifier c then scanOn? t (i + 1) else some i
  else some i
termination_by t.length - i

def slice? (t : Text) (s e : Nat) : Option Text :=
  if s ≤ e ∧ e ≤ t.length then some ((t.take e).drop s) else none

theorem scanBack?_spec (h : column ≤ t.length) :
    ∃ s ≤ column, t.scanBack? column = some s ∧
      (∀ i, s ≤ i → i < column → t.IdentifierAt i) ∧ ∀ i, i + 1 = s → ¬t.IdentifierAt i := by
  induction column with
  | zero => exact ⟨0, le_rfl, rfl, by omega, by omega⟩
  | succ n ih =>
    obtain ⟨s, hs, hscan, hin, hbefore⟩ := ih (by omega)
    have hn : t[n]? = some t[n] := List.getElem?_eq_getElem (by omega)
    rw [scanBack?, hn, Option.bind_some]
    split
    · next hc =>
      refine ⟨s, by omega, hscan, fun i hi hlt => ?_, hbefore⟩
      rcases Nat.lt_succ_iff_lt_or_eq.mp hlt with hlt | rfl
      · exact hin i hi hlt
      · exact ⟨t[i], hn, hc⟩
    · next hc =>
      refine ⟨n + 1, le_rfl, rfl, by omega, ?_⟩
      rintro i hi ⟨c, hi', hid⟩
      obtain rfl : i = n := by omega
      rw [hn] at hi'
      exact hc (Option.some.inj hi' ▸ hid)

theorem scanOn?_spec (t : Text) (column : Nat) :
    ∃ e, column ≤ e ∧ t.scanOn? column = some e ∧
      (∀ i, column ≤ i → i < e → t.IdentifierAt i) ∧ ¬t.IdentifierAt e := by
  fun_induction scanOn? t column with
  | case1 n hn ih =>
    have hget : t[n]? = some t[n] := List.getElem?_eq_getElem hn
    obtain ⟨e, he, hscan, hin, hafter⟩ := ih
    rw [hget, Option.bind_some]
    split
    · next hc =>
      refine ⟨e, by omega, hscan, fun i hi hlt => ?_, hafter⟩
      rcases Nat.lt_or_eq_of_le hi with hi | rfl
      · exact hin i hi hlt
      · exact ⟨t[n], hget, hc⟩
    · next hc =>
      refine ⟨n, le_rfl, rfl, by omega, ?_⟩
      rintro ⟨c, hi, hid⟩
      rw [hget] at hi
      exact hc (Option.some.inj hi ▸ hid)
  | case2 n hn => exact ⟨n, le_rfl, rfl, by omega, fun h => hn h.lt_length⟩

/-- Both loops end without a look outside the text, and what they go over is a run if it is
anything. -/
theorem scan_spec (h : column ≤ t.length) :
    ∃ s e, s ≤ column ∧ column ≤ e ∧ t.scanBack? column = some s ∧ t.scanOn? column = some e ∧
      (s < e → t.Run s e) ∧
      (s = e → ¬t.IdentifierAt column ∧ ∀ i, i + 1 = column → ¬t.IdentifierAt i) := by
  obtain ⟨s, hs, hback, hin, hbefore⟩ := scanBack?_spec h
  obtain ⟨e, he, hon, hin', hafter⟩ := scanOn?_spec t column
  refine ⟨s, e, hs, he, hback, hon, fun hlt => ⟨hlt, fun i hi hlt => ?_, hbefore, hafter⟩, ?_⟩
  · rcases Nat.lt_or_ge i column with hic | hic
    · exact hin i hi hic
    · exact hin' i hic hlt
  · rintro rfl
    obtain rfl : s = column := by omega
    exact ⟨hafter, hbefore⟩

theorem take_append_slice (t : Text) (h : s ≤ e) : t.take s ++ (t.take e).drop s = t.take e := by
  conv_rhs => rw [← List.take_append_drop s (t.take e), List.take_take, Nat.min_eq_left h]

theorem exists_of_mem_slice {c : Char} (h : c ∈ (t.take e).drop s) :
    ∃ i, s ≤ i ∧ i < e ∧ t[i]? = some c := by
  obtain ⟨i, hi⟩ := List.mem_iff_getElem?.mp h
  rw [List.getElem?_drop, List.getElem?_take] at hi
  split at hi
  · exact ⟨s + i, by omega, by assumption, hi⟩
  · cases hi

theorem Run.forall_mem_slice (h : t.Run s e) (hs : s ≤ s') (he : e' ≤ e) :
    ∀ c ∈ (t.take e').drop s', isIdentifier c = true := by
  intro c hc
  obtain ⟨i, hi, hlt, hget⟩ := exists_of_mem_slice hc
  obtain ⟨c', hget', hid⟩ := h.inside i (by omega) (by omega)
  rw [hget] at hget'
  exact Option.some.inj hget' ▸ hid

theorem takeWhile_back_eq_nil (hs : s ≤ t.length) (h : ∀ i, i + 1 = s → ¬t.IdentifierAt i) :
    (t.take s).reverse.takeWhile isIdentifier = [] := by
  cases s with
  | zero => rfl
  | succ i =>
    have hnot : ¬isIdentifier t[i] = true := fun hid =>
      h i rfl ⟨t[i], List.getElem?_eq_getElem hs, hid⟩
    rw [List.take_succ_eq_append_getElem hs, List.reverse_append, List.reverse_singleton,
      List.singleton_append, List.takeWhile_cons_of_neg hnot]

theorem takeWhile_on_eq_nil (h : ¬t.IdentifierAt e) :
    (t.drop e).takeWhile isIdentifier = [] := by
  cases hd : t.drop e with
  | nil => rfl
  | cons c back =>
    have hget : t[e]? = some c := by rw [← List.head?_drop, hd, List.head?_cons]
    exact List.takeWhile_cons_of_neg fun hid => h ⟨c, hget, hid⟩

theorem Run.takeWhile_back (h : t.Run s e) (hs : s ≤ column) (he : column ≤ e) :
    ((t.take column).reverse.takeWhile isIdentifier).reverse = (t.take column).drop s := by
  have hin : ∀ c ∈ ((t.take column).drop s).reverse, isIdentifier c = true := fun c hc =>
    h.forall_mem_slice le_rfl he c (List.mem_reverse.mp hc)
  have hout : (t.take s).reverse.takeWhile isIdentifier = [] :=
    takeWhile_back_eq_nil (h.lt.le.trans h.le_length) h.before
  conv_lhs => rw [← t.take_append_slice hs]
  rw [List.reverse_append, List.takeWhile_append_of_pos hin, hout, List.append_nil,
    List.reverse_reverse]

theorem Run.takeWhile_on (h : t.Run s e) (hs : s ≤ column) (he : column ≤ e) :
    (t.drop column).takeWhile isIdentifier = (t.take e).drop column := by
  have hle := h.le_length
  have hparts : t.drop column = (t.take e).drop column ++ t.drop e := by
    rw [← List.drop_append_of_le_length (by rw [List.length_take_of_le hle]; exact he),
      List.take_append_drop]
  rw [hparts, List.takeWhile_append_of_pos (h.forall_mem_slice hs le_rfl),
    takeWhile_on_eq_nil h.after, List.append_nil]

end Text

namespace Reference

open Text

variable {content l : Text} {position : Position} {r : Reference} {s e column row : Nat}

def ofWord (l : Text) (column s e : Nat) : Reference :=
  let w := (l.take e).drop s
  let chain := chainBefore? (l.take s) <|> chainOnLine? l w
  { word := w, line := l, column, scope := (chain.map Namespace.segments).getD [] }

/-- The reference at a position, looked for with indices into its line; `none` if one of them is
outside the line. -/
def byIndex? (content : Text) (position : Position) : Option (Option Reference) :=
  content.lines[position.line]?.elim (some none) fun l =>
    if l.length < position.column then some none
    else do
      let s ← scanBack? l position.column
      let e ← scanOn? l position.column
      if s = e then return none
      let w ← slice? l s e
      let front ← slice? l 0 s
      let chain := chainBefore? front <|> chainOnLine? l w
      return some
        { word := w, line := l, column := position.column,
          scope := (chain.map Namespace.segments).getD [] }

theorem at?_of_run (hl : content.lines[row]? = some l) (h : l.Run s e) (hs : s ≤ column)
    (he : column ≤ e) : at? content ⟨row, column⟩ = some (ofWord l column s e) := by
  have hle := h.le_length
  have hlt := h.lt
  have hword : (l.take column).drop s ++ (l.take e).drop column = (l.take e).drop s := by
    rw [← List.drop_append_of_le_length (by rw [List.length_take_of_le (by omega)]; exact hs),
      l.take_append_slice he]
  have hne : (l.take e).drop s ≠ [] := by
    rw [ne_eq, List.drop_eq_nil_iff, List.length_take_of_le hle]
    omega
  have hlength : column - ((l.take column).drop s).length = s := by
    rw [List.length_drop, List.length_take_of_le (by omega)]
    omega
  simp only [at?, hl, Option.bind_eq_bind, Option.bind_some, h.takeWhile_back hs he,
    h.takeWhile_on hs he, hword, hlength]
  simp [ofWord, hne, he.trans hle]

theorem at?_eq_none (hl : content.lines[row]? = some l) (hat : ¬l.IdentifierAt column)
    (hbefore : ∀ i, i + 1 = column → ¬l.IdentifierAt i) : at? content ⟨row, column⟩ = none := by
  rw [Option.eq_none_iff_forall_ne_some]
  intro r h
  simp only [at?, hl, Option.bind_eq_bind, Option.bind_eq_some_iff, Option.guard_eq_some',
    Option.some.injEq, exists_eq_left', takeWhile_on_eq_nil hat] at h
  obtain ⟨_, hcolumn, _, hne, _⟩ := h
  rw [takeWhile_back_eq_nil hcolumn hbefore] at hne
  exact absurd hne (by decide)

theorem isSome_at?_iff : (at? content position).isSome ↔
    ∃ l, content.lines[position.line]? = some l ∧ position.column ≤ l.length ∧
      (l.IdentifierAt position.column ∨
        ∃ i, i + 1 = position.column ∧ l.IdentifierAt i) := by
  constructor
  · intro h
    obtain ⟨r, hr⟩ := Option.isSome_iff_exists.mp h
    have hdata := hr
    simp only [at?, Option.bind_eq_bind, Option.bind_eq_some_iff, Option.guard_eq_some'] at hdata
    obtain ⟨l, hl, _, hcolumn, _⟩ := hdata
    refine ⟨l, hl, hcolumn, ?_⟩
    by_contra hnot
    push Not at hnot
    exact absurd (at?_eq_none hl hnot.1 hnot.2 ▸ hr) (by simp)
  · rintro ⟨l, hl, hcolumn, hid⟩
    obtain ⟨s, e, hs, he, -, -, hrun, hnone⟩ := scan_spec hcolumn
    have hlt : s < e := by
      by_contra hle
      obtain ⟨hat, hbefore⟩ := hnone (by omega)
      rcases hid with hid | ⟨i, hi, hid⟩
      · exact hat hid
      · exact hbefore i hi hid
    rw [at?_of_run hl (hrun hlt) hs he, Option.isSome_some]

theorem exists_run_of_at? (h : at? content position = some r) :
    ∃ l s e, content.lines[position.line]? = some l ∧ l.Run s e ∧ s ≤ position.column ∧
      position.column ≤ e ∧ r = ofWord l position.column s e := by
  obtain ⟨l, hl, hcolumn, -⟩ := isSome_at?_iff.mp (Option.isSome_iff_exists.mpr ⟨r, h⟩)
  obtain ⟨s, e, hs, he, -, -, hrun, hnone⟩ := scan_spec hcolumn
  have hlt : s < e := by
    by_contra hle
    obtain ⟨hat, hbefore⟩ := hnone (by omega)
    exact absurd (at?_eq_none hl hat hbefore ▸ h) (by simp)
  rw [at?_of_run hl (hrun hlt) hs he, Option.some.injEq] at h
  exact ⟨l, s, e, hl, hrun hlt, hs, he, h.symm⟩

theorem byIndex?_eq (content : Text) (position : Position) :
    byIndex? content position = some (at? content position) := by
  cases hl : content.lines[position.line]? with
  | none => simp [byIndex?, at?, hl]
  | some l =>
    rw [byIndex?, hl, Option.elim_some]
    split
    · next hlong => simp [at?, hl, Nat.not_le.mpr hlong]
    · next hshort =>
      obtain ⟨s, e, hs, he, hback, hon, hrun, hnone⟩ := scan_spec (Nat.le_of_not_lt hshort)
      simp only [hback, hon, Option.bind_eq_bind, Option.bind_some]
      split
      · next heq =>
        obtain ⟨hat, hbefore⟩ := hnone heq
        rw [at?_eq_none hl hat hbefore, Option.pure_def]
      · next hne =>
        have h := hrun (by omega)
        have hle := h.le_length
        rw [at?_of_run hl h hs he]
        simp [slice?, ofWord, hle, h.lt.le, h.lt.le.trans hle]

/-- A position has a reference exactly when its line exists, has its column and has an identifier
character just before the column or at it. The word is the one longest run of such characters
that the column touches, and every column that touches the run has the same word, line and scope.
All of it can be read off by index without one that is out of range. -/
theorem at?_maximal_run (content : Text) (position : Position) :
    ((at? content position).isSome ↔
      ∃ l, content.lines[position.line]? = some l ∧ position.column ≤ l.length ∧
        (l.IdentifierAt position.column ∨
          ∃ i, i + 1 = position.column ∧ l.IdentifierAt i)) ∧
    (∀ r, at? content position = some r →
      content.lines[position.line]? = some r.line ∧ r.column = position.column ∧
      ∃ s e, r.line.Run s e ∧ s ≤ position.column ∧ position.column ≤ e ∧
        (∀ s' e', r.line.Run s' e' → s' ≤ position.column → position.column ≤ e' →
          s' = s ∧ e' = e) ∧
        r.word = (r.line.take e).drop s ∧
        ∀ column, s ≤ column → column ≤ e →
          at? content ⟨position.line, column⟩ = some { r with column := column }) ∧
    byIndex? content position = some (at? content position) := by
  refine ⟨isSome_at?_iff, ?_, byIndex?_eq content position⟩
  intro r h
  obtain ⟨l, s, e, hl, hrun, hs, he, rfl⟩ := exists_run_of_at? h
  exact ⟨hl, rfl, s, e, hrun, hs, he,
    fun s' e' hrun' hs' he' => hrun'.unique hrun hs' he' hs he, rfl,
    fun column hs' he' => at?_of_run hl hrun hs' he'⟩

end Reference

end RailsLookup
