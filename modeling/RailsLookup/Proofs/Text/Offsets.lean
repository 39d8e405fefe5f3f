import Mathlib
import RailsLookup.Proofs.Text.Boundaries
import RailsLookup.Proofs.Text.Pieces

/-! # Offsets and positions

A byte offset has a position unless it falls inside a character. The offset can be counted back from
the position, by the bytes of the pieces before its line and of the characters before its column.
So offsets come one after the other just as their positions do.
-/

namespace RailsLookup

namespace Position

variable {p q r : Position} {s : Text}

def Before (p q : Position) : Prop := p.line < q.line ∨ p.line = q.line ∧ p.column < q.column

theorem Before.trans (h : p.Before q) (h' : q.Before r) : p.Before r := by
  unfold Before at *
  omega

theorem Before.asymm (h : p.Before q) : ¬q.Before p := by
  unfold Before at *
  omega

theorem before_advance (p : Position) (c : Char) : p.Before (p.advance c) := by
  unfold advance
  split
  · exact .inl (Nat.lt_succ_self _)
  · exact .inr ⟨rfl, Nat.lt_succ_self _⟩

theorem before_foldl_advance (hs : s ≠ []) (p : Position) : p.Before (s.foldl advance p) := by
  induction s generalizing p with
  | nil => exact absurd rfl hs
  | cons c s ih =>
    have hfirst := before_advance p c
    rw [List.foldl_cons]
    cases s with
    | nil => exact hfirst
    | cons d s => exact hfirst.trans (ih (List.cons_ne_nil d s) _)

theorem before_after_append (hs : s ≠ []) (front : Text) :
    (after front).Before (after (front ++ s)) := by
  have h : after (front ++ s) = s.foldl advance (after front) := List.foldl_append
  rw [h]
  exact before_foldl_advance hs _

end Position

namespace Text

open Position

variable {t front front' : Text} {p : Position} {c : Char} {n o : Nat}

/-- With the text cut at its line feeds, one of the pieces has the position in it or at its end, and
so many bytes come before: those of the earlier pieces with their line feeds, and those of the
characters to the left. -/
def LiesAt (t : Text) (p : Position) (bytes : Nat) : Prop :=
  ∃ piece : Text, (t.splitOn '\n')[p.line]? = some piece ∧ p.column ≤ piece.length ∧
    (((t.splitOn '\n').take p.line).map fun s => byteSize s + 1).sum +
      byteSize (piece.take p.column) = bytes

section LiesAt

variable {line column : Nat}

theorem liesAt_start_iff : LiesAt t start n ↔ n = 0 := by
  obtain ⟨w, ws, ht⟩ := List.exists_cons_of_ne_nil (List.splitOn_ne_nil '\n' t)
  simp [LiesAt, start, ht, eq_comm]

theorem column_eq_zero_of_liesAt (ht : (t.splitOn '\n').head? = some [])
    (h : LiesAt t ⟨0, column⟩ n) : column = 0 := by
  obtain ⟨piece, hpiece, hcolumn, -⟩ := h
  rw [← List.head?_eq_getElem?, ht] at hpiece
  obtain rfl := Option.some.inj hpiece
  exact Nat.le_zero.mp hcolumn

theorem liesAt_newline_iff :
    LiesAt ('\n' :: t) ⟨line + 1, column⟩ n ↔ ∃ m, n = m + 1 ∧ LiesAt t ⟨line, column⟩ m := by
  simp only [LiesAt, splitOn_cons_self, List.getElem?_cons_succ, List.take_succ_cons, List.map_cons,
    List.sum_cons, byteSize_nil]
  constructor
  · rintro ⟨piece, hpiece, hcolumn, rfl⟩
    exact ⟨_, by omega, piece, hpiece, hcolumn, rfl⟩
  · rintro ⟨_, rfl, piece, hpiece, hcolumn, rfl⟩
    exact ⟨piece, hpiece, hcolumn, by omega⟩

theorem liesAt_cons_succ_iff (hc : c ≠ '\n') :
    LiesAt (c :: t) ⟨line + 1, column⟩ n ↔
      ∃ m, n = c.utf8Size + m ∧ LiesAt t ⟨line + 1, column⟩ m := by
  obtain ⟨w, ws, ht, hct⟩ := splitOn_cons_of_ne hc t
  simp only [LiesAt, ht, hct, List.getElem?_cons_succ, List.take_succ_cons, List.map_cons,
    List.sum_cons, byteSize_cons]
  constructor
  · rintro ⟨piece, hpiece, hcolumn, rfl⟩
    exact ⟨_, by omega, piece, hpiece, hcolumn, rfl⟩
  · rintro ⟨_, rfl, piece, hpiece, hcolumn, rfl⟩
    exact ⟨piece, hpiece, hcolumn, by omega⟩

theorem liesAt_cons_zero_iff (hc : c ≠ '\n') :
    LiesAt (c :: t) ⟨0, column + 1⟩ n ↔ ∃ m, n = c.utf8Size + m ∧ LiesAt t ⟨0, column⟩ m := by
  obtain ⟨w, ws, ht, hct⟩ := splitOn_cons_of_ne hc t
  simp only [LiesAt, ht, hct, List.getElem?_cons_zero, Option.some.injEq, List.take_zero,
    List.map_nil, List.sum_nil, Nat.zero_add]
  constructor
  · rintro ⟨_, rfl, hcolumn, rfl⟩
    exact ⟨_, rfl, w, rfl, Nat.le_of_succ_le_succ hcolumn, rfl⟩
  · rintro ⟨_, rfl, _, rfl, hcolumn, rfl⟩
    exact ⟨c :: w, rfl, Nat.succ_le_succ hcolumn, rfl⟩

end LiesAt

/-- The position after a beginning of a text has just the bytes of the beginning before it. -/
theorem liesAt_after (front back : Text) : LiesAt (front ++ back) (after front) front.byteSize := by
  induction front with
  | nil => exact liesAt_start_iff.mpr rfl
  | cons c front ih =>
    rw [byteSize_cons]
    by_cases hc : c = '\n'
    · subst hc
      rw [after_cons_newline]
      exact liesAt_newline_iff.mpr ⟨_, Nat.add_comm _ _, ih⟩
    · rw [after_cons hc]
      cases hp : after front with
      | mk line column =>
        rw [hp] at ih
        cases line with
        | zero => exact (liesAt_cons_zero_iff hc).mpr ⟨_, rfl, ih⟩
        | succ line => exact (liesAt_cons_succ_iff hc).mpr ⟨_, rfl, ih⟩

theorem exists_of_liesAt (h : LiesAt t p n) :
    ∃ front : Text, front <+: t ∧ after front = p ∧ front.byteSize = n := by
  obtain ⟨line, column⟩ := p
  induction t generalizing line column n with
  | nil =>
    cases line with
    | zero =>
      obtain rfl := column_eq_zero_of_liesAt rfl h
      exact ⟨[], List.nil_prefix, rfl, (liesAt_start_iff.mp h).symm⟩
    | succ line => simp [LiesAt] at h
  | cons c t ih =>
    by_cases hc : c = '\n'
    · subst hc
      cases line with
      | zero =>
        obtain rfl := column_eq_zero_of_liesAt (by rw [splitOn_cons_self]; rfl) h
        exact ⟨[], List.nil_prefix, rfl, (liesAt_start_iff.mp h).symm⟩
      | succ line =>
        obtain ⟨m, rfl, hm⟩ := liesAt_newline_iff.mp h
        obtain ⟨front, hfront, hafter, rfl⟩ := ih _ _ hm
        refine ⟨'\n' :: front, List.cons_prefix_cons.mpr ⟨rfl, hfront⟩, ?_, Nat.add_comm _ _⟩
        rw [after_cons_newline, hafter]
    · cases line with
      | zero =>
        cases column with
        | zero => exact ⟨[], List.nil_prefix, rfl, (liesAt_start_iff.mp h).symm⟩
        | succ column =>
          obtain ⟨m, rfl, hm⟩ := (liesAt_cons_zero_iff hc).mp h
          obtain ⟨front, hfront, hafter, rfl⟩ := ih _ _ hm
          refine ⟨c :: front, List.cons_prefix_cons.mpr ⟨rfl, hfront⟩, ?_, rfl⟩
          rw [after_cons hc, hafter]
          rfl
      | succ line =>
        obtain ⟨m, rfl, hm⟩ := (liesAt_cons_succ_iff hc).mp h
        obtain ⟨front, hfront, hafter, rfl⟩ := ih _ _ hm
        refine ⟨c :: front, List.cons_prefix_cons.mpr ⟨rfl, hfront⟩, ?_, rfl⟩
        rw [after_cons hc, hafter]
        rfl

theorem positionAt?_eq_none_iff : t.positionAt? o = none ↔ t.Inside (min o t.byteSize) := by
  rw [positionAt?, Option.map_eq_none_iff, takeBytes?_eq_none_iff]

theorem exists_of_positionAt? (h : t.positionAt? o = some p) :
    ∃ front : Text, front <+: t ∧ front.byteSize = min o t.byteSize ∧ after front = p := by
  obtain ⟨front, htake, hp⟩ := Option.map_eq_some_iff.mp h
  obtain ⟨hfront, hsize⟩ := takeBytes?_eq_some_iff.mp htake
  exact ⟨front, hfront, hsize, hp⟩

theorem positionAt?_eq_some_iff :
    t.positionAt? o = some p ↔ t.LiesAt p (min o t.byteSize) := by
  constructor
  · intro h
    obtain ⟨front, ⟨back, rfl⟩, hsize, rfl⟩ := exists_of_positionAt? h
    rw [← hsize]
    exact liesAt_after front back
  · intro h
    obtain ⟨front, hfront, rfl, hsize⟩ := exists_of_liesAt h
    rw [positionAt?, takeBytes?_eq_some_iff.mpr ⟨hfront, hsize⟩]
    rfl

/-- Of two beginnings of a text the shorter one ends at the earlier position. -/
theorem byteSize_lt_iff_before (h : front <+: t) (h' : front' <+: t) :
    front.byteSize < front'.byteSize ↔ (after front).Before (after front') := by
  have hproper {a b : Text} (hab : a <+: b) (hne : a ≠ b) :
      a.byteSize < b.byteSize ∧ (after a).Before (after b) := by
    obtain ⟨more, rfl⟩ := hab
    have hmore : more ≠ [] := by
      rintro rfl
      exact hne (List.append_nil a).symm
    have hpos := byteSize_pos hmore
    exact ⟨by rw [byteSize_append]; omega, before_after_append hmore a⟩
  by_cases he : front = front'
  · subst he
    exact ⟨fun hlt => absurd hlt (Nat.lt_irrefl _), fun hb => absurd hb hb.asymm⟩
  · rcases List.prefix_or_prefix_of_prefix h h' with hp | hp
    · obtain ⟨hlt, hb⟩ := hproper hp he
      exact ⟨fun _ => hb, fun _ => hlt⟩
    · obtain ⟨hlt, hb⟩ := hproper hp (Ne.symm he)
      exact ⟨fun hlt' => absurd hlt' (Nat.lt_asymm hlt), fun hb' => absurd hb' hb.asymm⟩

end Text

end RailsLookup
