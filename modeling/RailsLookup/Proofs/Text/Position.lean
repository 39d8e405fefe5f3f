import RailsLookup.Text.Basic

/-! # Positions in the lines of a text

The position after a beginning of a text counts the line feeds of that beginning, while lines
are cut with their carriage returns taken off. The two agree on where a word stands: it is
found in the line and at the column that the text before it leads to.
-/

namespace RailsLookup

namespace Position

theorem foldl_advance (t : Text) (p : Position) :
    t.foldl advance p =
      ⟨p.line + (after t).line,
        if (after t).line = 0 then p.column + (after t).column else (after t).column⟩ := by
  induction t generalizing p with
  | nil => rfl
  | cons c t ih =>
    rw [after, List.foldl_cons, List.foldl_cons, ih (p.advance c), ih (start.advance c)]
    by_cases hc : c = '\n'
    · simp [advance, start, hc]
      omega
    · by_cases hl : (after t).line = 0
      · simp [advance, start, hc, hl]
        omega
      · simp [advance, start, hc, hl]

theorem after_cons_newline (t : Text) :
    after ('\n' :: t) = ⟨(after t).line + 1, (after t).column⟩ := by
  rw [after, List.foldl_cons, foldl_advance]
  simp [advance, start]
  omega

theorem after_cons {c : Char} (hc : c ≠ '\n') (t : Text) :
    after (c :: t) =
      if (after t).line = 0 then ⟨0, (after t).column + 1⟩ else after t := by
  rw [after, List.foldl_cons, foldl_advance]
  by_cases hl : (after t).line = 0
  · simp [advance, start, hc, hl]
    omega
  · simp [advance, start, hc, hl]

end Position

namespace Text

open Position

variable {word t front : Text} {p : Position}

/-- A word stands at a position: its line exists and goes on with the word from the column on. -/
def StandsAt (word t : Text) (p : Position) : Prop :=
  ∃ line, t.lines[p.line]? = some line ∧ word <+: line.drop p.column

theorem lines_newline (t : Text) : lines ('\n' :: t) = [] :: lines t := rfl

theorem lines_cons {c : Char} (hn : c ≠ '\n') (hr : c = '\r' → t.head? ≠ some '\n') :
    lines (c :: t) = (c :: (lines t).headD []) :: (lines t).tail := by
  rw [lines.eq_def]
  split
  · next h => cases h
  · next h =>
    obtain ⟨rfl, rfl⟩ := List.cons.inj h
    exact (hr rfl rfl).elim
  · next h => exact (hn (List.cons.inj h).1).elim
  · next h =>
    obtain ⟨rfl, rfl⟩ := List.cons.inj h
    cases lines t <;> rfl

/-- What a text reads from a position to the end of its line. -/
def lineFrom? (t : Text) (p : Position) : Option Text :=
  t.lines[p.line]?.map (List.drop p.column)

theorem standsAt_of_lineFrom? {rest : Text} (h : lineFrom? t p = some rest)
    (hw : word <+: rest) : StandsAt word t p := by
  obtain ⟨line, hl, rfl⟩ := Option.map_eq_some_iff.mp h
  exact ⟨line, hl, hw⟩

/-- A beginning of a text without line ends belongs to the first line. A carriage return is one
only in front of a line feed, so it does no harm inside. -/
theorem headD_lines_append {s : Text} (hn : '\n' ∉ s) (hr : s.getLast? ≠ some '\r') (t : Text) :
    (lines (s ++ t)).headD [] = s ++ (lines t).headD [] := by
  induction s with
  | nil => rfl
  | cons c s ih =>
    rw [List.mem_cons, not_or] at hn
    have hcr : c = '\r' → (s ++ t).head? ≠ some '\n' := by
      rintro rfl hh
      cases s with
      | nil => exact hr rfl
      | cons d s => exact hn.2 (by simpa using Or.inl (Option.some.inj hh).symm)
    have hlast : s.getLast? ≠ some '\r' := fun h => hr (by rw [List.getLast?_cons, h]; rfl)
    rw [List.cons_append, lines_cons (Ne.symm hn.1) hcr, List.headD_cons, ih hn.2 hlast]
    rfl

theorem headD_lines_prefix (t : Text) :
    (lines t).headD [] <+: t ∧ '\n' ∉ (lines t).headD [] := by
  fun_induction lines t with
  | case1 => simp
  | case2 | case3 => simp
  | case4 c rest _ hc hr ih =>
    exact ⟨⟨rest, rfl⟩, by simpa using fun h => hc h.symm⟩
  | case5 c rest _ hc l ls hr ih =>
    rw [hr] at ih
    refine ⟨List.cons_prefix_cons.mpr ⟨rfl, ih.1⟩, ?_⟩
    simpa using ⟨fun h => hc h.symm, ih.2⟩

theorem lineFrom?_newline (t : Text) (p : Position) :
    lineFrom? ('\n' :: t) ⟨p.line + 1, p.column⟩ = lineFrom? t p := by
  rw [lineFrom?, lines_newline, List.getElem?_cons_succ]
  rfl

theorem lineFrom?_cons {c : Char} (hn : c ≠ '\n') (hr : c = '\r' → t.head? ≠ some '\n')
    {rest : Text} (h : lineFrom? t p = some rest) :
    lineFrom? (c :: t) (if p.line = 0 then ⟨0, p.column + 1⟩ else p) = some rest := by
  obtain ⟨line, hl, rfl⟩ := Option.map_eq_some_iff.mp h
  rw [lineFrom?, lines_cons hn hr]
  cases hls : lines t with
  | nil => simp [hls] at hl
  | cons l ls =>
    rw [hls] at hl
    cases hk : p.line with
    | zero =>
      obtain rfl : l = line := by simpa [hk] using hl
      rfl
    | succ k =>
      have hl : ls[k]? = some line := by simpa [hk] using hl
      simp [hk, hl]

/-- After the beginning of a text its line goes on with the first line of what follows, unless
this begins with a part of a line end. -/
theorem lineFrom?_after {w : Char} (hn : w ≠ '\n') (hr : w ≠ '\r') (front rest : Text) :
    lineFrom? (front ++ w :: rest) (after front) = some ((lines (w :: rest)).headD []) := by
  induction front with
  | nil =>
    rw [lineFrom?, List.nil_append, lines_cons hn fun h => (hr h).elim]
    rfl
  | cons c front ih =>
    by_cases hc : c = '\n'
    · subst hc
      rw [after_cons_newline, List.cons_append, lineFrom?_newline]
      exact ih
    · rw [after_cons hc]
      by_cases hcr : c = '\r' ∧ (front ++ w :: rest).head? = some '\n'
      · -- the line feed that ends the line with `c` is in `front`, as `w` is none
        obtain ⟨rfl, hh⟩ := hcr
        cases front with
        | nil => exact (hn (by simpa using hh)).elim
        | cons c' front =>
          obtain rfl : c' = '\n' := by simpa using hh
          rw [after_cons_newline, if_neg (Nat.succ_ne_zero _), ← after_cons_newline]
          exact ih
      · exact lineFrom?_cons hc (fun h hh => hcr ⟨h, hh⟩) ih

theorem standsAt_after (hw : word ≠ []) (hn : '\n' ∉ word) (hr : '\r' ∉ word) (front t : Text) :
    StandsAt word (front ++ (word ++ t)) (after front) := by
  have hlast : word.getLast? ≠ some '\r' := fun h => hr (List.mem_of_getLast? h)
  have hline := headD_lines_append hn hlast t
  obtain ⟨w, rest, rfl⟩ := List.exists_cons_of_ne_nil hw
  rw [List.mem_cons, not_or] at hn hr
  refine standsAt_of_lineFrom? (lineFrom?_after (Ne.symm hn.1) (Ne.symm hr.1) front (rest ++ t)) ?_
  rw [← List.cons_append, hline]
  exact List.prefix_append _ _

theorem byteSize_append (s t : Text) : byteSize (s ++ t) = byteSize s + byteSize t := by
  induction s with
  | nil => simp [byteSize]
  | cons c s ih =>
    have hs (u : Text) : byteSize (c :: u) = c.utf8Size + byteSize u := rfl
    rw [List.cons_append, hs, hs, ih, Nat.add_assoc]

theorem byteSize_mono {front' : Text} (h : front <+: front') :
    byteSize front ≤ byteSize front' := by
  obtain ⟨more, rfl⟩ := h
  rw [byteSize_append]
  omega

theorem takeBytes?_byteSize (front t : Text) :
    takeBytes? (front ++ t) (byteSize front) = some front := by
  induction front with
  | nil => cases t <;> rfl
  | cons c front ih =>
    have hpos := c.utf8Size_pos
    have hs : byteSize (c :: front) = c.utf8Size + byteSize front := rfl
    rw [hs, List.cons_append, takeBytes?, if_neg (by omega), Nat.add_sub_cancel_left, ih]
    · rfl
    · omega

theorem positionAt?_byteSize (front t : Text) :
    positionAt? (front ++ t) (byteSize front) = some (after front) := by
  rw [positionAt?, takeBytes?_byteSize]
  rfl

end Text

end RailsLookup
