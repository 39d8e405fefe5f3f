import RailsLookup.Proofs.Text.LineEnds

/-! # Patterns and line ends

A steady pattern matches at a place of a text just if it matches there when the line ends are
written in the other way. White space is steady where something follows that cannot start inside
a line end.
-/

namespace RailsLookup

def Spot.crlf (spot : Spot) : Spot := ⟨spot.before, spot.rest.crlf⟩

namespace Spot

theorem skip?_crlf {s : Text} (hs : s.Unbroken) (spot : Spot) :
    skip? s spot.crlf = (skip? s spot).map crlf := by
  induction s generalizing spot with
  | nil => rfl
  | cons a s ih =>
    obtain ⟨hn, hr, hs⟩ := Text.unbroken_cons.mp hs
    obtain ⟨b, _ | ⟨c, rest⟩⟩ := spot
    · rfl
    · by_cases hc : c = '\n'
      · subst hc
        simp [crlf, skip?, hn, hr]
      · simp only [crlf, Text.crlf_cons hc, skip?]
        split
        · exact ih hs ⟨some c, rest⟩
        · rfl

theorem isEdge_crlf (spot : Spot) : spot.crlf.isEdge = spot.isEdge := by
  have hword : isWord '\r' = isWord '\n' := by decide
  obtain ⟨b, _ | ⟨c, rest⟩⟩ := spot
  · rfl
  · by_cases hc : c = '\n'
    · subst hc
      simp [crlf, isEdge, hword]
    · simp [crlf, Text.crlf_cons hc, isEdge]

variable {k k' : Spot → Bool}

/-- Along a run of white space, what cannot hold inside a line end holds somewhere in both
texts or in neither. -/
theorem anyAlong_crlf (hk : ∀ spot, k' spot.crlf = k spot)
    (hin : ∀ t, k' ⟨some '\r', '\n' :: t⟩ = false) (b : Option Char) (t : Text) :
    anyAlong isBlank k' b t.crlf = anyAlong isBlank k b t := by
  have hr : isBlank '\r' = true := by decide
  have hn : isBlank '\n' = true := by decide
  induction t generalizing b with
  | nil => exact hk ⟨b, []⟩
  | cons c t ih =>
    have hhere := hk ⟨b, c :: t⟩
    by_cases hc : c = '\n'
    · subst hc
      simp only [crlf, Text.crlf_newline] at hhere
      simp only [Text.crlf_newline, anyAlong, hhere, hr, hn, hin, ih, Bool.true_and,
        Bool.false_or]
    · simp only [crlf, Text.crlf_cons hc] at hhere
      simp only [Text.crlf_cons hc, anyAlong, hhere, ih]

theorem search_crlf {α : Type} {f f' : Spot → Option α} (hf : ∀ spot, f' spot.crlf = f spot)
    (hin : ∀ t, f' ⟨some '\r', '\n' :: t⟩ = none) (b : Option Char) (t : Text) :
    search f' b t.crlf = (search f b t).map fun (n, a) => ((Text.crlf (t.take n)).length, a) := by
  induction t generalizing b with
  | nil =>
    have hhere : f' ⟨b, []⟩ = f ⟨b, []⟩ := hf ⟨b, []⟩
    rw [Text.crlf_nil, search, search, hhere]
    cases f ⟨b, []⟩ <;> rfl
  | cons c t ih =>
    have hhere := hf ⟨b, c :: t⟩
    by_cases hc : c = '\n'
    · subst hc
      simp only [crlf, Text.crlf_newline] at hhere
      rw [Text.crlf_newline, search, search, search, hhere, hin, ih]
      cases f ⟨b, '\n' :: t⟩ with
      | some a => rfl
      | none => simp [Function.comp_def]
    · simp only [crlf, Text.crlf_cons hc] at hhere
      rw [Text.crlf_cons hc, search, search, hhere, ih]
      cases f ⟨b, c :: t⟩ with
      | some a => rfl
      | none => simp [Function.comp_def, Text.crlf_cons hc]

end Spot

namespace Pattern

variable {p a b : Pattern} {s : Text}

/-- What can be asked at the ends of the pattern has one answer for both line ends, if it has so
wherever it is asked. -/
def Steady (p : Pattern) : Prop :=
  ∀ k k' : Spot → Bool, (∀ spot, k' spot.crlf = k spot) →
    ∀ spot, p.meets k' spot.crlf = p.meets k spot

/-- The pattern cannot start inside a line end. -/
def Avoids (p : Pattern) : Prop := ∀ k t, p.meets k ⟨some '\r', '\n' :: t⟩ = false

theorem avoids_edge : edge.Avoids := by
  have h : ∀ t, (⟨some '\r', '\n' :: t⟩ : Spot).isEdge = false := fun t => by
    simp [Spot.isEdge, show isWord '\r' = false by decide, show isWord '\n' = false by decide]
  intro k t
  rw [meets, h, Bool.false_and]

theorem avoids_lit (hs : s.Unbroken) (hne : s ≠ []) : (lit s).Avoids := by
  obtain ⟨c, s, rfl⟩ := List.exists_cons_of_ne_nil hne
  have hc := (Text.unbroken_cons.mp hs).1
  intro k t
  simp [meets, Spot.skip?, hc]

theorem Avoids.append (ha : a.Avoids) (b : Pattern) : (a ++ b).Avoids :=
  fun k => ha (b.meets k)

theorem steady_lit (hs : s.Unbroken) : (lit s).Steady := by
  intro k k' hk spot
  rw [meets, meets, Spot.skip?_crlf hs]
  cases Spot.skip? s spot <;> simp [hk]

theorem steady_edge : edge.Steady := by
  intro k k' hk spot
  rw [meets, meets, Spot.isEdge_crlf, hk]

theorem Steady.append (ha : a.Steady) (hb : b.Steady) : (a ++ b).Steady :=
  fun k k' hk => ha _ _ (hb k k' hk)

theorem Steady.alt (ha : a.Steady) (hb : b.Steady) : (alt a b).Steady := by
  intro k k' hk spot
  rw [meets, meets, ha k k' hk, hb k k' hk]

theorem Steady.optional (ha : a.Steady) : (optional a).Steady :=
  ha.alt (steady_lit (by decide))

theorem Steady.blanks_append (hb : b.Steady) (hv : b.Avoids) : (blanks ++ b).Steady :=
  fun k k' hk spot => Spot.anyAlong_crlf (hb k k' hk) (hv k') spot.before spot.rest

theorem Steady.gap_append (hb : b.Steady) (hv : b.Avoids) : (gap ++ b).Steady := by
  intro k k' hk spot
  have halong := Spot.anyAlong_crlf (hb k k' hk) (hv k')
  have hr : isBlank '\r' = true := by decide
  have hn : isBlank '\n' = true := by decide
  obtain ⟨before, _ | ⟨c, rest⟩⟩ := spot
  · rfl
  · by_cases hc : c = '\n'
    · subst hc
      -- the blank that is read first is the carriage return, and the run goes on from there
      change (isBlank '\r' && (b.meets k' _ || (isBlank '\n' && _))) = (isBlank '\n' && _)
      rw [hr, hn, hv k', Bool.true_and, Bool.false_or, Bool.true_and, Bool.true_and]
      exact halong (some '\n') rest
    · have he : Spot.crlf ⟨before, c :: rest⟩ = ⟨before, c :: Text.crlf rest⟩ := by
        simp [Spot.crlf, Text.crlf_cons hc]
      rw [he]
      exact congrArg (isBlank c && ·) (halong (some c) rest)

theorem find?_crlf (hp : p.Steady) (hv : p.Avoids) (t : Text) :
    p.find? t.crlf = (p.find? t).map fun n => (Text.crlf (t.take n)).length := by
  have hf (spot : Spot) : (if p.startsAt spot.crlf then some () else none) =
      if p.startsAt spot then some () else none := by
    rw [startsAt, startsAt, hp _ _ (fun _ => rfl)]
  have hin (t : Text) :
      (if p.startsAt ⟨some '\r', '\n' :: t⟩ then some () else none) = none := by
    rw [startsAt, hv]
    rfl
  rw [find?_eq_leftmost?, find?_eq_leftmost?, leftmost?, leftmost?, Spot.search_crlf hf hin]
  simp [Function.comp_def]

end Pattern

end RailsLookup
