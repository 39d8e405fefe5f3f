import RailsLookup.Text.Character
import RailsLookup.Text.Basic

/-! # Spots

A spot is a place in a text, from which one can go on to later ones.
-/

namespace RailsLookup

/-- A place in a text: the character before it and what follows. -/
structure Spot where
  before : Option Char
  rest : Text
  deriving DecidableEq

namespace Spot

def ofText (t : Text) : Spot := ⟨none, t⟩

def skip? : Text → Spot → Option Spot
  | [], spot => some spot
  | c :: s, ⟨_, d :: rest⟩ => if c = d then skip? s ⟨some d, rest⟩ else none
  | _ :: _, ⟨_, []⟩ => none

theorem rest_eq_of_skip?_eq_some {s : Text} {spot e : Spot} (h : skip? s spot = some e) :
    spot.rest = s ++ e.rest := by
  induction s generalizing spot with
  | nil => simp_all [skip?]
  | cons c s ih =>
    obtain ⟨b, _ | ⟨d, rest⟩⟩ := spot
    · simp [skip?] at h
    · simp only [skip?] at h
      split at h
      · next hcd => simp [hcd, ← ih h]
      · simp at h

def along (p : Char → Bool) : Option Char → Text → List Spot
  | b, [] => [⟨b, []⟩]
  | b, c :: rest => ⟨b, c :: rest⟩ :: if p c then along p (some c) rest else []

theorem suffix_of_mem_along {p : Char → Bool} {b : Option Char} {t : Text} {e : Spot}
    (h : e ∈ along p b t) : e.rest <:+ t := by
  induction t generalizing b with
  | nil => simp_all [along]
  | cons c rest ih =>
    simp only [along, List.mem_cons] at h
    obtain rfl | h := h
    · exact List.suffix_rfl
    · split at h
      · exact (ih h).trans (List.suffix_cons c rest)
      · simp at h

/-- The spots reached by at most `n` steps, the farthest first, in front of `later`. -/
def repeated (step : Spot → List Spot) : Nat → Spot → List Spot → List Spot
  | 0, spot, later => spot :: later
  | n + 1, spot, later => (step spot).foldr (repeated step n) (spot :: later)

theorem suffix_of_mem_repeated {step : Spot → List Spot}
    (hs : ∀ spot, ∀ e ∈ step spot, e.rest <:+ spot.rest) {n : Nat} {spot e : Spot}
    {later : List Spot} (h : e ∈ repeated step n spot later) :
    e ∈ later ∨ e.rest <:+ spot.rest := by
  induction n generalizing spot later with
  | zero =>
    obtain rfl | h := List.mem_cons.1 h
    · exact .inr List.suffix_rfl
    · exact .inl h
  | succ n ih =>
    have hf (spots : List Spot) (hr : ∀ s ∈ spots, s.rest <:+ spot.rest)
        (he : e ∈ spots.foldr (repeated step n) (spot :: later)) :
        e ∈ later ∨ e.rest <:+ spot.rest := by
      induction spots with
      | nil =>
        obtain rfl | he := List.mem_cons.1 he
        · exact .inr List.suffix_rfl
        · exact .inl he
      | cons s ss ihs =>
        obtain he | he := ih he
        · exact ihs (fun x hx => hr x (List.mem_cons_of_mem _ hx)) he
        · exact .inr (he.trans (hr s List.mem_cons_self))
    exact hf _ (hs spot) h

def anyAlong (p : Char → Bool) (k : Spot → Bool) : Option Char → Text → Bool
  | b, [] => k ⟨b, []⟩
  | b, c :: rest => k ⟨b, c :: rest⟩ || (p c && anyAlong p k (some c) rest)

theorem anyAlong_eq (p : Char → Bool) (k : Spot → Bool) (b : Option Char) (t : Text) :
    anyAlong p k b t = (along p b t).any k := by
  induction t generalizing b with
  | nil => simp [anyAlong, along]
  | cons c rest ih => cases h : p c <;> simp [anyAlong, along, h, ih]

/-- Whether one of the spots of `repeated` satisfies `k`, where `step` asks about one step. -/
def anyRepeated (step : (Spot → Bool) → Spot → Bool) (k : Spot → Bool) : Nat → Spot → Bool
  | 0, spot => k spot
  | n + 1, spot => k spot || step (anyRepeated step k n) spot

theorem anyRepeated_eq {step : (Spot → Bool) → Spot → Bool} {next : Spot → List Spot}
    (h : ∀ k spot, step k spot = (next spot).any k) (k : Spot → Bool) (n : Nat) (spot : Spot)
    (later : List Spot) :
    (anyRepeated step k n spot || later.any k) = (repeated next n spot later).any k := by
  induction n generalizing spot later with
  | zero => simp [anyRepeated, repeated]
  | succ n ih =>
    have hf (spots tail : List Spot) :
        (spots.foldr (repeated next n) tail).any k =
          (spots.any (anyRepeated step k n) || tail.any k) := by
      induction spots with
      | nil => simp
      | cons s ss ihs => simp [← ih, ihs, Bool.or_assoc]
    simp only [anyRepeated, repeated, hf, h, List.any_cons]
    cases k spot <;> simp

def isEdge (spot : Spot) : Bool := spot.before.any isWord != spot.rest.head?.any isWord

def textUntil (spot later : Spot) : Text := spot.rest.take (spot.rest.length - later.rest.length)

end Spot

end RailsLookup
