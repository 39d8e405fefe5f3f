import Mathlib
import RailsLookup.Proofs.Text.Reading

/-! # Patterns in a longer text

A pattern that does not ask for the end of the text matches in a part of a text just as it does
in the part alone, as long as the part is not cut out of a word. The edges of words are the same
then, also at both ends of the part, and there may be more to go on with but not less.
-/

namespace RailsLookup

namespace Spot

variable {spot e : Spot} {before : Option Char} {s after : Text}

/-- The same place in a longer text. The part that it was in has the character before it and
`after` behind it. -/
def within (before : Option Char) (after : Text) (spot : Spot) : Spot :=
  ⟨spot.before.or before, spot.rest ++ after⟩

theorem Reads.within (h : spot.Reads s e) (before : Option Char) (after : Text) :
    (spot.within before after).Reads s (e.within before after) := by
  obtain ⟨hr, hb⟩ := h
  constructor
  · rw [Spot.within, hr, List.append_assoc]
    rfl
  · rw [Spot.within, hb, Option.or_assoc]
    rfl

theorem isEdge_within (hb : before.any isWord = false) (ha : after.head?.any isWord = false)
    (spot : Spot) : (spot.within before after).isEdge = spot.isEdge := by
  have hbefore : (spot.before.or before).any isWord = spot.before.any isWord := by
    cases spot.before with
    | none => exact hb
    | some c => rfl
  have hrest : (spot.rest ++ after).head?.any isWord = spot.rest.head?.any isWord := by
    cases spot.rest with
    | nil => exact ha
    | cons c rest => rfl
  rw [isEdge, isEdge, within, hbefore, hrest]

theorem between_append_append (front t rest after : Text) :
    between (front ++ t) (rest ++ after) = (between t rest).within front.getLast? after := by
  simp [between, within, List.getLast?_append]

end Spot

namespace Pattern

variable {p a : Pattern} {L : Language Char} {k k' : Spot → Bool} {spot : Spot}
  {before : Option Char} {t front rest after : Text}

def anchored : Pattern → Bool
  | finish => true
  | seq a b | alt a b => a.anchored || b.anchored
  | star a => a.anchored
  | _ => false

theorem Spells.meets_within (hp : p.Spells L)
    (hk : ∀ spot, k spot = true → k' (spot.within before after) = true)
    (h : p.meets k spot = true) : p.meets k' (spot.within before after) = true := by
  rw [meets_eq_any_ends, List.any_eq_true] at h ⊢
  obtain ⟨e, he, hke⟩ := h
  obtain ⟨s, hs, hr⟩ := (hp spot e).mp he
  exact ⟨_, (hp _ _).mpr ⟨s, hs, hr.within before after⟩, hk e hke⟩

/-- In the longer text there may be more repetitions, so their number need not be the same. -/
theorem anyRepeated_within
    (hstep : ∀ k k' : Spot → Bool, (∀ spot, k spot = true → k' (spot.within before after) = true) →
      ∀ spot, a.meets k spot = true → a.meets k' (spot.within before after) = true)
    (hk : ∀ spot, k spot = true → k' (spot.within before after) = true) {m n : Nat} (hmn : m ≤ n)
    (h : Spot.anyRepeated a.meets k m spot = true) :
    Spot.anyRepeated a.meets k' n (spot.within before after) = true := by
  induction m generalizing n spot with
  | zero =>
    have hhere := hk spot h
    cases n with
    | zero => exact hhere
    | succ n => rw [Spot.anyRepeated, hhere, Bool.true_or]
  | succ m ih =>
    obtain ⟨n, rfl⟩ := Nat.exists_eq_add_of_le' (Nat.zero_lt_of_lt hmn)
    rw [Spot.anyRepeated, Bool.or_eq_true] at h ⊢
    refine h.imp (hk spot) (hstep _ _ (fun spot hs => ?_) spot)
    exact ih (Nat.le_of_succ_le_succ hmn) hs

theorem meets_within (hp : p.anchored = false) (hb : before.any isWord = false)
    (ha : after.head?.any isWord = false)
    (hk : ∀ spot, k spot = true → k' (spot.within before after) = true)
    (h : p.meets k spot = true) : p.meets k' (spot.within before after) = true := by
  induction p generalizing k k' spot with
  | lit s => exact (spells_lit s).meets_within hk h
  | one q => exact (spells_one q).meets_within hk h
  | most q => exact (spells_most q).meets_within hk h
  | fewest q => exact (spells_fewest q).meets_within hk h
  | edge =>
    rw [meets, Bool.and_eq_true] at h ⊢
    rw [Spot.isEdge_within hb ha]
    exact h.imp_right (hk spot)
  | finish => cases hp
  | seq a b iha ihb =>
    obtain ⟨hpa, hpb⟩ := Bool.or_eq_false_iff.mp hp
    exact iha hpa (fun spot => ihb hpb hk) h
  | alt a b iha ihb =>
    obtain ⟨hpa, hpb⟩ := Bool.or_eq_false_iff.mp hp
    rw [meets, Bool.or_eq_true] at h ⊢
    exact h.imp (iha hpa hk) (ihb hpb hk)
  | star a ih =>
    refine anyRepeated_within (fun k k' hk spot => ih hp hk) hk ?_ h
    rw [Spot.within, List.length_append]
    exact Nat.le_add_right _ _

/-- A pattern that occurs in a text occurs in every text that the first is a part of, unless the
part begins or ends inside a word. -/
theorem occursIn_surrounded (hp : p.anchored = false) (hf : front.getLast?.any isWord = false)
    (hr : rest.head?.any isWord = false) (h : p.occursIn t = true) :
    p.occursIn (front ++ (t ++ rest)) = true := by
  obtain ⟨t₁, t₂, rfl, hs⟩ := occursIn_iff.mp h
  refine occursIn_iff.mpr ⟨front ++ t₁, t₂ ++ rest, by simp, ?_⟩
  rw [Spot.between_append_append]
  exact meets_within hp hf hr (fun _ _ => rfl) hs

end Pattern

end RailsLookup
