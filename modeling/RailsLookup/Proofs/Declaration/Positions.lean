import Mathlib
import RailsLookup.Proofs.Declaration.Grammar
import RailsLookup.Proofs.Text.Offsets

/-! # Positions of declarations

A search for a declaration tries one pattern after the other and looks up the position of what it
finds. What it finds begins with a character, so no lookup fails.
-/

namespace RailsLookup

namespace Declaration

variable {p : Pattern} {content leaf scope : Text} {o : Nat}

/-- The patterns of a declaration, the preferred first. -/
def tiers (leaf scope : Text) : List Pattern :=
  if (trimColons scope).isEmpty then [plain leaf]
  else [qualified (trimColons scope) leaf, plain leaf]

theorem find?_eq_findSome? (hl : leaf ≠ []) (content scope : Text) :
    find? content leaf scope =
      ((tiers leaf scope).findSome? (positionOf? · content)).or
        (if !(trimColons scope).isEmpty && mentions (trimColons scope) leaf content then some .start
          else none) := by
  by_cases hs : trimColons scope = []
  · simp [find?_of_no_scope hl hs, tiers, hs]
  · rw [find?_of_scope hl hs]
    cases hq : positionOf? (qualified (trimColons scope) leaf) content <;>
      cases hp : positionOf? (plain leaf) content <;> simp [tiers, hs, hq, hp]

theorem exists_positionAt?_of_findOffset? (h : p.findOffset? content = some o) :
    ∃ pos, content.positionAt? o = some pos := by
  obtain ⟨front, rest, rfl, rfl, -⟩ := (Pattern.isLeast_of_findOffset? h).1
  exact ⟨_, Text.positionAt?_byteSize front rest⟩

theorem mapM_positionAt? (p : Pattern) (content : Text) :
    (p.findOffset? content).mapM content.positionAt? = some (positionOf? p content) := by
  rw [positionOf?]
  cases ho : p.findOffset? content with
  | none => rfl
  | some o =>
    obtain ⟨pos, hpos⟩ := exists_positionAt?_of_findOffset? ho
    simp [hpos]

/-- The search for a declaration with each lookup of a position as a step that may fail: `none` as
soon as one does. -/
def checked? (content leaf scope : Text) : Option (Option Position) :=
  if leaf.isEmpty then some none
  else do
    let found ← (tiers leaf scope).findSomeM? fun p =>
      (p.findOffset? content).mapM content.positionAt?
    let scope := trimColons scope
    return found.or (if !scope.isEmpty && mentions scope leaf content then some .start else none)

theorem checked?_eq (content leaf scope : Text) :
    checked? content leaf scope = some (find? content leaf scope) := by
  have hfound : ((tiers leaf scope).findSomeM? fun p => some (positionOf? p content)) =
      some ((tiers leaf scope).findSome? (positionOf? · content)) := List.findSomeM?_pure
  by_cases hl : leaf = []
  · simp [checked?, find?, hl]
  · rw [find?_eq_findSome? hl]
    simp [checked?, hl, mapM_positionAt?, hfound]

end Declaration

namespace Text

/-- A byte offset has no position just if it falls inside a character. A position is that of the
offset, clamped to the text, to which the bytes before it add up. Offsets are in the order of their
positions, and the search for a declaration never looks up an offset that has none. -/
theorem positionAt?_by_counting (content : Text) :
    (∀ offset, content.positionAt? offset = none ↔
      content.Inside (min offset content.byteSize)) ∧
    (∀ offset p, content.positionAt? offset = some p ↔
      content.LiesAt p (min offset content.byteSize)) ∧
    (∀ offset offset' p p', content.positionAt? offset = some p →
      content.positionAt? offset' = some p' →
      (min offset content.byteSize < min offset' content.byteSize ↔ p.Before p')) ∧
    ∀ leaf scope, Declaration.checked? content leaf scope =
      some (Declaration.find? content leaf scope) := by
  refine ⟨fun offset => positionAt?_eq_none_iff, fun offset p => positionAt?_eq_some_iff, ?_,
    Declaration.checked?_eq content⟩
  intro offset offset' p p' h h'
  obtain ⟨front, hfront, hsize, rfl⟩ := exists_of_positionAt? h
  obtain ⟨front', hfront', hsize', rfl⟩ := exists_of_positionAt? h'
  rw [← hsize, ← hsize']
  exact byteSize_lt_iff_before hfront hfront'

theorem positionAt?_by_counting_accents :
    let content : Text := "é\nclass Ñ\n".toList
    content.positionAt? 3 = some ⟨1, 0⟩ ∧ content.positionAt? 9 = some ⟨1, 6⟩ ∧
      content.LiesAt ⟨1, 6⟩ 9 ∧ content.Inside 10 ∧ Position.Before ⟨1, 0⟩ ⟨1, 6⟩ ∧
      Declaration.checked? content "Ñ".toList [] = some (some ⟨1, 0⟩) := by
  intro content
  obtain ⟨hnone, hsome, hbefore, hchecked⟩ := positionAt?_by_counting content
  have h : content.positionAt? 3 = some ⟨1, 0⟩ := by decide +kernel
  have h' : content.positionAt? 9 = some ⟨1, 6⟩ := by decide +kernel
  have hinside : content.positionAt? 10 = none := by decide +kernel
  have hfound : Declaration.find? content "Ñ".toList [] = some ⟨1, 0⟩ := by decide +kernel
  refine ⟨h, h', (hsome _ _).mp h', (hnone _).mp hinside, (hbefore _ _ _ _ h h').mp ?_, ?_⟩
  · decide +kernel
  · rw [hchecked, hfound]

end Text

end RailsLookup
