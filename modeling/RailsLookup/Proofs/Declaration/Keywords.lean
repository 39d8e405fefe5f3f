import RailsLookup.Declaration
import RailsLookup.Proofs.Text.Opening

/-! # Where declarations are reported

The patterns of a declaration begin with a keyword. So a declaration is reported where one of the
keywords stands, or at the start of a text that only mentions its names.
-/

namespace RailsLookup.Declaration

open Pattern

variable {content leaf scope : Text} {p : Pattern} {words : List Text} {pos : Position}

theorem positionOf?_eq_map (p : Pattern) (t : Text) :
    positionOf? p t = (p.find? t).map fun n => Position.after (t.take n) := by
  rw [positionOf?, findOffset?]
  cases p.find? t with
  | none => rfl
  | some n =>
    have hb := Text.positionAt?_byteSize (t.take n) (t.drop n)
    rwa [List.take_append_drop] at hb

theorem standsAt_of_positionOf? (hp : p.BeginsWith words)
    (hw : ∀ w ∈ words, w ≠ [] ∧ '\n' ∉ w ∧ '\r' ∉ w) (h : positionOf? p content = some pos) :
    ∃ w ∈ words, w.StandsAt content pos := by
  rw [positionOf?_eq_map, Option.map_eq_some_iff] at h
  obtain ⟨n, hn, rfl⟩ := h
  obtain ⟨w, hm, rest, hr⟩ := hp.prefix_of_find? hn
  obtain ⟨hne, hnl, hcr⟩ := hw w hm
  have hs := Text.standsAt_after hne hnl hcr (content.take n) rest
  rw [hr, List.take_append_drop] at hs
  exact ⟨w, hm, hs⟩

def keywords : List Text := ["module".toList, "class".toList]

theorem beginsWith_keyword : keyword.BeginsWith keywords :=
  (((beginsWith_lit _).alt (beginsWith_lit _)).edge_append).append _

theorem beginsWith_plain (leaf : Text) : (plain leaf).BeginsWith keywords :=
  (beginsWith_keyword.append _).append _

theorem beginsWith_qualified (scope leaf : Text) : (qualified scope leaf).BeginsWith keywords :=
  ((((beginsWith_keyword.append _).append _).append _).append _).append _

/-- A declaration is reported where one of the keywords stands, or at the start of the text. -/
theorem find?_eq_some (h : find? content leaf scope = some pos) :
    pos = .start ∨ ∃ w ∈ keywords, w.StandsAt content pos := by
  have hk : ∀ w ∈ keywords, w ≠ [] ∧ '\n' ∉ w ∧ '\r' ∉ w := by decide
  dsimp only [find?] at h
  split at h
  · cases h
  · split at h
    · exact .inr (standsAt_of_positionOf? (beginsWith_plain leaf) hk h)
    · simp only [Option.orElse_eq_orElse, Option.orElse_eq_or, Option.or_eq_some_iff] at h
      rcases h with h | ⟨_, h | ⟨_, h⟩⟩
      · exact .inr (standsAt_of_positionOf? (beginsWith_qualified _ leaf) hk h)
      · exact .inr (standsAt_of_positionOf? (beginsWith_plain leaf) hk h)
      · -- both names are mentioned somewhere, and the text counts as a whole
        split at h
        · exact .inl (Option.some.inj h).symm
        · cases h

end RailsLookup.Declaration
