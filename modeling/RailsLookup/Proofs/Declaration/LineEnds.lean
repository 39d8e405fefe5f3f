import RailsLookup.Proofs.Declaration.Keywords
import RailsLookup.Proofs.Text.Steady

/-! # Declarations and line ends

The patterns of a declaration are steady and cannot start inside a line end. So a declaration is
found at the same position whichever way the line ends of a text are written.
-/

namespace RailsLookup.Declaration

open Pattern

variable {p : Pattern} {leaf scope : Text}

/-- The characters before a match are the same but for the line ends, so its position is the
same. -/
theorem positionOf?_crlf (hp : p.Steady) (hv : p.Avoids) (t : Text) :
    positionOf? p t.crlf = positionOf? p t := by
  rw [positionOf?_eq_map, positionOf?_eq_map, find?_crlf hp hv, Option.map_map]
  congr 1
  funext n
  have ht : t.crlf = Text.crlf (t.take n) ++ Text.crlf (t.drop n) := by
    rw [← Text.crlf_append, List.take_append_drop]
  rw [Function.comp_apply, ht, List.take_left, Text.after_crlf]

/-- However a sequence of patterns is put together, its parts are met from left to right; so the
parts after the keyword may be taken as one pattern. -/
theorem steady_keyword_append {a : Pattern} (ha : a.Steady) (hv : a.Avoids) :
    (keyword ++ a).Steady := by
  have halt : (alt (lit "module".toList) (lit "class".toList)).Steady :=
    (steady_lit (by decide)).alt (steady_lit (by decide))
  exact (steady_edge.append halt).append (ha.gap_append hv)

theorem avoids_keyword : keyword.Avoids := (avoids_edge.append _).append _

theorem positionOf?_plain_crlf (hl : leaf.Unbroken) (hne : leaf ≠ []) (t : Text) :
    positionOf? (plain leaf) t.crlf = positionOf? (plain leaf) t := by
  apply positionOf?_crlf
  · exact steady_keyword_append ((steady_lit hl).append steady_edge)
      ((avoids_lit hl hne).append _)
  · exact (avoids_keyword.append _).append _

theorem positionOf?_qualified_crlf (hs : scope.Unbroken) (hsne : scope ≠ [])
    (hl : leaf.Unbroken) (hlne : leaf ≠ []) (t : Text) :
    positionOf? (qualified scope leaf) t.crlf = positionOf? (qualified scope leaf) t := by
  have hname : (lit leaf ++ edge).Steady := (steady_lit hl).append steady_edge
  have hblanks : (blanks ++ (lit leaf ++ edge)).Steady :=
    hname.blanks_append ((avoids_lit hl hlne).append _)
  have hscope :
      (lit scope ++ (optional (lit "::".toList) ++ (blanks ++ (lit leaf ++ edge)))).Steady :=
    (steady_lit hs).append ((steady_lit (by decide)).optional.append hblanks)
  apply positionOf?_crlf
  · exact steady_keyword_append hscope ((avoids_lit hs hsne).append _)
  · exact ((((avoids_keyword.append _).append _).append _).append _).append _

theorem mentions_crlf (hs : scope.Unbroken) (hl : leaf.Unbroken) (t : Text) :
    mentions scope leaf t.crlf = mentions scope leaf t := by
  have hword {w s : Text} (hw : w.Unbroken) (hne : w ≠ []) (h : s.Unbroken) :
      Text.occurs (w ++ s) t.crlf = Text.occurs (w ++ s) t :=
    Text.occurs_crlf (Text.unbroken_append.mpr ⟨hw, h⟩) (by simp [hne]) t
  rw [mentions, mentions, hword (by decide) (by decide) hs, hword (by decide) (by decide) hl,
    hword (by decide) (by decide) hl]

theorem trimColons_subset (t : Text) : trimColons t ⊆ t := by
  intro c hc
  have hc := List.mem_reverse.mp ((List.dropWhile_suffix _).subset (List.mem_reverse.mp hc))
  exact (List.dropWhile_suffix _).subset hc

theorem find?_crlf (hl : leaf.Unbroken) (hs : scope.Unbroken) (t : Text) :
    find? t.crlf leaf scope = find? t leaf scope := by
  have hs := hs.of_subset (trimColons_subset scope)
  by_cases hlne : leaf = []
  · simp [find?, hlne]
  by_cases hsne : trimColons scope = []
  · simp [find?, hlne, hsne, positionOf?_plain_crlf hl hlne]
  · simp [find?, hlne, hsne, positionOf?_plain_crlf hl hlne,
      positionOf?_qualified_crlf hs hsne hl hlne, mentions_crlf hs hl]

end RailsLookup.Declaration
