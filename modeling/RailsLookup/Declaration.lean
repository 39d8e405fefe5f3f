import RailsLookup.Text.Search

/-! # Declarations

A constant is declared by `module` or `class`, white space and its name. A declaration
qualified by the namespace is preferred to a plain one, wherever the two stand. Failing
both, a text that mentions both names with their keywords counts as a whole.
-/

namespace RailsLookup.Declaration

open Pattern

def keyword : Pattern := edge ++ alt (lit "module".toList) (lit "class".toList) ++ gap

def plain (leaf : Text) : Pattern := keyword ++ lit leaf ++ edge

/-- `module` or `class`, the namespace, possibly `::` or white space, and the name. -/
def qualified (scope leaf : Text) : Pattern :=
  keyword ++ lit scope ++ optional (lit "::".toList) ++ blanks ++ lit leaf ++ edge

def trimColons (t : Text) : Text :=
  ((t.dropWhile (· == ':')).reverse.dropWhile (· == ':')).reverse

def positionOf? (p : Pattern) (content : Text) : Option Position :=
  (p.findOffset? content).bind content.positionAt?

def mentions (scope leaf content : Text) : Bool :=
  Text.occurs ("module ".toList ++ scope) content &&
    (Text.occurs ("module ".toList ++ leaf) content ||
      Text.occurs ("class ".toList ++ leaf) content)

/-- Where a text declares `leaf`, qualified by `scope` if possible. -/
def find? (content leaf scope : Text) : Option Position :=
  let scope := trimColons scope
  if leaf.isEmpty then none
  else if scope.isEmpty then positionOf? (plain leaf) content
  else
    positionOf? (qualified scope leaf) content <|>
      positionOf? (plain leaf) content <|>
      if mentions scope leaf content then some .start else none

end RailsLookup.Declaration
