import RailsLookup.Inflection

/-! # Namespaces

A qualified name such as `Admin::Reports::SummaryHelper` is a chain of segments joined by
`::`.
-/

namespace RailsLookup.Namespace

def mark : Text := "::".toList

/-- The pieces of a text between the marks, taken from the left. -/
def pieces : Text → List Text
  | [] => [[]]
  | ':' :: ':' :: rest => [] :: pieces rest
  | c :: rest =>
    match pieces rest with
    | [] => [[c]]
    | p :: ps => (c :: p) :: ps

def segments (t : Text) : List Text := (pieces t).filter (!·.isEmpty)

def join (names : List Text) : Text := mark.intercalate names

/-- The part before the last mark, empty if there is none, and the part after it. -/
def split (qualified : Text) : Text × Text :=
  (Text.cutLast mark qualified).getD ([], qualified)

def directory (t : Text) : Text :=
  ['/'].intercalate ((segments t).map Inflection.snakeCase)

end RailsLookup.Namespace
