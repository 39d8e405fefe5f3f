import RailsLookup.Namespace
import RailsLookup.Text.Search

/-! # References

The reference under a cursor is the longest run of identifier characters that touches it,
together with its line and the qualifiers written in front of it.
-/

namespace RailsLookup

structure Reference where
  word : Text
  line : Text
  column : Nat
  /-- The qualifiers before the word, the outermost first. -/
  scope : List Text
  deriving DecidableEq, Repr

namespace Reference

open Pattern

def qualifiedName (r : Reference) : Text :=
  if r.scope.isEmpty then r.word else Namespace.join r.scope ++ Namespace.mark ++ r.word

def chain : Pattern := Pattern.word ++ star (lit Namespace.mark ++ Pattern.word)

def chainBefore? (front : Text) : Option Text :=
  capture? edge chain (lit Namespace.mark ++ finish) front

/-- The first chain on the line that is followed by `::` and the word. -/
def chainOnLine? (line w : Text) : Option Text :=
  capture? edge chain (lit Namespace.mark ++ lit w ++ edge) line

def at? (content : Text) (position : Position) : Option Reference := do
  let line ← content.lines[position.line]?
  guard (position.column ≤ line.length)
  let left := ((line.take position.column).reverse.takeWhile isIdentifier).reverse
  let right := (line.drop position.column).takeWhile isIdentifier
  let w := left ++ right
  guard (!w.isEmpty)
  let front := line.take (position.column - left.length)
  let scope := (chainBefore? front <|> chainOnLine? line w).map Namespace.segments
  return { word := w, line, column := position.column, scope := scope.getD [] }

end Reference

end RailsLookup
