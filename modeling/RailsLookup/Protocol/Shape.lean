import RailsLookup.Json.Basic
import RailsLookup.Url.Reader

/-! # Shapes of parameters

A shape says which JSON values a message may carry. A record is an object, in which unknown
members do not count, or an array of exactly its fields in order; a record with mixed-in
fields is only an object.
-/

namespace RailsLookup

inductive Shape where
  | anything
  | boolean
  | text
  | natural
  | integer
  | number
  | url
  | word (choices : List String)
  | either (a b : Shape)
  | list (item : Shape)
  /-- Fields with their names and whether they must be present. -/
  | record (mixed : Bool) (fields : List (String × Bool × Shape))

namespace Json

/-- The fields of a record, by name in an object and by place in an array. -/
def fields? (mixed : Bool) (names : List String) (j : Json) : Option (List (Option Json)) :=
  match j with
  | obj _ => some (names.map j.get?)
  | arr items => if !mixed && items.length == names.length then some (items.map some) else none
  | _ => none

def url? (j : Json) : Option Url := j.text?.bind Url.parse?

end Json

namespace Shape

mutual

def accepts : Shape → Json → Bool
  | anything, _ => true
  | boolean, j =>
    match j with
    | .bool _ => true
    | _ => false
  | text, j => j.text?.isSome
  | natural, j => j.nat32?.isSome
  | integer, j => j.int32?.isSome
  | number, j =>
    match j with
    | .int _ | .real _ => true
    | _ => false
  | url, j => j.url?.isSome
  | word choices, j => j.text?.any fun s => choices.any (·.toList == s)
  | either a b, j => a.accepts j || b.accepts j
  | list item, j =>
    match j with
    | .arr items => items.all item.accepts
    | _ => false
  | record mixed fields, j =>
    match j.fields? mixed (fields.map (·.1)) with
    | some values => acceptsFields fields values
    | none => false

def acceptsFields : List (String × Bool × Shape) → List (Option Json) → Bool
  | [], _ => true
  | (_, required, shape) :: rest, value :: values =>
    acceptsField required shape value && acceptsFields rest values
  | _ :: _, [] => false

/-- An optional field may be absent or null. -/
def acceptsField (required : Bool) (shape : Shape) : Option Json → Bool
  | none => !required
  | some j => (!required && j.isNull) || shape.accepts j

end

end Shape

end RailsLookup
