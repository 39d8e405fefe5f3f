import RailsLookup.Text.Basic

/-! # JSON values

Members of an object keep their order. A number is an integer of at most 64 bits, or any other
number by its spelling.
-/

namespace RailsLookup

inductive Json where
  | null
  | bool (b : Bool)
  | int (n : Int)
  | real (spelling : Text)
  | str (s : Text)
  | arr (items : List Json)
  | obj (members : List (Text × Json))
  deriving Inhabited, Repr

namespace Json

def ofString (s : String) : Json := str s.toList

def ofNat (n : Nat) : Json := int n

def mkObj (members : List (String × Json)) : Json := obj (members.map fun (k, v) => (k.toList, v))

/-- The last member with the key. -/
def get? (j : Json) (key : String) : Option Json :=
  match j with
  | obj members => members.reverse.lookup key.toList
  | _ => none

def text? : Json → Option Text
  | str s => some s
  | _ => none

def items? : Json → Option (List Json)
  | arr items => some items
  | _ => none

def natBelow? (limit : Nat) : Json → Option Nat
  | int (.ofNat n) => if n < limit then some n else none
  | _ => none

def nat32? : Json → Option Nat := natBelow? 0x100000000

def int32? : Json → Option Int
  | int n => if -0x80000000 ≤ n ∧ n < 0x80000000 then some n else none
  | _ => none

def isNull : Json → Bool
  | null => true
  | _ => false

end Json

end RailsLookup
