import RailsLookup.Text.Basic

/-! # TOML values

Numbers with a fraction and dates are kept only as being such: no setting has their type.
-/

namespace RailsLookup

inductive Toml where
  | string (s : Text)
  | integer (n : Int)
  | boolean (b : Bool)
  | float
  | date
  | array (items : List Toml)
  | table (entries : List (Text × Toml))
  deriving Repr

namespace Toml

def string? : Toml → Option Text
  | string s => some s
  | _ => none

def boolean? : Toml → Option Bool
  | boolean b => some b
  | _ => none

def natural? : Toml → Option Nat
  | integer (.ofNat n) => if n < 0x10000000000000000 then some n else none
  | _ => none

def strings? : Toml → Option (List Text)
  | array items => items.mapM string?
  | _ => none

end Toml

end RailsLookup
