import RailsLookup.Text.Basic

/-! # Digits

Numbers and the texts that write them in a base.
-/

namespace RailsLookup.Digits

def value? (c : Char) : Option Nat :=
  if c.isDigit then some (c.toNat - '0'.toNat)
  else if 'a' ≤ c ∧ c ≤ 'f' then some (c.toNat - 'a'.toNat + 10)
  else if 'A' ≤ c ∧ c ≤ 'F' then some (c.toNat - 'A'.toNat + 10)
  else none

def isDigit (base : Nat) (c : Char) : Bool := (value? c).any (· < base)

/-- The number that digits write; no digits write zero. -/
def number? (base : Nat) (ds : Text) : Option Nat :=
  ds.foldlM (fun n c => ((value? c).filter (· < base)).map (n * base + ·)) 0

/-- The number that one or more decimal digits write, perhaps after a plus sign. -/
def natural? (t : Text) : Option Nat :=
  match t with
  | '+' :: d :: ds | d :: ds => number? 10 (d :: ds)
  | [] => none

def decimal (n : Nat) : Text := Nat.toDigits 10 n

def hexadecimal (n : Nat) : Text := Nat.toDigits 16 n

end RailsLookup.Digits
