import RailsLookup.Text.Ranges
import RailsLookup.Text.Alphabetic
import RailsLookup.Text.Mark
import RailsLookup.Text.Number

/-! # Character classes

Word characters make up the runs that patterns match, identifier characters the word
under the cursor. The two differ: a superscript digit is only the latter, a combining
accent only the former.
-/

namespace RailsLookup

namespace Ranges

/-- The code points of the general category Pc. -/
def connector : List (Nat × Nat) :=
  [(0x5F, 0x5F), (0x203F, 0x2040), (0x2054, 0x2054), (0xFE33, 0xFE34), (0xFE4D, 0xFE4F),
   (0xFF3F, 0xFF3F)]

def joinControl : List (Nat × Nat) := [(0x200C, 0x200D)]

def whiteSpace : List (Nat × Nat) :=
  [(0x9, 0xD), (0x20, 0x20), (0x85, 0x85), (0xA0, 0xA0), (0x1680, 0x1680), (0x2000, 0x200A),
   (0x2028, 0x2029), (0x202F, 0x202F), (0x205F, 0x205F), (0x3000, 0x3000)]

end Ranges

def isAlphabetic (c : Char) : Bool := Ranges.contains Ranges.alphabetic c.toNat

def isDecimalNumber (c : Char) : Bool := Ranges.contains Ranges.decimalNumber c.toNat

/-- Letters, marks, decimal digits, connectors such as the underscore, and join controls. -/
def isWord (c : Char) : Bool :=
  isAlphabetic c || isDecimalNumber c || Ranges.contains Ranges.connector c.toNat ||
    Ranges.contains Ranges.mark c.toNat || Ranges.contains Ranges.joinControl c.toNat

def isBlank (c : Char) : Bool := Ranges.contains Ranges.whiteSpace c.toNat

/-- Letters, numbers of every kind, and the underscore. -/
def isIdentifier (c : Char) : Bool :=
  isAlphabetic c || isDecimalNumber c || Ranges.contains Ranges.otherNumber c.toNat || c == '_'

end RailsLookup
