import RailsLookup.Text.Digits
import RailsLookup.Text.Utf8

/-! # Percent-encoding

A byte that may not stand for itself is written as a percent sign and two hexadecimal digits.
Controls and bytes beyond ASCII never stand for themselves.
-/

namespace RailsLookup.Percent

def hexDigit (n : Nat) : Char := "0123456789ABCDEF".toList.getD n '0'

def encodeByte (b : UInt8) : Text := ['%', hexDigit (b.toNat / 16), hexDigit (b.toNat % 16)]

def isPlain (reserved : Text) (b : UInt8) : Bool :=
  0x20 ≤ b.toNat && b.toNat < 0x7F && !reserved.contains (Char.ofNat b.toNat)

def encode (reserved : Text) (bytes : Bytes) : Text :=
  bytes.flatMap fun b => if isPlain reserved b then [Char.ofNat b.toNat] else encodeByte b

/-- The bytes that a text writes. A percent sign without two digits stands for itself. -/
def decode : Text → Bytes
  | [] => []
  | '%' :: a :: b :: rest =>
    match Digits.number? 16 [a, b] with
    | some n => UInt8.ofNat n :: decode rest
    | none => Text.utf8 ['%'] ++ decode (a :: b :: rest)
  | c :: rest => Text.utf8 [c] ++ decode rest

def inPath : Text := " \"#<>?`\x7b\x7d".toList

/-- What is encoded in a segment that is made from a name. -/
def inSegment : Text := inPath ++ "/%\\".toList

def inUserInfo : Text := inPath ++ "/:;=@[\\]^|".toList

def inQuery (isSpecial : Bool) : Text := if isSpecial then " \"#<>'".toList else " \"#<>".toList

def inFragment : Text := " \"<>`".toList

end RailsLookup.Percent
