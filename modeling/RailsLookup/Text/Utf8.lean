import RailsLookup.Text.Basic

/-! # Bytes and text

Text is written in UTF-8. Reading never fails: the longest beginning of a sequence that
cannot be completed becomes one replacement character.
-/

namespace RailsLookup

abbrev Bytes := List UInt8

def Text.utf8 (t : Text) : Bytes := t.flatMap String.utf8EncodeChar

namespace Utf8

def replacement : Char := '\uFFFD'

/-- A sequence under way: the value so far, the number of bytes still to come, and the range of
the next one. -/
structure Sequence where
  value : Nat
  missing : Nat
  lo : Nat := 0x80
  hi : Nat := 0xBF

inductive Lead where
  | single (c : Char)
  | opening (s : Sequence)
  | invalid

def lead (b : UInt8) : Lead :=
  let n := b.toNat
  if n < 0x80 then .single (Char.ofNat n)
  else if n < 0xC2 then .invalid
  else if n < 0xE0 then .opening { value := n - 0xC0, missing := 1 }
  else if n = 0xE0 then .opening { value := 0, missing := 2, lo := 0xA0 }
  else if n = 0xED then .opening { value := 0xD, missing := 2, hi := 0x9F }
  else if n < 0xF0 then .opening { value := n - 0xE0, missing := 2 }
  else if n = 0xF0 then .opening { value := 0, missing := 3, lo := 0x90 }
  else if n < 0xF4 then .opening { value := n - 0xF0, missing := 3 }
  else if n = 0xF4 then .opening { value := 4, missing := 3, hi := 0x8F }
  else .invalid

def decodeFrom : Option Sequence → Bytes → Text
  | none, [] => []
  | some _, [] => [replacement]
  | none, b :: rest =>
    match lead b with
    | .single c => c :: decodeFrom none rest
    | .opening s => decodeFrom (some s) rest
    | .invalid => replacement :: decodeFrom none rest
  | some s, b :: rest =>
    if s.lo ≤ b.toNat ∧ b.toNat ≤ s.hi then
      let value := s.value * 64 + (b.toNat - 0x80)
      if s.missing ≤ 1 then Char.ofNat value :: decodeFrom none rest
      else decodeFrom (some { value, missing := s.missing - 1 }) rest
    else
      match lead b with
      | .single c => replacement :: c :: decodeFrom none rest
      | .opening s => replacement :: decodeFrom (some s) rest
      | .invalid => replacement :: replacement :: decodeFrom none rest

def decode (bytes : Bytes) : Text := decodeFrom none bytes

/-- The text that these bytes encode, if there is one. -/
def decode? (bytes : Bytes) : Option Text :=
  let t := decode bytes
  if t.utf8 = bytes then some t else none

end Utf8

end RailsLookup
