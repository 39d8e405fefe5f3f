import RailsLookup.Text.Case
import RailsLookup.Url.Percent
import RailsLookup.Url.Punycode

/-! # Hosts

The host of a special URL is a domain in lower case and in ASCII, or an address in its canonical
form. Any other host is kept as it is written.
-/

namespace RailsLookup.Host

def forbidden : Text := "\x00\t\n\r #/:<>?@[\\]^|".toList

def isForbiddenInDomain (c : Char) : Bool :=
  c.toNat < 0x20 || c.toNat == 0x7F || c == '%' || forbidden.contains c

/-- A number in decimal, octal after `0` or hexadecimal after `0x`. -/
def number? (t : Text) : Option Nat :=
  let (base, ds) :=
    match t with
    | '0' :: 'x' :: rest => (16, rest)
    | '0' :: 'X' :: rest => (16, rest)
    | '0' :: c :: rest => (8, c :: rest)
    | _ => (10, t)
  Digits.number? base ds

def parts (t : Text) : List Text :=
  let ps := t.splitOn '.'
  if ps.length > 1 && ps.getLast? == some [] then ps.dropLast else ps

/-- Whether the last part is a number, so that the host has to be an address. -/
def endsInNumber (t : Text) : Bool :=
  match (parts t).getLast? with
  | none | some [] => false
  | some p => p.all Char.isDigit || (number? p).isSome

def ipv4? (t : Text) : Option Nat := do
  let ns ← (parts t).mapM fun p => if p.isEmpty then none else number? p
  guard (ns.dropLast.all (· < 0x100))
  match ns with
  | [a] => if a < 0x100000000 then some a else none
  | [a, b] => if b < 0x1000000 then some (a * 0x1000000 + b) else none
  | [a, b, c] => if c < 0x10000 then some (a * 0x1000000 + b * 0x10000 + c) else none
  | [a, b, c, d] =>
    if d < 0x100 then some (a * 0x1000000 + b * 0x10000 + c * 0x100 + d) else none
  | _ => none

def ipv4Text (n : Nat) : Text :=
  let octets := [n / 0x1000000, n / 0x10000 % 0x100, n / 0x100 % 0x100, n % 0x100]
  ['.'].intercalate (octets.map Digits.decimal)

def piece? (t : Text) : Option Nat :=
  if t.isEmpty || t.length > 4 then none else Digits.number? 16 t

def octet? (t : Text) : Option Nat :=
  if t.isEmpty || t.length > 3 || (t.head? == some '0' && t.length != 1) || !t.all Char.isDigit then
    none
  else (number? t).bind fun n => if n < 256 then some n else none

/-- The 16-bit pieces between colons; the last may be a dotted address. -/
def pieces? (t : Text) : Option (List Nat) :=
  if t.isEmpty then some []
  else
    let ps := t.splitOn ':'
    match ps.getLast? with
    | some last =>
      if last.contains '.' then do
        let front ← ps.dropLast.mapM piece?
        match ← (last.splitOn '.').mapM octet? with
        | [a, b, c, d] => return front ++ [a * 256 + b, c * 256 + d]
        | _ => none
      else ps.mapM piece?
    | none => none

def cutDouble : Text → Option (Text × Text)
  | [] => none
  | ':' :: ':' :: rest => some ([], rest)
  | c :: rest => (cutDouble rest).map fun (front, back) => (c :: front, back)

def ipv6? (t : Text) : Option (List Nat) :=
  match cutDouble t with
  | none => do
    let ps ← pieces? t
    if ps.length = 8 then some ps else none
  | some (front, back) => do
    guard (!front.contains '.')
    let front ← pieces? front
    let back ← pieces? back
    if front.length + back.length ≤ 7 then
      some (front ++ List.replicate (8 - front.length - back.length) 0 ++ back)
    else none

def zeros (ps : List Nat) : Nat := (ps.takeWhile (· == 0)).length

/-- The place and length of the first longest run of at least two zeros. -/
def longestZeros (ps : List Nat) : Option (Nat × Nat) :=
  (List.range ps.length).foldl (fun best i =>
    let n := zeros (ps.drop i)
    if n ≥ 2 && best.all fun (_, m) => m < n then some (i, n) else best) none

def ipv6Text (ps : List Nat) : Text :=
  let written (ps : List Nat) : Text := [':'].intercalate (ps.map Digits.hexadecimal)
  match longestZeros ps with
  | none => written ps
  | some (i, n) => written (ps.take i) ++ "::".toList ++ written (ps.drop (i + n))

def bracketed? (t : Text) : Option Text := do
  guard (t.getLast? == some ']')
  let ps ← ipv6? (t.drop 1).dropLast
  return '[' :: ipv6Text ps ++ [']']

def special? (t : Text) : Option Text :=
  if t.head? == some '[' then bracketed? t
  else
    let name := Text.lower (Utf8.decode (Percent.decode t))
    let domain := Punycode.domain name
    if domain.isEmpty || name.contains Utf8.replacement || domain.any isForbiddenInDomain then none
    else if endsInNumber domain then (ipv4? domain).map ipv4Text
    else some domain

def other? (t : Text) : Option Text :=
  if t.head? == some '[' then bracketed? t
  else if t.any forbidden.contains then none
  else some (Percent.encode [] t.utf8)

end RailsLookup.Host
