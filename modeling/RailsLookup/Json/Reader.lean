import RailsLookup.Json.Basic
import RailsLookup.Text.Digits

/-! # Reading JSON

Every step of the reader consumes a character, so a bound by the length of the text is
never reached. Arrays and objects nest at most 127 deep.
-/

namespace RailsLookup.Json

namespace Reader

def skipBlanks (t : Text) : Text :=
  t.dropWhile fun c => c == ' ' || c == '\n' || c == '\r' || c == '\t'

def simpleEscape? (c : Char) : Option Char :=
  if c = '"' ∨ c = '\\' ∨ c = '/' then some c
  else if c = 'b' then some '\x08'
  else if c = 'f' then some '\x0c'
  else if c = 'n' then some '\n'
  else if c = 'r' then some '\r'
  else if c = 't' then some '\t'
  else none

def surrogatePair? (high low : Nat) : Option Char :=
  if 0xD800 ≤ high ∧ high < 0xDC00 ∧ 0xDC00 ≤ low ∧ low < 0xE000 then
    some (Char.ofNat (0x10000 + (high - 0xD800) * 0x400 + (low - 0xDC00)))
  else none

/-- A string after its opening quotation mark, with the rest of the text. -/
def string (done : Text) : Text → Option (Text × Text)
  | [] => none
  | '"' :: rest => some (done.reverse, rest)
  | '\\' :: 'u' :: a :: b :: c :: d :: rest => do
    let n ← Digits.number? 16 [a, b, c, d]
    if n < 0xD800 ∨ 0xE000 ≤ n then string (Char.ofNat n :: done) rest
    else
      match rest with
      | '\\' :: 'u' :: e :: f :: g :: h :: rest => do
        let ch ← surrogatePair? n (← Digits.number? 16 [e, f, g, h])
        string (ch :: done) rest
      | _ => none
  | '\\' :: c :: rest => do string ((← simpleEscape? c) :: done) rest
  | c :: rest => if c.toNat < 0x20 ∨ c = '\\' then none else string (c :: done) rest

/-- The integer of a sign and digits, if it has at most 64 bits. -/
def integer? (negative : Bool) (ds : Text) : Option Int :=
  let n := (Digits.number? 10 ds).getD 0
  if negative then if 0 < n ∧ n ≤ 0x8000000000000000 then some (-n) else none
  else if n < 0x10000000000000000 then some n
  else none

def fraction? (t : Text) : Option (Text × Text) :=
  match t with
  | '.' :: rest =>
    let ds := rest.takeWhile Char.isDigit
    if ds.isEmpty then none else some ('.' :: ds, rest.dropWhile Char.isDigit)
  | _ => some ([], t)

def exponent? (t : Text) : Option (Text × Text) :=
  match t with
  | c :: rest =>
    if c = 'e' ∨ c = 'E' then
      let (sign, rest) :=
        match rest with
        | '+' :: rest => (['+'], rest)
        | '-' :: rest => (['-'], rest)
        | _ => ([], rest)
      let ds := rest.takeWhile Char.isDigit
      if ds.isEmpty then none else some (c :: sign ++ ds, rest.dropWhile Char.isDigit)
    else some ([], t)
  | [] => some ([], t)

def number (t : Text) : Option (Json × Text) := do
  let (sign, t) :=
    match t with
    | '-' :: rest => (['-'], rest)
    | _ => ([], t)
  let ds := t.takeWhile Char.isDigit
  guard (!ds.isEmpty && (ds.head? != some '0' || ds.length == 1))
  let (point, rest) ← fraction? (t.dropWhile Char.isDigit)
  let (power, rest) ← exponent? rest
  let spelling := sign ++ ds ++ point ++ power
  if point.isEmpty && power.isEmpty then
    return ((integer? (!sign.isEmpty) ds).elim (real spelling) int, rest)
  return (real spelling, rest)

mutual

def value : Nat → Nat → Text → Option (Json × Text)
  | 0, _, _ => none
  | bound + 1, depth, t =>
    match skipBlanks t with
    | 'n' :: 'u' :: 'l' :: 'l' :: rest => some (null, rest)
    | 't' :: 'r' :: 'u' :: 'e' :: rest => some (bool true, rest)
    | 'f' :: 'a' :: 'l' :: 's' :: 'e' :: rest => some (bool false, rest)
    | '"' :: rest => (string [] rest).map fun (s, rest) => (str s, rest)
    | '[' :: rest =>
      match depth with
      | 0 => none
      | depth + 1 =>
        match skipBlanks rest with
        | ']' :: rest => some (arr [], rest)
        | rest => (items bound depth [] rest).map fun (js, rest) => (arr js, rest)
    | '\x7b' :: rest =>
      match depth with
      | 0 => none
      | depth + 1 =>
        match skipBlanks rest with
        | '\x7d' :: rest => some (obj [], rest)
        | rest => (members bound depth [] rest).map fun (ms, rest) => (obj ms, rest)
    | rest => number rest

def items : Nat → Nat → List Json → Text → Option (List Json × Text)
  | 0, _, _, _ => none
  | bound + 1, depth, done, t =>
    match value bound depth t with
    | none => none
    | some (j, rest) =>
      match skipBlanks rest with
      | ',' :: rest => items bound depth (j :: done) rest
      | ']' :: rest => some ((j :: done).reverse, rest)
      | _ => none

def members : Nat → Nat → List (Text × Json) → Text → Option (List (Text × Json) × Text)
  | 0, _, _, _ => none
  | bound + 1, depth, done, t =>
    match skipBlanks t with
    | '"' :: rest =>
      match string [] rest with
      | none => none
      | some (key, rest) =>
        match skipBlanks rest with
        | ':' :: rest =>
          match value bound depth rest with
          | none => none
          | some (j, rest) =>
            match skipBlanks rest with
            | ',' :: rest => members bound depth ((key, j) :: done) rest
            | '\x7d' :: rest => some (((key, j) :: done).reverse, rest)
            | _ => none
        | _ => none
    | _ => none

end

end Reader

def parse? (t : Text) : Option Json :=
  match Reader.value (t.length + 1) 127 t with
  | some (j, rest) => if (Reader.skipBlanks rest).isEmpty then some j else none
  | none => none

end RailsLookup.Json
