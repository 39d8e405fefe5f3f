import RailsLookup.Toml.Basic
import RailsLookup.Text.Digits

/-! # TOML scalars

Strings in their four forms, and the words that write booleans, numbers and dates.
-/

namespace RailsLookup.Toml

def isPrintable (c : Char) : Bool := c == '\t' || (0x20 ≤ c.toNat && c.toNat != 0x7F)

def isSpaceOrTab (c : Char) : Bool := c == ' ' || c == '\t'

def newline? : Text → Option Text
  | '\n' :: rest => some rest
  | '\r' :: '\n' :: rest => some rest
  | _ => none

def scalarValue? (ds : Text) : Option Char := do
  let n ← Digits.number? 16 ds
  if n < 0xD800 ∨ (0xE000 ≤ n ∧ n < 0x110000) then some (Char.ofNat n) else none

def simpleEscape? (c : Char) : Option Char :=
  if c = '"' ∨ c = '\\' then some c
  else if c = 'b' then some '\x08'
  else if c = 'e' then some '\x1b'
  else if c = 'f' then some '\x0c'
  else if c = 'n' then some '\n'
  else if c = 'r' then some '\r'
  else if c = 't' then some '\t'
  else none

def basicString (done : Text) : Text → Option (Text × Text)
  | [] => none
  | '"' :: rest => some (done.reverse, rest)
  | '\\' :: 'x' :: a :: b :: rest => do basicString ((← scalarValue? [a, b]) :: done) rest
  | '\\' :: 'u' :: a :: b :: c :: d :: rest => do
    basicString ((← scalarValue? [a, b, c, d]) :: done) rest
  | '\\' :: 'U' :: a :: b :: c :: d :: e :: f :: g :: h :: rest => do
    basicString ((← scalarValue? [a, b, c, d, e, f, g, h]) :: done) rest
  | '\\' :: c :: rest => do basicString ((← simpleEscape? c) :: done) rest
  | c :: rest => if isPrintable c then basicString (c :: done) rest else none

/-- A string between three double quotation marks. Blanks are skipped after a backslash that ends a
line. -/
def longBasicString (skipping : Bool) (done : Text) : Text → Option (Text × Text)
  | [] => none
  | '"' :: '"' :: '"' :: '"' :: '"' :: rest => some (('"' :: '"' :: done).reverse, rest)
  | '"' :: '"' :: '"' :: '"' :: rest => some (('"' :: done).reverse, rest)
  | '"' :: '"' :: '"' :: rest => some (done.reverse, rest)
  | '\\' :: 'x' :: a :: b :: rest => do
    longBasicString false ((← scalarValue? [a, b]) :: done) rest
  | '\\' :: 'u' :: a :: b :: c :: d :: rest => do
    longBasicString false ((← scalarValue? [a, b, c, d]) :: done) rest
  | '\\' :: 'U' :: a :: b :: c :: d :: e :: f :: g :: h :: rest => do
    longBasicString false ((← scalarValue? [a, b, c, d, e, f, g, h]) :: done) rest
  | '\\' :: c :: rest =>
    if (newline? ((c :: rest).dropWhile isSpaceOrTab)).isSome then
      longBasicString true done (c :: rest)
    else do longBasicString false ((← simpleEscape? c) :: done) rest
  | '\r' :: '\n' :: rest =>
    longBasicString skipping (if skipping then done else '\n' :: '\r' :: done) rest
  | c :: rest =>
    if skipping && (isSpaceOrTab c || c == '\n') then longBasicString true done rest
    else if isPrintable c || c == '\n' then longBasicString false (c :: done) rest
    else none

def literalString (done : Text) : Text → Option (Text × Text)
  | [] => none
  | '\'' :: rest => some (done.reverse, rest)
  | c :: rest => if isPrintable c then literalString (c :: done) rest else none

def longLiteralString (done : Text) : Text → Option (Text × Text)
  | [] => none
  | '\'' :: '\'' :: '\'' :: '\'' :: '\'' :: rest => some (('\'' :: '\'' :: done).reverse, rest)
  | '\'' :: '\'' :: '\'' :: '\'' :: rest => some (('\'' :: done).reverse, rest)
  | '\'' :: '\'' :: '\'' :: rest => some (done.reverse, rest)
  | '\r' :: '\n' :: rest => longLiteralString ('\n' :: '\r' :: done) rest
  | c :: rest => if isPrintable c || c == '\n' then longLiteralString (c :: done) rest else none

/-- Digits with single underscores between them, which are left out. -/
def digits? (base : Nat) (t : Text) : Option Text :=
  let parts := t.splitOn '_'
  if parts.all fun p => !p.isEmpty && p.all (Digits.isDigit base) then some parts.flatten else none

def valueOf (base : Nat) (ds : Text) : Nat := (Digits.number? base ds).getD 0

def decimalDigits? (t : Text) : Option Text := do
  let ds ← digits? 10 t
  if ds.head? = some '0' ∧ ds.length ≠ 1 then none else some ds

def signed (t : Text) : Bool × Text :=
  match t with
  | '+' :: rest => (false, rest)
  | '-' :: rest => (true, rest)
  | _ => (false, t)

def integer? (t : Text) : Option Int :=
  match t with
  | '0' :: 'x' :: rest => (digits? 16 rest).map fun ds => valueOf 16 ds
  | '0' :: 'o' :: rest => (digits? 8 rest).map fun ds => valueOf 8 ds
  | '0' :: 'b' :: rest => (digits? 2 rest).map fun ds => valueOf 2 ds
  | _ =>
    let (negative, rest) := signed t
    (decimalDigits? rest).map fun ds => if negative then -(valueOf 10 ds : Int) else valueOf 10 ds

def isExponent (t : Text) : Bool := (digits? 10 (signed t).2).isSome

def isFloat (t : Text) : Bool :=
  let rest := (signed t).2
  if rest = "inf".toList ∨ rest = "nan".toList then true
  else
    let inNumber (c : Char) : Bool := c.isDigit || c == '_'
    let whole := decimalDigits? (rest.takeWhile inNumber)
    match rest.dropWhile inNumber with
    | '.' :: rest =>
      let places := digits? 10 (rest.takeWhile inNumber)
      whole.isSome && places.isSome &&
        match rest.dropWhile inNumber with
        | [] => true
        | c :: power => (c == 'e' || c == 'E') && isExponent power
    | c :: power => whole.isSome && (c == 'e' || c == 'E') && isExponent power
    | [] => false

def twoDigits? (limit : Nat) : Text → Option (Nat × Text)
  | a :: b :: rest =>
    if a.isDigit && b.isDigit && valueOf 10 [a, b] ≤ limit then some (valueOf 10 [a, b], rest)
    else none
  | _ => none

def daysIn (year month : Nat) : Nat :=
  if month = 2 then
    if year % 4 = 0 ∧ (year % 100 ≠ 0 ∨ year % 400 = 0) then 29 else 28
  else if month = 4 ∨ month = 6 ∨ month = 9 ∨ month = 11 then 30
  else 31

def date? : Text → Option Text
  | a :: b :: c :: d :: '-' :: rest => do
    guard ([a, b, c, d].all Char.isDigit)
    let (month, rest) ← twoDigits? 12 rest
    match rest with
    | '-' :: rest =>
      let (day, rest) ← twoDigits? (daysIn (valueOf 10 [a, b, c, d]) month) rest
      guard (month ≠ 0 ∧ day ≠ 0)
      return rest
    | _ => none
  | _ => none

/-- The rest after a time of day, whose seconds may be missing. -/
def time? (t : Text) : Option Text := do
  let (_, t) ← twoDigits? 23 t
  match t with
  | ':' :: t =>
    let (_, t) ← twoDigits? 59 t
    match t with
    | ':' :: t =>
      let (_, t) ← twoDigits? 60 t
      match t with
      | '.' :: t =>
        guard (t.head?.any Char.isDigit)
        return t.dropWhile Char.isDigit
      | _ => return t
    | _ => return t
  | _ => none

def isOffset : Text → Bool
  | [] => true
  | ['Z'] => true
  | ['z'] => true
  | c :: rest =>
    (c == '+' || c == '-') &&
      match twoDigits? 23 rest with
      | some (_, ':' :: rest) =>
        match twoDigits? 59 rest with
        | some (_, []) => true
        | _ => false
      | _ => false

def isDate (t : Text) : Bool :=
  match date? t with
  | some [] => true
  | some (c :: rest) =>
    (c == 'T' || c == 't' || c == ' ') && ((time? rest).map isOffset).getD false
  | none => time? t == some []

def minInteger : Int := -0x80000000000000000000000000000000

def integerLimit : Int := 0x100000000000000000000000000000000

/-- The value that a word writes. Integers have at most 128 bits. -/
def scalar? (t : Text) : Option Toml :=
  if t = "true".toList then some (boolean true)
  else if t = "false".toList then some (boolean false)
  else
    match integer? t with
    | some n => if minInteger ≤ n ∧ n < integerLimit then some (integer n) else none
    | none =>
      if isFloat t then some float
      else if isDate t then some date
      else none

end RailsLookup.Toml
