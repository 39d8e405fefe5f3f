/-! # Text, lines and positions

A text is a list of characters. Lines end at a line feed, a carriage return just
before it belongs to the line's end, and an unfinished last line counts only if it
is not empty. Positions count lines and, within a line, characters.
-/

namespace RailsLookup

abbrev Text := List Char

/-- A zero-based line and a column in characters. -/
structure Position where
  line : Nat
  column : Nat
  deriving DecidableEq, Repr

namespace Position

def start : Position := ⟨0, 0⟩

def advance (p : Position) (c : Char) : Position :=
  if c = '\n' then ⟨p.line + 1, 0⟩ else ⟨p.line, p.column + 1⟩

def after (t : Text) : Position := t.foldl advance start

end Position

namespace Text

def lines : Text → List Text
  | [] => []
  | '\r' :: '\n' :: rest => [] :: lines rest
  | '\n' :: rest => [] :: lines rest
  | c :: rest =>
    match lines rest with
    | [] => [[c]]
    | l :: ls => (c :: l) :: ls

def byteSize (t : Text) : Nat := t.foldr (fun c n => c.utf8Size + n) 0

/-- The characters that fill the first `n` bytes, all of them when there are fewer; `none` if the
cut falls inside a character. -/
def takeBytes? : Text → Nat → Option Text
  | _, 0 => some []
  | [], _ => some []
  | c :: rest, n =>
    if n < c.utf8Size then none else (takeBytes? rest (n - c.utf8Size)).map (c :: ·)

/-- The position of a byte offset, clamped to the text; `none` inside a character. -/
def positionAt? (t : Text) (offset : Nat) : Option Position :=
  (t.takeBytes? offset).map Position.after

def occurs (sub : Text) : Text → Bool
  | [] => sub.isEmpty
  | c :: rest => sub.isPrefixOf (c :: rest) || occurs sub rest

theorem occurs_iff_infix {sub t : Text} : occurs sub t ↔ sub <:+: t := by
  induction t with
  | nil => simp [occurs]
  | cons c rest ih => simp [occurs, List.infix_cons_iff, ih]

/-- The parts before and after the last occurrence of the nonempty `mark`. -/
def cutLast (mark : Text) : Text → Option (Text × Text)
  | [] => none
  | c :: rest =>
    match cutLast mark rest with
    | some (front, back) => some (c :: front, back)
    | none => if mark.isPrefixOf (c :: rest) then some ([], (c :: rest).drop mark.length) else none

def stripSuffix (t suffix : Text) : Text :=
  if suffix.isSuffixOf t then t.take (t.length - suffix.length) else t

def replaceChar (a b : Char) (t : Text) : Text := t.map fun c => if c = a then b else c

end Text

end RailsLookup
