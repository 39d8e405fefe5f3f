import RailsLookup.Text.Utf8

/-! # Paths

A path is a string of bytes, cut into pieces at each slash. It is kept as it was written:
joining adds at most one slash and removes nothing.
-/

namespace RailsLookup

abbrev Name := Bytes

structure Path where
  bytes : Bytes
  deriving DecidableEq, Repr

namespace Path

def slash : UInt8 := 0x2F

def dot : Name := [0x2E]

def dotDot : Name := [0x2E, 0x2E]

def ofText (t : Text) : Path := ⟨t.utf8⟩

def ofString (s : String) : Path := ofText s.toList

def display (p : Path) : Text := Utf8.decode p.bytes

def isAbsolute (p : Path) : Bool := p.bytes.head? == some slash

/-- The second path seen from the first; an absolute one stands for itself. -/
def join (p q : Path) : Path :=
  if q.isAbsolute then q
  else if p.bytes.isEmpty || p.bytes.getLast? == some slash then ⟨p.bytes ++ q.bytes⟩
  else ⟨p.bytes ++ slash :: q.bytes⟩

def joinAll (p : Path) (names : List String) : Path :=
  names.foldl (fun q name => q.join (ofString name)) p

def pieces (p : Path) : List Name := p.bytes.splitOn slash

inductive Component where
  | root
  | here
  | up
  | name (n : Name)
  deriving DecidableEq, Repr

def step? (piece : Name) : Option Component :=
  if piece.isEmpty || piece == dot then none
  else if piece == dotDot then some .up
  else some (.name piece)

/-- The path without the pieces that say nothing. -/
def components (p : Path) : List Component :=
  let steps := p.pieces.filterMap step?
  if p.isAbsolute then .root :: steps
  else if p.pieces.head? == some dot then .here :: steps
  else steps

def fileName? (p : Path) : Option Name :=
  match p.components.getLast? with
  | some (.name n) => some n
  | _ => none

/-- Whether the directory of `p` ends, component by component, in `q`. -/
def parentEndsWith (p q : Path) : Bool := q.components.isSuffixOf p.components.dropLast

end Path

end RailsLookup
