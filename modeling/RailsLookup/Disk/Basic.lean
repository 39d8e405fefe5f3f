import RailsLookup.Path

/-! # Disks

A disk is a finite table of files, directories and symbolic links. Looking up a path
follows links, at most forty in a row of components.
-/

namespace RailsLookup

inductive Entry where
  | file (content : Bytes)
  | directory
  | link (target : Path)
  deriving DecidableEq, Repr

/-- Where an entry is: its name, that of its directory and so on up to the root. -/
abbrev Place := List Name

structure Disk where
  entries : List (Place × Entry) := []
  working : Place := []

namespace Disk

def get? (d : Disk) : Place → Option Entry
  | [] => some .directory
  | place => d.entries.lookup place

def linkLimit : Nat := 40

/-- The place that the pieces of a path lead to from a directory, following at most `links` links.
Only a directory has places below it. -/
def follow (d : Disk) : Nat → Place → List Name → Option Place
  | _, place, [] => some place
  | links, place, piece :: rest =>
    if piece.isEmpty || piece == Path.dot then d.follow links place rest
    else if piece == Path.dotDot then d.follow links place.tail rest
    else
      match d.get? (piece :: place) with
      | none => none
      | some .directory => d.follow links (piece :: place) rest
      | some (.file _) => if rest.isEmpty then some (piece :: place) else none
      | some (.link target) =>
        match links with
        | 0 => none
        | links + 1 =>
          d.follow links (if target.isAbsolute then [] else place) (target.pieces ++ rest)
termination_by links _ pieces => (links, pieces.length)

def lookup? (d : Disk) (p : Path) : Option Place :=
  if p.bytes.isEmpty then none
  else d.follow linkLimit (if p.isAbsolute then [] else d.working) p.pieces

def read? (d : Disk) (p : Path) : Option Bytes :=
  match (d.lookup? p).bind d.get? with
  | some (.file content) => some content
  | _ => none

def isFile (d : Disk) (p : Path) : Bool := (d.read? p).isSome

def readText? (d : Disk) (p : Path) : Option Text := (d.read? p).map Utf8.decode

end Disk

end RailsLookup
