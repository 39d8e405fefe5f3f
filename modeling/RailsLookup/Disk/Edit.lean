import RailsLookup.Disk.Basic

/-! # Changes to a disk

Entries are put at paths below a directory, with the directories on the way made as needed,
and removed with all that lies below them.
-/

namespace RailsLookup.Disk

def set (d : Disk) (place : Place) (e : Entry) : Disk :=
  { d with entries := d.entries.filter (·.1 != place) ++ [(place, e)] }

/-- The directory that the pieces lead to, made if it is missing; `none` if a file is in the
way. -/
def makeDirectories (d : Disk) (place : Place) : List Name → Option (Disk × Place)
  | [] => some (d, place)
  | piece :: rest =>
    if piece.isEmpty || piece == Path.dot then d.makeDirectories place rest
    else if piece == Path.dotDot then d.makeDirectories place.tail rest
    else
      match d.get? (piece :: place) with
      | none => (d.set (piece :: place) .directory).makeDirectories (piece :: place) rest
      | some _ =>
        match d.follow linkLimit place [piece, Path.dot] with
        | some target => d.makeDirectories target rest
        | none => none

/-- The disk with an entry put at a path below a directory. A file is written through a link that
leads to a file. -/
def put (d : Disk) (base : Place) (path : Path) (e : Entry) : Option Disk :=
  match e with
  | .directory => (d.makeDirectories base path.pieces).map (·.1)
  | _ => do
    let name ← path.pieces.getLast?
    let (d, parent) ← d.makeDirectories base path.pieces.dropLast
    let place :=
      match e, d.follow linkLimit parent [name] with
      | .file _, some target => target
      | _, _ => name :: parent
    return d.set place e

def remove (d : Disk) (base : Place) (path : Path) : Option Disk := do
  let name ← path.pieces.getLast?
  let parent ← d.follow linkLimit base path.pieces.dropLast
  return { d with entries := d.entries.filter fun (place, _) => !(name :: parent).isSuffixOf place }

end RailsLookup.Disk
