import RailsLookup.CommandLine.Arguments
import RailsLookup.Session.Wire

/-! # Running a command

What the program prints and how it exits, for its arguments, its input and the disk.
-/

namespace RailsLookup

def Place.toPath (place : Place) : Path :=
  ⟨Path.slash :: [Path.slash].intercalate place.reverse⟩

namespace CommandLine

structure Report where
  exit : Nat
  output : Text := []
  deriving DecidableEq, Repr

def locationLine (l : Location) : Text :=
  (Json.mkObj [("column", .ofNat l.position.column), ("line", .ofNat l.position.line),
    ("path", .str l.path.display)]).render ++ ['\n']

/-- Looks up a definition in the named workspace or else in the working directory. A relative file
is one of the workspace. -/
def locate (d : Disk) (user? : Option Path) (a : LocateArguments) : Option Location :=
  let root :=
    match a.workspace? with
    | some t => Path.ofText t
    | none => d.working.toPath
  let c : Context :=
    { disk := d, workspace? := some root, settings := .load d user? (some root) }
  c.resolveInFile? (root.join (.ofText a.file)) ⟨a.line, a.column⟩

def Invocation.run (d : Disk) (user? : Option Path) (input : Bytes) : Invocation → Report
  | serve => ⟨0, (World.serve { disk := d, user? } input).2⟩
  | locate a =>
    match CommandLine.locate d user? a with
    | some l => ⟨0, locationLine l⟩
    | none => ⟨1, []⟩
  | version => ⟨0, "rails-goto-lsp 0.1.0\n".toList⟩
  | help => ⟨0, []⟩
  | misuse => ⟨2, []⟩

def run (d : Disk) (user? : Option Path) (args : List Text) (input : Bytes) : Report :=
  (Invocation.ofArguments args).run d user? input

end CommandLine

end RailsLookup
