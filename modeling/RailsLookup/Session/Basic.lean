import RailsLookup.Lookup.Resolution
import RailsLookup.Protocol.Decoder
import RailsLookup.Protocol.DocumentRange
import RailsLookup.Settings.Load

/-! # Sessions

The state of a server: the workspace with its settings, and the texts of the open documents by
the texts of their URLs.
-/

namespace RailsLookup

/-- Open documents, each once. -/
abbrev Documents := List (Text × Text)

namespace Documents

def get? (ds : Documents) (uri : Text) : Option Text := ds.lookup uri

def erase (ds : Documents) (uri : Text) : Documents := ds.filter (·.1 != uri)

def put (ds : Documents) (uri content : Text) : Documents := (uri, content) :: erase ds uri

end Documents

inductive Phase where
  | waiting
  | running
  | stopping
  | exited
  deriving DecidableEq, Repr

structure Session where
  phase : Phase := .waiting
  workspace? : Option Path := none
  settings : Settings := {}
  documents : Documents := []
  hasClient : Bool := true

namespace Session

/-- A session without a client in a workspace whose own settings it has. -/
def inWorkspace (d : Disk) (root : Path) : Session :=
  { workspace? := some root, settings := .ofProject d root, hasClient := false }

def isOpen (s : Session) (uri : Text) : Bool := (s.documents.get? uri).isSome

def content? (s : Session) (c : Decoder) (d : Disk) (uri : Text) : Option Text :=
  match s.documents.get? uri with
  | some content => some content
  | none => (c.path? uri).bind d.readText?

def context (s : Session) (c : Decoder) (d : Disk) (uri : Text) : Context :=
  { disk := d, workspace? := s.workspace?, document? := c.path? uri, settings := s.settings }

def definition? (s : Session) (c : Decoder) (d : Disk) (uri content : Text) (p : Position) :
    Option DocumentRange :=
  ((s.context c d uri).resolve? content p).bind Location.toDocumentRange?

def definitionAt? (s : Session) (c : Decoder) (d : Disk) (uri : Text) (p : Position) :
    Option DocumentRange :=
  (s.content? c d uri).bind fun content => s.definition? c d uri content p

end Session

end RailsLookup
