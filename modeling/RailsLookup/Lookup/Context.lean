import RailsLookup.Settings.Basic

/-! # Lookups

What a lookup is given, what it finds and how it fails.
-/

namespace RailsLookup

structure Location where
  path : Path
  position : Position
  deriving DecidableEq, Repr

inductive LookupError where
  | noWorkspace
  | notFound (name : Text)
  | unreadable (path : Path) (cause : Text)
  | badSettings (path : Path) (cause : Text)
  deriving DecidableEq, Repr

namespace LookupError

def message : LookupError → Text
  | noWorkspace => "no workspace root is configured".toList
  | notFound name => "no definition found for `".toList ++ name ++ "`".toList
  | unreadable path cause => "failed to read ".toList ++ path.display ++ ": ".toList ++ cause
  | badSettings path cause =>
    "invalid configuration in ".toList ++ path.display ++ ": ".toList ++ cause

/-- Whether the error is an everyday outcome of a search. -/
def isExpected : LookupError → Bool
  | noWorkspace | notFound _ => true
  | unreadable .. | badSettings .. => false

end LookupError

structure Context where
  disk : Disk
  workspace? : Option Path := none
  /-- The path of the document that holds the reference. -/
  document? : Option Path := none
  settings : Settings := {}

namespace Context

def workspace (c : Context) : Except LookupError Path :=
  match c.workspace? with
  | some root => .ok root
  | none => .error .noWorkspace

def foundOr (name : Text) : Option Location → Except LookupError Location
  | some location => .ok location
  | none => .error (.notFound name)

end Context

end RailsLookup
