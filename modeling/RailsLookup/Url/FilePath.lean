import RailsLookup.Path
import RailsLookup.Url.Reader

/-! # URLs of files

An absolute path is written as a `file` URL, component by component. A URL without a foreign
host has a path, whatever its scheme.
-/

namespace RailsLookup.Url

def endsInDrive (bytes : Bytes) : Bool :=
  match bytes.reverse with
  | last :: letter :: _ :: _ =>
    (Char.ofNat letter.toNat).isAlpha && (last == 0x3A || last == 0x7C)
  | _ => false

/-- The path that a URL stands for. A drive at its end gets a slash. -/
def toPath? (u : Url) : Option Path :=
  let host := (u.authority?.map (·.host)).getD []
  match u.path with
  | .segments (s :: ss) =>
    if host.isEmpty || host = "localhost".toList then
      let bytes := (s :: ss).flatMap fun s => Path.slash :: Percent.decode s
      some ⟨if endsInDrive bytes then bytes ++ [Path.slash] else bytes⟩
    else none
  | _ => none

def componentBytes : Path.Component → Bytes
  | .root => []
  | .here => Path.dot
  | .up => Path.dotDot
  | .name n => n

def ofPath? (p : Path) : Option Url :=
  if p.isAbsolute then
    let names := (p.components.drop 1).map componentBytes
    let ss := names.map (Percent.encode Percent.inSegment)
    some {
      scheme := "file".toList
      authority? := some {}
      path := .segments (if ss.isEmpty then [[]] else ss) }
  else none

end RailsLookup.Url

namespace RailsLookup

def Path.ofUrlText? (t : Text) : Option Path := (Url.parse? t).bind Url.toPath?

end RailsLookup
