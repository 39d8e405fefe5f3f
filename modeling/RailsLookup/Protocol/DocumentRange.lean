import RailsLookup.Lookup.Context
import RailsLookup.Json.Basic
import RailsLookup.Url.FilePath

/-! # Ranges of documents

What a lookup finds, as it is sent to a client: a URL and a range of positions.
-/

namespace RailsLookup

structure DocumentRange where
  url : Url
  start : Position
  stop : Position
  deriving DecidableEq, Repr

def Position.toJson (p : Position) : Json :=
  .mkObj [("character", .ofNat p.column), ("line", .ofNat p.line)]

def DocumentRange.toJson (r : DocumentRange) : Json :=
  .mkObj [("range", .mkObj [("end", r.stop.toJson), ("start", r.start.toJson)]),
    ("uri", .str r.url.toText)]

/-- The empty range at a location. A relative path has no URL. -/
def Location.toDocumentRange? (l : Location) : Option DocumentRange :=
  (Url.ofPath? l.path).map fun url => ⟨url, l.position, l.position⟩

end RailsLookup
