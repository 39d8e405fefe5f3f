import RailsLookup.Protocol.Params
import RailsLookup.Url.FilePath

/-! # Decoders

How a session reads the URLs and the parameters that a client sends. A session leaves this to its
decoder, so that what it does with them can be said of every way to read them.
-/

namespace RailsLookup

structure Decoder where
  url? : Text → Option Url
  /-- The URLs that may name the workspace: that of the first folder and that of the root. -/
  start? : Json → Option (Option Url × Option Url)
  opened? : Json → Option (Url × Text)
  /-- A document with the texts that it takes one after the other. -/
  changed? : Json → Option (Url × List Text)
  closed? : Json → Option Url
  definition? : Json → Option (Url × Position)
  command? : Json → Option (Text × List Json)
  place? : Json → Option (Url × Position)
  position? : Json → Option Position
  accepts : Shape → Json → Bool

namespace Decoder

def standard : Decoder where
  url? := Url.parse?
  start? := Params.start?
  opened? := Params.opened?
  changed? := Params.changed?
  closed? := Params.closed?
  definition? := Params.definition?
  command? := Params.command?
  place? := Json.place? false
  position? := Json.position?
  accepts := Shape.accepts

def urlIn? (c : Decoder) (j : Json) : Option Url := j.text?.bind c.url?

def path? (c : Decoder) (uri : Text) : Option Path := (c.url? uri).bind Url.toPath?

end Decoder

end RailsLookup
