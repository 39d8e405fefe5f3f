import Mathlib
import RailsLookup.Proofs.Url.Spelling
import RailsLookup.Protocol.Decoder
import RailsLookup.Protocol.Message

/-! # Lawful decoders

What a session needs of the way it reads messages: the text of a URL is one more spelling of its
path, and a document with a position is read alike wherever it stands. The decoder of the server
keeps to this.
-/

namespace RailsLookup

def Json.ofPlace (uri position : Json) : Json :=
  .mkObj [("textDocument", .mkObj [("uri", uri)]), ("position", position)]

def Json.ofCommand (arguments : List Json) : Json :=
  .mkObj [("command", .str commandName), ("arguments", .arr arguments)]

structure Decoder.Lawful (c : Decoder) : Prop where
  /-- The text of a URL that was read leads to the same file. -/
  path?_toText {t : Text} {url : Url} : c.url? t = some url → c.path? url.toText = c.path? t
  place?_ofPlace {u : Text} {url : Url} {position : Json} {p : Position} :
    c.url? u = some url → c.position? position = some p →
      c.place? (.ofPlace (.str u) position) = some (url, p)
  definition?_ofPlace {u : Text} {url : Url} {position : Json} {p : Position} :
    c.url? u = some url → c.position? position = some p →
      c.definition? (.ofPlace (.str u) position) = some (url, p)
  command?_ofCommand (arguments : List Json) :
    c.command? (.ofCommand arguments) = some (commandName, arguments)

variable {u : Text} {url : Url} {position : Json} {p : Position}

theorem Json.place?_ofPlace (hu : Url.parse? u = some url) (hp : position.position? = some p)
    (mixed : Bool) : (ofPlace (.str u) position).place? mixed = some (url, p) := by
  have hd : (Json.mkObj [("uri", .str u)]).document? = some url := hu
  have hf : (ofPlace (.str u) position).fields? mixed ["textDocument", "position"] =
      some [some (.mkObj [("uri", .str u)]), some position] := rfl
  rw [place?, hf]
  simp [hd, hp]

/-- A record accepts a value in which all its fields are absent if none of them is needed. -/
theorem Shape.accepts_absent {mixed : Bool} {fields : List (String × Bool × Shape)} {j : Json}
    (hf : j.fields? mixed (fields.map (·.1)) = some (fields.map fun _ => none))
    (hn : fields.any (·.2.1) = false) : (record mixed fields).accepts j = true := by
  have hall (fields : List (String × Bool × Shape)) (hn : fields.any (·.2.1) = false) :
      acceptsFields fields (fields.map fun _ => none) = true := by
    induction fields with
    | nil => simp [acceptsFields]
    | cons field fields ih =>
      obtain ⟨name, required, shape⟩ := field
      obtain ⟨rfl, hn⟩ := Bool.or_eq_false_iff.mp (List.any_cons ▸ hn)
      rw [List.map_cons, acceptsFields, acceptsField, ih hn]
      rfl
  rw [accepts, hf]
  exact hall fields hn

theorem Params.definition?_ofPlace (hu : Url.parse? u = some url)
    (hp : position.position? = some p) :
    definition? (.ofPlace (.str u) position) = some (url, p) := by
  have ha : (Shape.record true Protocol.partially).accepts (.ofPlace (.str u) position) = true :=
    Shape.accepts_absent rfl rfl
  rw [definition?, ha, Json.place?_ofPlace hu hp]
  rfl

theorem Params.command?_ofCommand (arguments : List Json) :
    command? (.ofCommand arguments) = some (commandName, arguments) := by
  rw [command?, Shape.accepts_absent rfl rfl]
  rfl

theorem Decoder.lawful_standard : Decoder.standard.Lawful where
  path?_toText := Url.ofUrlText?_toText
  place?_ofPlace hu hp := Json.place?_ofPlace hu hp false
  definition?_ofPlace := Params.definition?_ofPlace
  command?_ofCommand := Params.command?_ofCommand

end RailsLookup
