import RailsLookup.Protocol.Capabilities
import RailsLookup.Text.Basic

/-! # Parameters

What the parameters of a message say, for the messages that have an effect.
-/

namespace RailsLookup

namespace Json

def position? (j : Json) : Option Position := do
  match ← j.fields? false ["line", "character"] with
  | [some line, some column] => return ⟨← line.nat32?, ← column.nat32?⟩
  | _ => none

def document? (j : Json) : Option Url := do
  match ← j.fields? false ["uri"] with
  | [some uri] => uri.url?
  | _ => none

def place? (mixed : Bool) (j : Json) : Option (Url × Position) := do
  match ← j.fields? mixed ["textDocument", "position"] with
  | [some document, some position] => return (← document.document?, ← position.position?)
  | _ => none

end Json

namespace Params

open Shape Protocol

def opened? (j : Json) : Option (Url × Text) := do
  match ← j.fields? false ["textDocument"] with
  | [some item] =>
    match ← item.fields? false ["uri", "languageId", "version", "text"] with
    | [some uri, some language, some version, some content] =>
      guard (text.accepts language && integer.accepts version)
      return (← uri.url?, ← content.text?)
    | _ => none
  | _ => none

/-- The new text of a change. The whole text is sent even if a range is named. -/
def change? (j : Json) : Option Text := do
  match ← j.fields? false ["range", "rangeLength", "text"] with
  | [range?, length?, some content] =>
    guard (acceptsField false range range? && acceptsField false natural length?)
    content.text?
  | _ => none

def changed? (j : Json) : Option (Url × List Text) := do
  match ← j.fields? false ["textDocument", "contentChanges"] with
  | [some document, some changes] =>
    match ← document.fields? false ["uri", "version"] with
    | [some uri, some version] =>
      guard (integer.accepts version)
      return (← uri.url?, ← (← changes.items?).mapM change?)
    | _ => none
  | _ => none

def closed? (j : Json) : Option Url := do
  match ← j.fields? false ["textDocument"] with
  | [some document] => document.document?
  | _ => none

def definition? (j : Json) : Option (Url × Position) := do
  guard ((record true partially).accepts j)
  j.place? true

def command? (j : Json) : Option (Text × List Json) := do
  guard ((record true progress).accepts j)
  match ← j.fields? true ["command", "arguments"] with
  | [some name, none] => return (← name.text?, [])
  | [some name, some arguments] => return (← name.text?, ← arguments.items?)
  | _ => none

def startFields : List (String × Bool × Shape) :=
  [may "processId" natural, may "rootPath" text, may "rootUri" url,
    may "initializationOptions" anything,
    needs "capabilities" Capabilities.all,
    may "trace" (word ["off", "messages", "verbose"]),
    may "workspaceFolders" (list (record false [needs "uri" url, needs "name" text])),
    may "clientInfo" (record false [needs "name" text, may "version" text]),
    may "locale" text]

/-- The URLs that may name the workspace: that of the first folder and that of the root. -/
def start? (j : Json) : Option (Option Url × Option Url) := do
  guard ((record false startFields).accepts j)
  match ← j.fields? false (startFields.map (·.1)) with
  | [_, _, root?, _, _, _, folders?, _, _] =>
    let folder? := (folders?.bind Json.items?).bind List.head?
    let uri? := (folder?.bind (·.fields? false ["uri", "name"])).bind (·.head?.join)
    return (uri?.bind Json.url?, root?.bind Json.url?)
  | _ => none

end Params

end RailsLookup
