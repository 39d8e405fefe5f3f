import RailsLookup.Protocol.Message
import RailsLookup.Session.Basic

/-! # Receiving messages

A session answers one message at a time. Requests are refused and notifications dropped
before it is initialized and after it is shut down; after it has exited it hears nothing.
-/

namespace RailsLookup

structure Reaction where
  reply? : Option Reply := none
  announcements : List Announcement := []

namespace Session

def announce (s : Session) (a : Announcement) : List Announcement :=
  if s.hasClient then [a] else []

def capabilities : Json :=
  .mkObj [
    ("capabilities", .mkObj [
      ("definitionProvider", .bool true),
      ("executeCommandProvider", .mkObj [("commands", .arr [.str commandName])]),
      ("textDocumentSync", .ofNat 1)]),
    ("serverInfo", .mkObj [("name", .ofString "RailsGoto"), ("version", .ofString "0.1.0")])]

/-- Starts the session in the workspace of the first folder or else of the root. The settings
are read once, from the project or else from the file `user?`. -/
def startIn (s : Session) (d : Disk) (user? : Option Path) (folder? root? : Option Url) : Session :=
  let workspace? := (folder?.bind Url.toPath?).or (root?.bind Url.toPath?)
  { s with phase := .running, workspace?, settings := .load d user? workspace? }

def greeting (s : Session) : Text :=
  match s.workspace? with
  | some root => "RailsGoto initialized for ".toList ++ root.display
  | none => "RailsGoto initialized without a workspace folder".toList

/-- The effect of a notification on a running session; one that cannot be understood has none. -/
def notify (s : Session) (c : Decoder) (n : Notification) (params : Json) :
    Session × List Announcement :=
  match n with
  | .initialized =>
    (s, if c.accepts (.record false []) params then s.announce (.logged s.greeting) else [])
  | .opened =>
    match c.opened? params with
    | some (url, content) => ({ s with documents := s.documents.put url.toText content }, [])
    | none => (s, [])
  | .changed =>
    match c.changed? params with
    | some (url, contents) =>
      match contents.getLast? with
      | some content => ({ s with documents := s.documents.put url.toText content }, [])
      | none => (s, [])
    | none => (s, [])
  | .closed =>
    match c.closed? params with
    | some url => ({ s with documents := s.documents.erase url.toText }, [])
    | none => (s, [])
  | .unheeded => (s, [])

/-- Where a command is to look: one argument with a document and a position, or a URL and a
position and whatever follows. -/
def commandPlace? (c : Decoder) : List Json → Option (Url × Position)
  | [place] => c.place? place
  | uri :: position :: _ => do return (← c.urlIn? uri, ← c.position? position)
  | [] => none

def rangeJson : Option DocumentRange → Json
  | some r => r.toJson
  | none => .null

def answer (s : Session) (c : Decoder) (d : Disk) (q : Question) (params : Json) : Reaction :=
  match q with
  | .definition =>
    match c.definition? params with
    | some (url, p) => { reply? := some (.result (rangeJson (s.definitionAt? c d url.toText p))) }
    | none => { reply? := some (.refusal .unreadableParams) }
  | .command =>
    match c.command? params with
    | none => { reply? := some (.refusal .unreadableParams) }
    | some (name, arguments) =>
      if name = commandName then
        match commandPlace? c arguments with
        | none => { reply? := some (.refusal .badArguments) }
        | some (url, p) =>
          match s.definitionAt? c d url.toText p with
          | some r => { reply? := some (.result r.toJson) }
          | none =>
            { reply? := some (.result .null)
              announcements := s.announce (.shown "No definition found".toList) }
      else { reply? := some (.refusal (.unknownCommand name)) }
  | .unserved shape =>
    { reply? := some (.refusal
        (if c.accepts shape params then .unservedMethod else .unreadableParams)) }

def refusal (s : Session) : Refusal :=
  match s.phase with
  | .waiting => .notInitialized
  | _ => .invalidRequest

def refuse (m : Message) (cause : Refusal) : Reaction :=
  { reply? := m.id?.map fun _ => .refusal cause }

def start (s : Session) (c : Decoder) (d : Disk) (user? : Option Path) (m : Message) :
    Session × Reaction :=
  match s.phase, m.id? with
  | .waiting, some _ =>
    match m.params?.bind c.start? with
    | some (folder?, root?) =>
      (s.startIn d user? folder? root?, { reply? := some (.result capabilities) })
    | none => (s, refuse m .unreadableParams)
  | .waiting, none => (s, {})
  | _, _ => (s, refuse m .invalidRequest)

/-- A running session stops, whether or not the message is a proper request. -/
def stop (s : Session) (m : Message) : Session × Reaction :=
  match s.phase with
  | .running =>
    ({ s with phase := .stopping },
     match m.params? with
     | some _ => refuse m .unreadableParams
     | none => { reply? := m.id?.map fun _ => .result .null })
  | _ => (s, refuse m s.refusal)

def receive (s : Session) (c : Decoder) (d : Disk) (user? : Option Path) (m : Message) :
    Session × Reaction :=
  if s.phase = .exited then (s, {})
  else
    match Call.ofName m.method with
    | .exit => ({ s with phase := .exited }, {})
    | .start => s.start c d user? m
    | .stop => s.stop m
    | .unknown =>
      (s, if "$/".toList.isPrefixOf m.method then {} else refuse m (.unknownMethod m.method))
    | .notification n =>
      if s.phase = .running then
        match m.id?, m.params? with
        | none, some params =>
          let (s, announcements) := s.notify c n params
          (s, { announcements })
        | _, _ => (s, {})
      else (s, refuse m s.refusal)
    | .question q =>
      if s.phase = .running then
        match m.id?, m.params? with
        | some _, some params => (s, s.answer c d q params)
        | some _, none => (s, refuse m .unreadableParams)
        | none, _ => (s, {})
      else (s, refuse m s.refusal)

end Session

end RailsLookup
