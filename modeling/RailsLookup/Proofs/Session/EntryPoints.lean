import Mathlib
import RailsLookup.Proofs.Disk.Below
import RailsLookup.Proofs.Protocol.Decoders
import RailsLookup.Session.Receive

/-! # The ways to ask for a definition

A definition can be asked for by its own request or by the command, whose arguments have two
forms. All of them come to one search, which reads the file if the document is not open.
-/

namespace RailsLookup

namespace Message

def request (id : Json) (method : String) (params : Json) : Message :=
  { method := method.toList, id? := some id, params? := some params }

def definition (id uri position : Json) : Message :=
  request id "textDocument/definition" (.ofPlace uri position)

def command (id : Json) (arguments : List Json) : Message :=
  request id "workspace/executeCommand" (.ofCommand arguments)

end Message

namespace Session

variable {s : Session} {c : Decoder} {d : Disk} {user? : Option Path} {id : Json}
  {arguments : List Json} {u : Text} {url : Url} {position : Json} {p : Position}

theorem receive_request {method : String} {params : Json} {q : Question}
    (hq : Call.ofName method.toList = .question q) :
    s.receive c d user? (.request id method params) =
      (s, if s.phase = .running then s.answer c d q params
        else if s.phase = .exited then {} else { reply? := some (.refusal s.refusal) }) := by
  cases hs : s.phase <;> simp [receive, Message.request, refuse, hs, hq]

theorem answer_definition {params : Json} (h : c.definition? params = some (url, p)) :
    s.answer c d .definition params =
      { reply? := some (.result (rangeJson (s.definitionAt? c d url.toText p))) } := by
  rw [answer, h]

theorem answer_command {params : Json} (hc : c.command? params = some (commandName, arguments))
    (h : commandPlace? c arguments = some (url, p)) :
    s.answer c d .command params =
      { reply? := some (.result (rangeJson (s.definitionAt? c d url.toText p)))
        announcements := if (s.definitionAt? c d url.toText p).isNone ∧ s.hasClient = true
          then [.shown "No definition found".toList] else [] } := by
  rw [answer, hc]
  dsimp only
  rw [if_pos rfl, h]
  dsimp only
  cases s.definitionAt? c d url.toText p with
  | some r => rfl
  | none => simp only [rangeJson, announce, Option.isNone_none, true_and]

theorem answer_command_of_none {params : Json}
    (hc : c.command? params = some (commandName, arguments))
    (h : commandPlace? c arguments = none) :
    s.answer c d .command params = { reply? := some (.refusal .badArguments) } := by
  rw [answer, hc]
  dsimp only
  rw [if_pos rfl, h]

theorem commandPlace?_of_place (hc : c.Lawful) (hu : c.url? u = some url)
    (hp : c.position? position = some p)
    (h : (∃ more, arguments = .str u :: position :: more) ∨
      arguments = [.ofPlace (.str u) position]) : commandPlace? c arguments = some (url, p) := by
  obtain ⟨more, rfl⟩ | rfl := h
  · have hu' : c.urlIn? (.str u) = some url := hu
    simp [commandPlace?, hu', hp]
  · exact hc.place?_ofPlace hu hp

theorem commandPlace?_eq_none (hone : ∀ place, arguments = [place] → c.place? place = none)
    (htwo : ∀ uri position more, arguments = uri :: position :: more →
      c.urlIn? uri = none ∨ c.position? position = none) : commandPlace? c arguments = none := by
  rcases arguments with _ | ⟨uri, _ | ⟨position, more⟩⟩
  · rfl
  · exact hone uri rfl
  · rcases htwo uri position more rfl with h | h <;> simp [commandPlace?, h]

/-- The definition in a document that is not open is that in its file. -/
theorem definitionAt?_of_not_open {uri : Text} (h : s.documents.get? uri = none) :
    s.definitionAt? c d uri p = (c.path? uri).bind fun path =>
      (Context.resolveInFile? { disk := d, workspace? := s.workspace?, settings := s.settings }
        path p).bind Location.toDocumentRange? := by
  unfold definitionAt? content? definition? context
  rw [h]
  cases c.path? uri with
  | none => rfl
  | some path =>
    simp [Context.resolveInFile?, Option.bind_assoc]

theorem definitionAt?_of_open {uri content : Text} (h : s.documents.get? uri = some content) :
    s.definitionAt? c d uri p = ((s.context c d uri).resolve? content p).bind
      Location.toDocumentRange? := by
  simp [definitionAt?, content?, h, definition?]

/-- With every lawful decoder, the answer to a request for a definition and the answers to the
command for the same URL and position, in either form of its arguments, carry one location or all
carry none. Only the command tells a client that there is none. The location is looked for in the
text of the document if it is open and else in the file that the URL names, however it is spelled.
Arguments of neither form are refused. No phase but the running one gives a location or tells the
two apart, and the session stays as it was. -/
theorem receive_agrees (c : Decoder) (hc : c.Lawful) (s : Session) (d : Disk)
    (user? : Option Path) (id : Json) (u : Text) (url : Url) (position : Json) (p : Position)
    (hu : c.url? u = some url) (hp : c.position? position = some p) :
    (∃ location? : Option DocumentRange,
      s.answer c d .definition (.ofPlace (.str u) position) =
        { reply? := some (.result (rangeJson location?)) } ∧
      (∀ arguments, ((∃ more, arguments = .str u :: position :: more) ∨
          arguments = [.ofPlace (.str u) position]) →
        s.answer c d .command (.ofCommand arguments) =
          { reply? := some (.result (rangeJson location?))
            announcements := if location?.isNone ∧ s.hasClient = true
              then [.shown "No definition found".toList] else [] }) ∧
      (∀ content, s.documents.get? url.toText = some content →
        location? =
          (Context.resolve?
            { disk := d, workspace? := s.workspace?, document? := c.path? u,
              settings := s.settings } content p).bind Location.toDocumentRange?) ∧
      (s.documents.get? url.toText = none →
        location? = (c.path? u).bind fun path =>
          (Context.resolveInFile?
            { disk := d, workspace? := s.workspace?, settings := s.settings } path p).bind
              Location.toDocumentRange?)) ∧
    (∀ arguments, (∀ place, arguments = [place] → c.place? place = none) →
      (∀ uri position more, arguments = uri :: position :: more →
        c.urlIn? uri = none ∨ c.position? position = none) →
      s.answer c d .command (.ofCommand arguments) = { reply? := some (.refusal .badArguments) } ∧
      Refusal.badArguments.code = -32602) ∧
    (s.phase = .running →
      s.receive c d user? (.definition id (.str u) position) =
        (s, s.answer c d .definition (.ofPlace (.str u) position)) ∧
      ∀ arguments, s.receive c d user? (.command id arguments) =
        (s, s.answer c d .command (.ofCommand arguments))) ∧
    (s.phase ≠ .running → ∃ reply?, (∀ j, reply? ≠ some (Reply.result j)) ∧
      s.receive c d user? (.definition id (.str u) position) = (s, { reply? }) ∧
      ∀ arguments, s.receive c d user? (.command id arguments) = (s, { reply? })) := by
  have hdefinition : Call.ofName "textDocument/definition".toList = .question .definition := rfl
  have hcommand : Call.ofName "workspace/executeCommand".toList = .question .command := rfl
  unfold Message.definition Message.command
  simp only [receive_request hdefinition, receive_request hcommand]
  refine ⟨⟨s.definitionAt? c d url.toText p, answer_definition (hc.definition?_ofPlace hu hp),
    fun arguments h => ?_, fun content h => ?_, fun h => ?_⟩, fun arguments hone htwo => ⟨?_, rfl⟩,
    fun hs => ?_, fun hs => ?_⟩
  · exact answer_command (hc.command?_ofCommand arguments) (commandPlace?_of_place hc hu hp h)
  · rw [definitionAt?_of_open h, context, hc.path?_toText hu]
  · rw [definitionAt?_of_not_open h, hc.path?_toText hu]
  · exact answer_command_of_none (hc.command?_ofCommand arguments) (commandPlace?_eq_none hone htwo)
  · simp [hs]
  · refine ⟨if s.phase = .exited then none else some (.refusal s.refusal), ?_⟩
    by_cases he : s.phase = .exited <;> simp [hs, he]

/-- A disk with one file at the root, which calls its own method. -/
def page : Disk where
  entries := [(.ofStrings ["page.rb"], .file (Text.utf8 "def show\nend\nshow\n".toList))]

def pageUrl : Url :=
  { scheme := "file".toList, authority? := some {}, path := .segments ["page.rb".toList] }

theorem receive_agrees_page :
    let s : Session := { phase := .running }
    let u := "FILE:///lib/../page.rb".toList
    let position := Json.mkObj [("line", .ofNat 2), ("character", .ofNat 1)]
    let reply := Reply.result (rangeJson (some ⟨pageUrl, ⟨0, 0⟩, ⟨0, 0⟩⟩))
    let c := Decoder.standard
    c.Lawful ∧ c.url? u = some pageUrl ∧ c.position? position = some ⟨2, 1⟩ ∧
    s.receive c page none (.definition .null (.str u) position) = (s, { reply? := some reply }) ∧
    s.receive c page none (.command .null [.str u, position, .null]) =
      (s, { reply? := some reply }) := by
  have hu : Decoder.standard.url? "FILE:///lib/../page.rb".toList = some pageUrl := by cbv
  have hp : Decoder.standard.position?
      (Json.mkObj [("line", .ofNat 2), ("character", .ofNat 1)]) = some ⟨2, 1⟩ := rfl
  obtain ⟨⟨location?, hd, hc, -, hl⟩, -, hr, -⟩ :=
    receive_agrees .standard Decoder.lawful_standard { phase := .running } page none .null _ _ _ _
      hu hp
  obtain ⟨hd', hc'⟩ := hr rfl
  have hl : location? = some ⟨pageUrl, ⟨0, 0⟩, ⟨0, 0⟩⟩ := (hl rfl).trans (by cbv)
  subst hl
  refine ⟨Decoder.lawful_standard, hu, hp, ?_, ?_⟩
  · rw [hd', hd]
  · rw [hc', hc _ (.inl ⟨[.null], rfl⟩)]
    rfl

end Session

end RailsLookup
