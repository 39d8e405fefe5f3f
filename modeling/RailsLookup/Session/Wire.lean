import RailsLookup.Json.Reader
import RailsLookup.Json.Writer
import RailsLookup.Session.Run

/-! # Message streams

Messages travel as bytes, each after a header that gives its length. A stream that cannot be
read ends the session.
-/

namespace RailsLookup

namespace Wire

def newline : UInt8 := 10

def firstLine (input : Bytes) : Bytes :=
  let line := input.takeWhile (· != newline)
  if line.getLast? == some 13 then line.dropLast else line

def afterLine (input : Bytes) : Bytes := (input.dropWhile (· != newline)).drop 1

theorem length_afterLine_lt {input : Bytes} (h : newline ∈ input) :
    (afterLine input).length < input.length := by
  have := List.length_pos_of_mem h
  have : (input.dropWhile (· != newline)).length ≤ input.length :=
    (List.dropWhile_suffix _).length_le
  simp only [afterLine, List.length_drop]
  omega

/-- The lines of a header, and what comes after the empty line at its end. -/
def header? (input : Bytes) : Option (List Bytes × Bytes) :=
  if newline ∈ input then
    if (firstLine input).isEmpty then some ([], afterLine input)
    else (header? (afterLine input)).map fun (lines, rest) => (firstLine input :: lines, rest)
  else none
termination_by input.length
decreasing_by exact length_afterLine_lt ‹_›

theorem length_lt_of_header?_eq_some {input rest : Bytes} {lines : List Bytes}
    (h : header? input = some (lines, rest)) : rest.length < input.length := by
  fun_induction header? input generalizing lines rest with
  | case1 input hm =>
    obtain ⟨-, rfl⟩ := by simpa using h
    exact length_afterLine_lt hm
  | case2 input hm _ ih =>
    obtain ⟨⟨_, _⟩, hr, he⟩ := Option.map_eq_some_iff.1 h
    obtain ⟨-, rfl⟩ := by simpa using he
    exact Nat.lt_trans (ih hr) (length_afterLine_lt hm)
  | case3 => simp at h

def value? (name : String) (line : Bytes) : Option Text := do
  let t ← Utf8.decode? line
  guard (t.takeWhile (· != ':') == name.toList)
  let blank (c : Char) : Bool := c == ' ' || c == '\t'
  return ((t.drop (name.length + 1)).dropWhile blank).reverse.dropWhile blank |>.reverse

def contentLength? (lines : List Bytes) : Option Nat :=
  (lines.filterMap (value? "Content-Length")).getLast?.bind Digits.natural?

inductive Incoming where
  | message (m : Message)
  | stranger
  | garbled

/-- The messages in a stream, up to what cannot be read. -/
def incoming (input : Bytes) : List Incoming :=
  match _h : header? input with
  | none => if input.isEmpty then [] else [.garbled]
  | some (lines, rest) =>
    match contentLength? lines with
    | none => [.garbled]
    | some n =>
      if rest.length < n then if rest.isEmpty then [] else [.garbled]
      else if n = 0 then incoming rest
      else
        match (Utf8.decode? (rest.take n)).bind Json.parse? with
        | none => [.garbled]
        | some j =>
          match Message.ofJson? j with
          | none => [.stranger]
          | some m => .message m :: incoming (rest.drop n)
termination_by input.length
decreasing_by
  · exact length_lt_of_header?_eq_some _h
  · have := length_lt_of_header?_eq_some _h
    simp only [List.length_drop]
    omega

def frame (j : Json) : Text :=
  let body := j.render
  "Content-Length: ".toList ++ Digits.decimal body.byteSize ++ "\r\n\r\n".toList ++ body

end Wire

namespace World

open Wire

/-- The session after it has given up on its stream, and its last word. -/
def hangUp (w : World) (cause : Refusal) : World × Text :=
  ({ w with session := { w.session with phase := .exited } },
   frame (Reply.toJson .null (.refusal cause)))

def sent : Outcome → Text
  | .reaction id r =>
    r.announcements.flatMap (frame ·.toJson) ++
      (match r.reply? with
       | some reply => frame (reply.toJson id)
       | none => [])
  | _ => []

def hear (w : World) : List Incoming → World × Text
  | [] => (w, [])
  | .message m :: rest =>
    let (w, outcome) := w.step (.receive m)
    let (w, later) := w.hear rest
    (w, sent outcome ++ later)
  | .stranger :: _ => w.hangUp .invalidRequest
  | .garbled :: _ => w.hangUp .unreadableMessage

def serve (w : World) (input : Bytes) : World × Text := w.hear (incoming input)

end World

end RailsLookup
