import RailsLookup.Disk.Edit
import RailsLookup.Session.Receive

/-! # Running a session

A session lives on a disk that may change under it. Its steps are messages, changes to the
disk and questions about its state, and each step has an outcome.
-/

namespace RailsLookup

structure World where
  disk : Disk
  user? : Option Path := none
  session : Session := {}
  /-- How the session reads messages. -/
  decoder : Decoder := .standard

inductive Step where
  | receive (m : Message)
  | write (base : Place) (path : Path) (entry : Entry)
  | remove (base : Place) (path : Path)
  | workspace
  | isOpen (uri : Text)
  | content (uri : Text)
  | definition (uri content : Text) (p : Position)
  | definitionAt (uri : Text) (p : Position)

inductive Outcome where
  | done
  | workspace (path? : Option Path)
  | isOpen (b : Bool)
  | content (text? : Option Text)
  | definition (range? : Option DocumentRange)
  | reaction (id : Json) (r : Reaction)
  | exited

namespace World

/-- One step. A change that the disk does not admit leaves it as it is. -/
def step (w : World) : Step → World × Outcome
  | .receive m =>
    if w.session.phase = .exited then (w, .exited)
    else
      let (session, reaction) := w.session.receive w.decoder w.disk w.user? m
      ({ w with session }, .reaction (m.id?.getD .null) reaction)
  | .write base path entry =>
    ({ w with disk := (w.disk.put base path entry).getD w.disk }, .done)
  | .remove base path => ({ w with disk := (w.disk.remove base path).getD w.disk }, .done)
  | .workspace => (w, .workspace w.session.workspace?)
  | .isOpen uri => (w, .isOpen (w.session.isOpen uri))
  | .content uri => (w, .content (w.session.content? w.decoder w.disk uri))
  | .definition uri content p =>
    (w, .definition (w.session.definition? w.decoder w.disk uri content p))
  | .definitionAt uri p => (w, .definition (w.session.definitionAt? w.decoder w.disk uri p))

def run (w : World) : List Step → World × List Outcome
  | [] => (w, [])
  | step :: steps =>
    let (w, outcome) := w.step step
    let (w, outcomes) := w.run steps
    (w, outcome :: outcomes)

end World

end RailsLookup
