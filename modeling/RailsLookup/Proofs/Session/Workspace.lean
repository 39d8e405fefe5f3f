import RailsLookup.Proofs.Session.Phase

/-! # The workspace and its settings

A session has the workspace and the settings that it was made with until a message starts it.
That message gives it both, the settings as they are read from the disk of that moment, and
nothing that comes later changes either.
-/

namespace RailsLookup

namespace Session

/-- How a session is made: without a workspace, or without a client in a given one. -/
inductive Origin where
  | bare (hasClient : Bool)
  | rooted (root : Path)

def Origin.session (d : Disk) : Origin → Session
  | bare hasClient => { hasClient }
  | rooted root => inWorkspace d root

variable {s : Session} {c : Decoder} {d : Disk} {user? : Option Path} {m : Message}
  {folder? root? : Option Url}

end Session

namespace Step

/-- The message after the steps `before` is the one that starts the session. -/
def StartedBy (c : Decoder) (steps before : List Step) (m : Message) : Prop :=
  ∃ later, steps = before ++ .receive m :: later ∧ Waiting c before ∧ m.Starts c

variable {c : Decoder} {steps before before' : List Step} {step : Step} {m m' : Message}

theorem StartedBy.append (h : StartedBy c steps before m) (more : List Step) :
    StartedBy c (steps ++ more) before m := by
  obtain ⟨later, rfl, hb, hm⟩ := h
  exact ⟨later ++ more, by simp, hb, hm⟩

/-- One message at most starts a session: of two, the later one would come too late. -/
theorem StartedBy.unique (h : StartedBy c steps before m) (h' : StartedBy c steps before' m') :
    before' = before ∧ m' = m := by
  obtain ⟨later, rfl, hb, hm⟩ := h
  obtain ⟨later', he, hb', hm'⟩ := h'
  rcases List.append_eq_append_iff.mp he with ⟨gap, rfl, hg⟩ | ⟨gap, rfl, hg⟩
  · cases gap with
    | nil =>
      obtain ⟨hm, _⟩ := List.cons.inj hg
      exact ⟨by simp, (Step.receive.inj hm).symm⟩
    | cons first gap =>
      obtain ⟨rfl, _⟩ := List.cons.inj hg
      exact ((hb' m (by simp)).1 hm).elim
  · cases gap with
    | nil =>
      obtain ⟨hm, _⟩ := List.cons.inj hg
      exact ⟨by simp, Step.receive.inj hm⟩
    | cons first gap =>
      obtain ⟨rfl, _⟩ := List.cons.inj hg
      exact ((hb m' (by simp)).1 hm').elim

end Step

namespace World

variable {w : World} {steps before : List Step} {step : Step} {m : Message}
  {folder? root? : Option Url}

end World

end RailsLookup
