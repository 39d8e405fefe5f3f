import Mathlib.Data.List.Induction
import RailsLookup.Session.Run

/-! # The phases of a session

A session runs from the first request to start that it understands until a message to stop or
to exit. So the messages that it was sent tell whether it runs.
-/

namespace RailsLookup

namespace Call

variable {name : Text} {c : Call} {s : String}

theorem mem_table_of_ofName (h : ofName name = c) (hc : c ≠ unknown) :
    ∃ s, (s, c) ∈ table ∧ s.toList = name := by
  unfold ofName at h
  cases hf : table.find? (·.1.toList == name) with
  | none =>
    rw [hf] at h
    exact absurd h.symm hc
  | some e =>
    rw [hf] at h
    obtain rfl : e.2 = c := h
    exact ⟨e.1, List.mem_of_find?_eq_some hf, by simpa using List.find?_some hf⟩

theorem ofName_eq_iff (hs : ofName s.toList = c) (hc : c ≠ unknown)
    (hu : ∀ s', (s', c) ∈ table → s' = s) : ofName name = c ↔ name = s.toList := by
  constructor
  · intro h
    obtain ⟨s', hm, rfl⟩ := mem_table_of_ofName h hc
    rw [hu s' hm]
  · rintro rfl
    exact hs

theorem ofName_eq_start_iff : ofName name = .start ↔ name = "initialize".toList :=
  ofName_eq_iff rfl (by simp) (by simp [table])

theorem ofName_eq_stop_iff : ofName name = .stop ↔ name = "shutdown".toList :=
  ofName_eq_iff rfl (by simp) (by simp [table])

theorem ofName_eq_exit_iff : ofName name = .exit ↔ name = "exit".toList :=
  ofName_eq_iff rfl (by simp) (by simp [table])

end Call

namespace Message

/-- A request to start a session, with parameters that can be understood. -/
def Starts (c : Decoder) (m : Message) : Prop :=
  m.method = "initialize".toList ∧ m.id?.isSome ∧ (m.params?.bind c.start?).isSome
  deriving Decidable

def Stops (m : Message) : Prop := m.method = "shutdown".toList
  deriving Decidable

def Exits (m : Message) : Prop := m.method = "exit".toList
  deriving Decidable

variable {c : Decoder} {m : Message}

theorem starts_iff :
    m.Starts c ↔ Call.ofName m.method = .start ∧ m.id?.isSome ∧
      (m.params?.bind c.start?).isSome := by
  rw [Call.ofName_eq_start_iff, Starts]

theorem stops_iff : m.Stops ↔ Call.ofName m.method = .stop := by
  rw [Call.ofName_eq_stop_iff, Stops]

theorem exits_iff : m.Exits ↔ Call.ofName m.method = .exit := by
  rw [Call.ofName_eq_exit_iff, Exits]

end Message

def Phase.next (p : Phase) (c : Decoder) (m : Message) : Phase :=
  if p = .exited ∨ m.Exits then .exited
  else if p = .waiting ∧ m.Starts c then .running
  else if p = .running ∧ m.Stops then .stopping
  else p

namespace Phase

variable {p : Phase} {c : Decoder} {m : Message}

theorem next_eq_self (hs : Call.ofName m.method ≠ .start) (ht : Call.ofName m.method ≠ .stop)
    (he : Call.ofName m.method ≠ .exit) : p.next c m = p := by
  have hs : ¬m.Starts c := fun h => hs (Message.starts_iff.mp h).1
  have ht : ¬m.Stops := fun h => ht (Message.stops_iff.mp h)
  have he : ¬m.Exits := fun h => he (Message.exits_iff.mp h)
  unfold next
  cases p <;> simp [hs, ht, he]

theorem next_eq_waiting_iff :
    p.next c m = .waiting ↔ p = .waiting ∧ ¬m.Starts c ∧ ¬m.Exits := by
  unfold next
  by_cases hs : m.Starts c <;> by_cases ht : m.Stops <;> by_cases he : m.Exits <;>
    cases p <;> simp [hs, ht, he]

theorem next_eq_running_iff :
    p.next c m = .running ↔ p = .running ∧ ¬m.Stops ∧ ¬m.Exits ∨ p = .waiting ∧ m.Starts c := by
  have hse : m.Starts c → ¬m.Exits := by
    rintro ⟨hm, -⟩ he
    simp [Message.Exits, hm] at he
  unfold next
  by_cases hs : m.Starts c
  · by_cases ht : m.Stops <;> cases p <;> simp [hs, ht, hse hs]
  · by_cases ht : m.Stops <;> by_cases he : m.Exits <;> cases p <;> simp [hs, ht, he]

end Phase

namespace Session

variable (s : Session) (c : Decoder) (d : Disk) (user? : Option Path) (m : Message)

theorem phase_notify (n : Notification) (params : Json) :
    (s.notify c n params).1.phase = s.phase := by
  fun_cases notify s c n params <;> rfl

theorem phase_start :
    (s.start c d user? m).1.phase =
      if s.phase = .waiting ∧ m.id?.isSome ∧ (m.params?.bind c.start?).isSome then .running
      else s.phase := by
  unfold start
  cases hp : s.phase with
  | waiting =>
    cases hi : m.id? with
    | none => simp [hp]
    | some _ => cases hs : m.params?.bind c.start? <;> simp [hp, startIn]
  | running | stopping | exited => simp [hp]

theorem phase_stop :
    (s.stop m).1.phase = if s.phase = .running then .stopping else s.phase := by
  unfold stop
  split <;> simp_all

/-- Only a running session heeds notifications, and none that asks for a reply. -/
theorem receive_notification {n : Notification} (hc : Call.ofName m.method = .notification n) :
    (s.receive c d user? m).1 =
      if s.phase = .running ∧ m.id? = none then
        m.params?.elim s fun params => (s.notify c n params).1
      else s := by
  unfold receive
  by_cases hp : s.phase = .running
  · cases hi : m.id? <;> cases hm : m.params? <;> simp [hc, hp]
  · split <;> simp [hc, hp]

theorem receive_question {q : Question} (hc : Call.ofName m.method = .question q) :
    (s.receive c d user? m).1 = s := by
  unfold receive
  by_cases hp : s.phase = .running
  · cases hi : m.id? <;> cases hm : m.params? <;> simp [hc, hp]
  · split <;> simp [hc]

theorem receive_unknown (hc : Call.ofName m.method = .unknown) :
    (s.receive c d user? m).1 = s := by
  unfold receive
  split <;> simp [hc]

theorem phase_receive : (s.receive c d user? m).1.phase = s.phase.next c m := by
  by_cases hx : s.phase = .exited
  · simp [receive, Phase.next, hx]
  cases hc : Call.ofName m.method with
  | exit => simp [receive, Phase.next, Message.exits_iff, hx, hc]
  | start =>
    simp [receive, phase_start, Phase.next, Message.starts_iff, Message.stops_iff,
      Message.exits_iff, hx, hc]
  | stop =>
    simp [receive, phase_stop, Phase.next, Message.starts_iff, Message.stops_iff,
      Message.exits_iff, hx, hc]
  | notification n =>
    rw [receive_notification s c d user? m hc,
      Phase.next_eq_self (by simp [hc]) (by simp [hc]) (by simp [hc])]
    cases m.params? <;> split <;> simp [phase_notify]
  | question q =>
    rw [receive_question s c d user? m hc,
      Phase.next_eq_self (by simp [hc]) (by simp [hc]) (by simp [hc])]
  | unknown =>
    rw [receive_unknown s c d user? m hc,
      Phase.next_eq_self (by simp [hc]) (by simp [hc]) (by simp [hc])]

end Session

namespace Step

/-- No message has started the session yet, or ended it. -/
def Waiting (c : Decoder) (steps : List Step) : Prop :=
  ∀ m, .receive m ∈ steps → ¬m.Starts c ∧ ¬m.Exits

/-- A message has started the session, and none has stopped or ended it since. -/
def Running (c : Decoder) (steps : List Step) : Prop :=
  ∃ before m later, steps = before ++ .receive m :: later ∧ Waiting c before ∧ m.Starts c ∧
    ∀ m', .receive m' ∈ later → ¬m'.Stops ∧ ¬m'.Exits

variable {c : Decoder} {steps : List Step} {step : Step}

theorem waiting_snoc_iff :
    Waiting c (steps ++ [step]) ↔
      Waiting c steps ∧ ∀ m, step = .receive m → ¬m.Starts c ∧ ¬m.Exits := by
  constructor
  · intro h
    exact ⟨fun m hm => h m (by simp [hm]), fun m hm => h m (by simp [hm])⟩
  · rintro ⟨hw, hs⟩ m hm
    rcases List.mem_append.mp hm with hm | hm
    · exact hw m hm
    · exact hs m (List.mem_singleton.mp hm).symm

theorem running_snoc_iff :
    Running c (steps ++ [step]) ↔
      (Running c steps ∧ ∀ m, step = .receive m → ¬m.Stops ∧ ¬m.Exits) ∨
        (Waiting c steps ∧ ∃ m, step = .receive m ∧ m.Starts c) := by
  constructor
  · rintro ⟨before, m, later, h, hb, hm, hl⟩
    -- the last step is the one that started the session, or comes later
    rcases List.eq_nil_or_concat later with rfl | ⟨later, last, rfl⟩
    · obtain ⟨rfl, hs⟩ := List.append_inj' h rfl
      exact .inr ⟨hb, m, by simpa using hs, hm⟩
    · rw [List.concat_eq_append, ← List.cons_append, ← List.append_assoc] at h
      obtain ⟨rfl, hs⟩ := List.append_inj' h rfl
      obtain rfl : step = last := by simpa using hs
      refine .inl ⟨⟨before, m, later, rfl, hb, hm, fun m' h' => hl m' (by simp [h'])⟩, ?_⟩
      rintro m' rfl
      exact hl m' (by simp)
  · rintro (⟨⟨before, m, later, rfl, hb, hm, hl⟩, hs⟩ | ⟨hw, m, rfl, hm⟩)
    · refine ⟨before, m, later ++ [step], by simp, hb, hm, fun m' h' => ?_⟩
      rcases List.mem_append.mp h' with h' | h'
      · exact hl m' h'
      · exact hs m' (List.mem_singleton.mp h').symm
    · exact ⟨steps, m, [], rfl, hw, hm, by simp⟩

end Step

namespace World

variable {w : World} {step : Step} {steps : List Step} {m : Message}

theorem session_step_receive :
    (w.step (.receive m)).1.session = (w.session.receive w.decoder w.disk w.user? m).1 := by
  unfold step
  by_cases hx : w.session.phase = .exited <;> simp [Session.receive, hx]

theorem session_step_of_ne (h : ∀ m, step ≠ .receive m) :
    (w.step step).1.session = w.session := by
  cases step with
  | receive m => exact absurd rfl (h m)
  | _ => rfl

theorem unchanged_step :
    (w.step step).1.user? = w.user? ∧ (w.step step).1.decoder = w.decoder := by
  cases step with
  | receive m => by_cases hx : w.session.phase = .exited <;> simp [World.step, hx]
  | _ => exact ⟨rfl, rfl⟩

theorem run_snoc : (w.run (steps ++ [step])).1 = ((w.run steps).1.step step).1 := by
  induction steps generalizing w with
  | nil => rfl
  | cons first steps ih => exact ih

theorem unchanged_run : (w.run steps).1.user? = w.user? ∧ (w.run steps).1.decoder = w.decoder := by
  induction steps using List.reverseRecOn with
  | nil => exact ⟨rfl, rfl⟩
  | append_singleton steps step ih =>
    rw [run_snoc]
    exact ⟨unchanged_step.1.trans ih.1, unchanged_step.2.trans ih.2⟩

theorem session_run_receive :
    (w.run (steps ++ [.receive m])).1.session =
      ((w.run steps).1.session.receive w.decoder (w.run steps).1.disk w.user? m).1 := by
  rw [run_snoc, session_step_receive, unchanged_run.1, unchanged_run.2]

theorem phase_step_eq_waiting_iff :
    (w.step step).1.session.phase = .waiting ↔
      w.session.phase = .waiting ∧
        ∀ m, step = .receive m → ¬m.Starts w.decoder ∧ ¬m.Exits := by
  by_cases h : ∃ m, step = .receive m
  · obtain ⟨m, rfl⟩ := h
    simp [session_step_receive, Session.phase_receive, Phase.next_eq_waiting_iff]
  · rw [session_step_of_ne (not_exists.mp h)]
    simp [not_exists.mp h]

theorem phase_step_eq_running_iff :
    (w.step step).1.session.phase = .running ↔
      (w.session.phase = .running ∧ ∀ m, step = .receive m → ¬m.Stops ∧ ¬m.Exits) ∨
        (w.session.phase = .waiting ∧ ∃ m, step = .receive m ∧ m.Starts w.decoder) := by
  by_cases h : ∃ m, step = .receive m
  · obtain ⟨m, rfl⟩ := h
    simp [session_step_receive, Session.phase_receive, Phase.next_eq_running_iff]
  · rw [session_step_of_ne (not_exists.mp h)]
    simp [not_exists.mp h]

theorem phase_run_eq_waiting_iff (hw : w.session.phase = .waiting) :
    (w.run steps).1.session.phase = .waiting ↔ Step.Waiting w.decoder steps := by
  induction steps using List.reverseRecOn with
  | nil => simp [run, hw, Step.Waiting]
  | append_singleton steps step ih =>
    rw [run_snoc, phase_step_eq_waiting_iff, unchanged_run.2, ih, Step.waiting_snoc_iff]

theorem phase_run_eq_running_iff (hw : w.session.phase = .waiting) :
    (w.run steps).1.session.phase = .running ↔ Step.Running w.decoder steps := by
  induction steps using List.reverseRecOn with
  | nil => simp [run, hw, Step.Running]
  | append_singleton steps step ih =>
    rw [run_snoc, phase_step_eq_running_iff, unchanged_run.2, ih, phase_run_eq_waiting_iff hw,
      Step.running_snoc_iff]

end World

end RailsLookup
