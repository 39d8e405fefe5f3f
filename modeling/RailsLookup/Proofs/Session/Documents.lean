import RailsLookup.Proofs.Session.Phase

/-! # The texts of documents

Along a session, a document is stored with the text of the last message that wrote it, unless a
message has closed it since. Only messages to a running session count, and only those that can
be understood.
-/

namespace RailsLookup

namespace Documents

variable {ds : Documents} {k k' text : Text}

theorem get?_cons_of_ne (h : k ≠ k') : get? ((k', text) :: ds) k = ds.get? k := by
  simp [get?, List.lookup_cons, beq_false_of_ne h]

theorem get?_erase_self : (ds.erase k).get? k = none := by
  simpa [get?, erase, List.lookup_eq_none_iff] using fun _ _ _ h => Ne.symm h

theorem get?_erase_of_ne (h : k ≠ k') : (ds.erase k').get? k = ds.get? k := by
  induction ds with
  | nil => rfl
  | cons e ds ih =>
    obtain ⟨uri, content⟩ := e
    by_cases hu : uri = k'
    · subst hu
      have he : erase ((uri, content) :: ds) uri = erase ds uri := by simp [erase]
      rw [he, ih, get?_cons_of_ne h]
    · have he : erase ((uri, content) :: ds) k' = (uri, content) :: erase ds k' := by
        simp [erase, hu]
      unfold get? at ih ⊢
      rw [he, List.lookup_cons, List.lookup_cons, ih]

theorem get?_put_self : (ds.put k text).get? k = some text := by
  simp [get?, put]

theorem get?_put_of_ne (h : k ≠ k') : (ds.put k' text).get? k = ds.get? k := by
  rw [put, get?_cons_of_ne h, get?_erase_of_ne h]

end Documents

namespace Call

variable {name : Text}

theorem ofName_eq_opened_iff :
    ofName name = .notification .opened ↔ name = "textDocument/didOpen".toList :=
  ofName_eq_iff rfl (by simp) (by simp [table])

theorem ofName_eq_changed_iff :
    ofName name = .notification .changed ↔ name = "textDocument/didChange".toList :=
  ofName_eq_iff rfl (by simp) (by simp [table])

theorem ofName_eq_closed_iff :
    ofName name = .notification .closed ↔ name = "textDocument/didClose".toList :=
  ofName_eq_iff rfl (by simp) (by simp [table])

end Call

namespace Message

def notification (method : String) (params : Json) : Message :=
  { method := method.toList, params? := some params }

/-- A document is given a text. Of several changes the last one counts. -/
inductive Writes (c : Decoder) (m : Message) (k text : Text) : Prop
  | opened (params : Json) (url : Url) (hm : m = notification "textDocument/didOpen" params)
      (hp : c.opened? params = some (url, text)) (hk : url.toText = k)
  | changed (params : Json) (url : Url) (texts : List Text)
      (hm : m = notification "textDocument/didChange" params)
      (hp : c.changed? params = some (url, texts)) (hl : texts.getLast? = some text)
      (hk : url.toText = k)

def Closes (c : Decoder) (m : Message) (k : Text) : Prop :=
  ∃ params url, m = notification "textDocument/didClose" params ∧
    c.closed? params = some url ∧ url.toText = k

end Message

namespace Session

variable {s : Session} {c : Decoder} {d : Disk} {user? : Option Path} {m : Message} {k text : Text}

theorem receive_of_running {method : String} {params : Json} {n : Notification}
    (hp : s.phase = .running) (hc : Call.ofName method.toList = .notification n) :
    (s.receive c d user? (.notification method params)).1 = (s.notify c n params).1 := by
  rw [receive_notification _ _ _ _ _ hc]
  simp [hp, Message.notification]

theorem get?_receive_of_writes (hp : s.phase = .running) (h : m.Writes c k text) :
    (s.receive c d user? m).1.documents.get? k = some text := by
  cases h with
  | opened params url hm hr hk =>
    subst hm hk
    rw [receive_of_running hp (Call.ofName_eq_opened_iff.mpr rfl)]
    simp [notify, hr, Documents.get?_put_self]
  | changed params url texts hm hr hl hk =>
    subst hm hk
    rw [receive_of_running hp (Call.ofName_eq_changed_iff.mpr rfl)]
    simp [notify, hr, hl, Documents.get?_put_self]

theorem get?_receive_of_closes (hp : s.phase = .running) (h : m.Closes c k) :
    (s.receive c d user? m).1.documents.get? k = none := by
  obtain ⟨params, url, rfl, hr, rfl⟩ := h
  rw [receive_of_running hp (Call.ofName_eq_closed_iff.mpr rfl)]
  simp [notify, hr, Documents.get?_erase_self]

theorem get?_notify_of_not {n : Notification} {params : Json}
    (hm : Call.ofName m.method = .notification n) (hi : m.id? = none)
    (hp : m.params? = some params) (hw : ∀ text, ¬m.Writes c k text) (hc : ¬m.Closes c k) :
    (s.notify c n params).1.documents.get? k = s.documents.get? k := by
  have hmessage {method : String} (h : m.method = method.toList) :
      m = .notification method params := by
    cases m
    simp_all [Message.notification]
  cases n with
  | initialized => rfl
  | unheeded => rfl
  | opened =>
    have hm := hmessage (Call.ofName_eq_opened_iff.mp hm)
    cases hr : c.opened? params with
    | none => simp [notify, hr]
    | some r =>
      have hk : k ≠ r.1.toText := fun hk => hw r.2 (.opened params r.1 hm hr hk.symm)
      simp [notify, hr, Documents.get?_put_of_ne hk]
  | changed =>
    have hm := hmessage (Call.ofName_eq_changed_iff.mp hm)
    cases hr : c.changed? params with
    | none => simp [notify, hr]
    | some r =>
      cases hl : r.2.getLast? with
      | none => simp [notify, hr, hl]
      | some text =>
        have hk : k ≠ r.1.toText := fun hk => hw text (.changed params r.1 r.2 hm hr hl hk.symm)
        simp [notify, hr, hl, Documents.get?_put_of_ne hk]
  | closed =>
    have hm := hmessage (Call.ofName_eq_closed_iff.mp hm)
    cases hr : c.closed? params with
    | none => simp [notify, hr]
    | some url =>
      have hk : k ≠ url.toText := fun hk => hc ⟨params, url, hm, hr, hk.symm⟩
      simp [notify, hr, Documents.get?_erase_of_ne hk]

theorem documents_start : (s.start c d user? m).1.documents = s.documents := by
  fun_cases start s c d user? m <;> rfl

theorem documents_stop : (s.stop m).1.documents = s.documents := by
  fun_cases stop s m <;> rfl

theorem get?_receive_of_not (hw : s.phase = .running → ∀ text, ¬m.Writes c k text)
    (hc : s.phase = .running → ¬m.Closes c k) :
    (s.receive c d user? m).1.documents.get? k = s.documents.get? k := by
  by_cases hx : s.phase = .exited
  · simp [receive, hx]
  cases hm : Call.ofName m.method with
  | exit => simp [receive, hx, hm]
  | start => simp [receive, hx, hm, documents_start]
  | stop => simp [receive, hx, hm, documents_stop]
  | notification n =>
    rw [receive_notification _ _ _ _ _ hm]
    split
    · next h =>
      cases hp : m.params? with
      | none => rfl
      | some params => exact get?_notify_of_not hm h.2 hp (hw h.1) (hc h.1)
    · rfl
  | question q => rw [receive_question _ _ _ _ _ hm]
  | unknown => rw [receive_unknown _ _ _ _ _ hm]

end Session

namespace Step

/-- The step is a message, and the session runs when it comes. -/
def HeardAt (c : Decoder) (steps : List Step) (i : Nat) (m : Message) : Prop :=
  steps[i]? = some (.receive m) ∧ Running c (steps.take i)

def WrittenAt (c : Decoder) (steps : List Step) (k : Text) (i : Nat) (text : Text) : Prop :=
  ∃ m, HeardAt c steps i m ∧ m.Writes c k text

def ClosedAt (c : Decoder) (steps : List Step) (k : Text) (i : Nat) : Prop :=
  ∃ m, HeardAt c steps i m ∧ m.Closes c k

/-- The text is that of the last step that wrote the document, and none closed it since. -/
def LastWritten (c : Decoder) (steps : List Step) (k text : Text) : Prop :=
  ∃ i, WrittenAt c steps k i text ∧
    ∀ j, i < j → ¬ClosedAt c steps k j ∧ ∀ text', ¬WrittenAt c steps k j text'

variable {c : Decoder} {steps : List Step} {step : Step} {m : Message} {k text : Text} {i : Nat}

theorem HeardAt.lt_length (h : HeardAt c steps i m) : i < steps.length :=
  (List.getElem?_eq_some_iff.mp h.1).1

theorem heardAt_snoc_iff :
    HeardAt c (steps ++ [step]) i m ↔
      HeardAt c steps i m ∨ i = steps.length ∧ step = .receive m ∧ Running c steps := by
  rcases Nat.lt_trichotomy i steps.length with hi | rfl | hi
  · rw [HeardAt, HeardAt, List.getElem?_append_left hi, List.take_append_of_le_length (by omega)]
    simp [Nat.ne_of_lt hi]
  · simp [HeardAt]
  · rw [HeardAt, HeardAt, List.getElem?_eq_none (by simp; omega), List.getElem?_eq_none (by omega)]
    simp [Nat.ne_of_gt hi]

theorem exists_heardAt_snoc_iff {E : Message → Prop}
    (h : ¬∃ m, HeardAt c (steps ++ [step]) steps.length m ∧ E m) :
    (∃ m, HeardAt c (steps ++ [step]) i m ∧ E m) ↔ ∃ m, HeardAt c steps i m ∧ E m := by
  constructor
  · rintro ⟨m, hm, he⟩
    rcases heardAt_snoc_iff.mp hm with hm' | ⟨rfl, -⟩
    · exact ⟨m, hm', he⟩
    · exact absurd ⟨m, hm, he⟩ h
  · rintro ⟨m, hm, he⟩
    exact ⟨m, heardAt_snoc_iff.mpr (.inl hm), he⟩

theorem HeardAt.le_length (h : HeardAt c (steps ++ [step]) i m) : i ≤ steps.length := by
  have hi := h.lt_length
  rw [List.length_append, List.length_singleton] at hi
  omega

/-- A step that writes or closes a document decides alone what is stored for it. -/
theorem lastWritten_snoc_of_touched
    (h : ClosedAt c (steps ++ [step]) k steps.length ∨
      ∃ text, WrittenAt c (steps ++ [step]) k steps.length text) :
    LastWritten c (steps ++ [step]) k text ↔ WrittenAt c (steps ++ [step]) k steps.length text := by
  constructor
  · rintro ⟨i, ⟨m, hm, hw⟩, hl⟩
    rcases Nat.lt_or_eq_of_le hm.le_length with hi | rfl
    · rcases h with h | ⟨text', h⟩
      · exact absurd h (hl _ hi).1
      · exact absurd h ((hl _ hi).2 text')
    · exact ⟨m, hm, hw⟩
  · intro hw
    refine ⟨steps.length, hw, fun j hj => ⟨?_, ?_⟩⟩
    · rintro ⟨m, hm, -⟩
      exact absurd hm.le_length (by omega)
    · rintro text' ⟨m, hm, -⟩
      exact absurd hm.le_length (by omega)

theorem lastWritten_snoc_of_not_touched (hc : ¬ClosedAt c (steps ++ [step]) k steps.length)
    (hw : ∀ text, ¬WrittenAt c (steps ++ [step]) k steps.length text) :
    LastWritten c (steps ++ [step]) k text ↔ LastWritten c steps k text := by
  have hwritten {i : Nat} {text : Text} :
      WrittenAt c (steps ++ [step]) k i text ↔ WrittenAt c steps k i text :=
    exists_heardAt_snoc_iff (hw text)
  have hclosed {i : Nat} : ClosedAt c (steps ++ [step]) k i ↔ ClosedAt c steps k i :=
    exists_heardAt_snoc_iff hc
  simp only [LastWritten, hwritten, hclosed]

theorem WrittenAt.exists_lastWritten (h : WrittenAt c steps k i text)
    (hc : ∀ j, i < j → ¬ClosedAt c steps k j) : ∃ text', LastWritten c steps k text' := by
  -- induction on the steps that are left after the write
  induction hn : steps.length - i using Nat.strongRecOn generalizing i text with
  | ind n ih =>
    by_cases hl : ∃ j text', i < j ∧ WrittenAt c steps k j text'
    · obtain ⟨j, text', hj, hw⟩ := hl
      have hlt : j < steps.length := by
        obtain ⟨m, hm, -⟩ := hw
        exact hm.lt_length
      exact ih (steps.length - j) (by omega) hw (fun l hlj => hc l (by omega)) rfl
    · refine ⟨text, i, h, fun j hj => ⟨hc j hj, fun text' hw => ?_⟩⟩
      exact hl ⟨j, text', hj, hw⟩

end Step

namespace World

variable {w : World} {steps : List Step} {step : Step} {k text : Text}

/-- The world with a session to which nothing has been said. -/
def fresh (w : World) : World :=
  { w with session := { w.session with phase := .waiting, documents := [] } }

theorem heardAt_length_iff {m : Message} :
    Step.HeardAt w.decoder (steps ++ [step]) steps.length m ↔
      step = .receive m ∧ (w.fresh.run steps).1.session.phase = .running := by
  have hrun : (w.fresh.run steps).1.session.phase = .running ↔ Step.Running w.decoder steps :=
    phase_run_eq_running_iff rfl
  rw [hrun, Step.heardAt_snoc_iff]
  simp [Step.HeardAt]

theorem get?_run_of_writtenAt (h : Step.WrittenAt w.decoder (steps ++ [step]) k steps.length text) :
    (w.fresh.run (steps ++ [step])).1.session.documents.get? k = some text := by
  obtain ⟨m, hm, hw⟩ := h
  obtain ⟨rfl, hp⟩ := (heardAt_length_iff (w := w)).mp hm
  rw [session_run_receive]
  exact Session.get?_receive_of_writes hp hw

theorem get?_run_of_closedAt (h : Step.ClosedAt w.decoder (steps ++ [step]) k steps.length) :
    (w.fresh.run (steps ++ [step])).1.session.documents.get? k = none := by
  obtain ⟨m, hm, hc⟩ := h
  obtain ⟨rfl, hp⟩ := (heardAt_length_iff (w := w)).mp hm
  rw [session_run_receive]
  exact Session.get?_receive_of_closes hp hc

theorem get?_run_of_not (hc : ¬Step.ClosedAt w.decoder (steps ++ [step]) k steps.length)
    (hw : ∀ text, ¬Step.WrittenAt w.decoder (steps ++ [step]) k steps.length text) :
    (w.fresh.run (steps ++ [step])).1.session.documents.get? k =
      (w.fresh.run steps).1.session.documents.get? k := by
  by_cases h : ∃ m, step = .receive m
  · obtain ⟨m, rfl⟩ := h
    rw [session_run_receive]
    apply Session.get?_receive_of_not
    · intro hp text hm
      exact hw text ⟨m, heardAt_length_iff.mpr ⟨rfl, hp⟩, hm⟩
    · intro hp hm
      exact hc ⟨m, heardAt_length_iff.mpr ⟨rfl, hp⟩, hm⟩
  · rw [run_snoc, session_step_of_ne (not_exists.mp h)]

theorem get?_run_eq_some_iff :
    (w.fresh.run steps).1.session.documents.get? k = some text ↔
      Step.LastWritten w.decoder steps k text := by
  induction steps using List.reverseRecOn generalizing text with
  | nil => simp [run, fresh, Documents.get?, Step.LastWritten, Step.WrittenAt, Step.HeardAt]
  | append_singleton steps step ih =>
    by_cases hc : Step.ClosedAt w.decoder (steps ++ [step]) k steps.length
    · rw [Step.lastWritten_snoc_of_touched (.inl hc), get?_run_of_closedAt hc]
      refine iff_of_false (by simp) fun h => ?_
      -- no message both writes and closes a document
      have := get?_run_of_closedAt (w := w) hc
      simp [get?_run_of_writtenAt h] at this
    by_cases hw : ∃ text, Step.WrittenAt w.decoder (steps ++ [step]) k steps.length text
    · rw [Step.lastWritten_snoc_of_touched (.inr hw)]
      refine ⟨fun h => ?_, get?_run_of_writtenAt⟩
      obtain ⟨text', hw⟩ := hw
      obtain rfl : text' = text := by simpa [get?_run_of_writtenAt hw] using h
      exact hw
    · have hw := not_exists.mp hw
      rw [get?_run_of_not hc hw, Step.lastWritten_snoc_of_not_touched hc hw, ih]

theorem get?_run_eq_none_iff :
    (w.fresh.run steps).1.session.documents.get? k = none ↔
      ∀ i text, Step.WrittenAt w.decoder steps k i text →
        ∃ j, i < j ∧ Step.ClosedAt w.decoder steps k j := by
  rw [Option.eq_none_iff_forall_ne_some]
  simp only [ne_eq, get?_run_eq_some_iff]
  constructor
  · intro h i text hw
    by_contra hc
    obtain ⟨text', hl⟩ := hw.exists_lastWritten fun j hj hcj => hc ⟨j, hj, hcj⟩
    exact h text' hl
  · rintro h text ⟨i, hw, hl⟩
    obtain ⟨j, hj, hc⟩ := h i text hw
    exact (hl j hj).1 hc

/-- Along every run, whatever decoder reads its messages, a document is stored with the text of the
last step that wrote it and that no close follows, and without such a step it is not stored. No
other step changes what is stored, and a stored text is read in place of any file. -/
theorem documents_last_write (w : World) (steps : List Step) (k : Text) :
    (∀ text, (w.fresh.run steps).1.session.documents.get? k = some text ↔
      ∃ i, Step.WrittenAt w.decoder steps k i text ∧
        ∀ j, i < j → ¬Step.ClosedAt w.decoder steps k j ∧
          ∀ text', ¬Step.WrittenAt w.decoder steps k j text') ∧
    ((w.fresh.run steps).1.session.documents.get? k = none ↔
      ∀ i text, Step.WrittenAt w.decoder steps k i text →
        ∃ j, i < j ∧ Step.ClosedAt w.decoder steps k j) ∧
    (∀ step, ¬Step.ClosedAt w.decoder (steps ++ [step]) k steps.length →
      (∀ text, ¬Step.WrittenAt w.decoder (steps ++ [step]) k steps.length text) →
      (w.fresh.run (steps ++ [step])).1.session.documents.get? k =
        (w.fresh.run steps).1.session.documents.get? k) ∧
    ∀ d text, (w.fresh.run steps).1.session.documents.get? k = some text →
      (w.fresh.run steps).1.session.content? w.decoder d k = some text := by
  refine ⟨fun text => get?_run_eq_some_iff, get?_run_eq_none_iff,
    fun step => get?_run_of_not, fun d text h => ?_⟩
  rw [Session.content?, h]

end World

end RailsLookup
