import Tombstone.Jobs

/- What one action does to the switches of a running client: consent, the send gate, the
   publication, and the running flags.

   Four actions change one switch each; every other action leaves them all as they are
   (`perform_control`). The results about consent and about flushing rest on this. -/
namespace Tombstone.Runtime

/-- The switches are as they were. -/
structure SameControl (s s' : State) : Prop where
  consent : s'.consent = s.consent
  gate : s'.gate = s.gate
  published : s'.published = s.published
  destroying : s'.destroying = s.destroying
  running : s'.worker.running = s.worker.running

theorem SameControl.rfl {s : State} : SameControl s s := ⟨.refl _, .refl _, .refl _, .refl _, .refl _⟩

/-- What an action can do to the switches. -/
inductive Control (s : State) (a : Act) (s' : State) : Prop where
  | same (same : SameControl s s')
  | consent (granted : Bool) (act : a = .setConsent granted) (after : s' = { s with consent := granted })
  | gate (act : a = .startSession) (after : s' = { s with
      gate := s.gate.set.1
      worker := if s.gate.set.2 then s.worker.wake else s.worker })
  | publish (act : a = .publish) (after : s' = { s with published := true })
  | stop (act : a = .stopWorker) (after : s' = { s with worker := { s.worker with running := false } })

theorem setBatch_control (s : State) (metric : Bool) (b : Batch) :
    SameControl s (s.setBatch metric b) := by
  cases metric <;> exact ⟨rfl, rfl, rfl, rfl, rfl⟩

theorem addItem_control (s : State) (metric : Bool) (text : Bytes) :
    SameControl s (addItem s metric text) := by
  have h := setBatch_control s metric
    ((s.batch metric).add s.now { text, serial := s.nextSerial }).1
  refine ⟨h.consent, h.gate, h.published, h.destroying, ?_⟩
  simp only [addItem]
  split <;> rfl

theorem takeReadyJob_control {s s' : State} {new : List Act} (h : takeReadyJob s = (s', new)) :
    SameControl s s' := by
  rcases takeReadyJob_cases h with ⟨rfl, -⟩ | ⟨_, _, _, -, rfl, -⟩
  · exact .rfl
  · exact ⟨rfl, rfl, rfl, rfl, rfl⟩

theorem wakeUp_control {s s' : State} {new : List Act} (h : wakeUp s = (s', new)) :
    SameControl s s' := by
  rcases wakeUp_cases h with ⟨-, rfl, -⟩ | ⟨-, _, rfl, -⟩ | ⟨-, hw⟩
  · exact ⟨rfl, rfl, rfl, rfl, rfl⟩
  · exact ⟨rfl, rfl, rfl, rfl, rfl⟩
  · have h := takeReadyJob_control hw
    exact ⟨h.consent, h.gate, h.published, h.destroying, h.running⟩

theorem Processed.control {s s' : State} {job : UploadJob} {response : HttpResponse} {acts : List Act}
    (h : Processed s job response s' acts) : SameControl s s' := by
  cases h <;> exact ⟨rfl, rfl, rfl, rfl, rfl⟩

theorem startSessionTracking_control {s s' : State} {i : Input} {new : List Act}
    (h : startSessionTracking s i = some (s', new)) : SameControl s s' := by
  rcases startSessionTracking_cases h with ⟨_, _, rfl, -⟩ | ⟨-, rfl, -⟩ <;>
    exact ⟨rfl, rfl, rfl, rfl, rfl⟩

theorem maybeFlushBatch_control {s s' : State} {metric force : Bool} {now : Nat} {i : Input}
    {new : List Act} (h : perform s (.maybeFlushBatch metric now force) i = some (s', new)) :
    SameControl s s' := by
  rcases maybeFlushBatch_cases h with ⟨-, rfl, -⟩ | ⟨b, _, -, rfl, -⟩
  · exact .rfl
  · exact setBatch_control ..

/-- **What an action can do to the switches.** -/
theorem perform_control {s s' : State} {a : Act} {i : Input} {new : List Act}
    (h : perform s a i = some (s', new)) : Control s a s' := by
  cases a
  case setConsent granted =>
    obtain ⟨rfl, rfl⟩ := Prod.mk.inj (Option.some.inj h)
    exact .consent granted rfl rfl
  case startSession =>
    obtain ⟨rfl, rfl⟩ := Prod.mk.inj (Option.some.inj h)
    exact .gate rfl rfl
  case publish =>
    obtain ⟨rfl, rfl⟩ := Prod.mk.inj (Option.some.inj h)
    exact .publish rfl rfl
  case stopWorker =>
    rcases stopWorker_cases h with ⟨-, rfl, -⟩ | ⟨-, rfl, -⟩
    · exact .same .rfl
    · exact .stop rfl rfl
  all_goals apply Control.same
  case startSessionTracking => exact startSessionTracking_control h
  case waiting => exact wakeUp_control (waiting_cases h)
  case takeReadyJob => exact takeReadyJob_control (Option.some.inj h)
  case maybeFlushBatch => exact maybeFlushBatch_control h
  case await =>
    obtain ⟨_, hdone, -⟩ := await_cases h
    exact hdone.control
  case writeAhead =>
    rcases writeAhead_cases h with ⟨rfl, -⟩ | ⟨-, rfl, -⟩
    · exact .rfl
    · exact ⟨rfl, rfl, rfl, rfl, rfl⟩
  case persistLeftover =>
    obtain ⟨-, rfl | ⟨-, rfl⟩⟩ := persistLeftover_cases h
    · exact .rfl
    · exact ⟨rfl, rfl, rfl, rfl, rfl⟩
  case heartbeat =>
    obtain ⟨-, ⟨rfl, -⟩ | ⟨rfl, -⟩ | ⟨-, -, rfl, -⟩⟩ := heartbeat_cases h
    all_goals exact ⟨rfl, rfl, rfl, rfl, rfl⟩
  case reportCrash =>
    rcases reportCrash_cases h with ⟨rfl, -⟩ | ⟨-, rfl, -⟩
    all_goals exact ⟨rfl, rfl, rfl, rfl, rfl⟩
  case reportBug =>
    rcases reportBug_cases h with ⟨rfl, -⟩ | ⟨-, rfl, -⟩
    all_goals exact ⟨rfl, rfl, rfl, rfl, rfl⟩
  case workerFlush =>
    obtain ⟨-, rfl, -⟩ := workerFlush_cases h
    exact .rfl
  case joinHeartbeat =>
    obtain ⟨-, rfl, -⟩ := joinHeartbeat_cases h
    exact .rfl
  case joinWorker =>
    obtain ⟨-, rfl, -⟩ := joinWorker_cases h
    exact ⟨rfl, rfl, rfl, rfl, rfl⟩
  -- the rest are read off their definitions
  all_goals obtain ⟨rfl, rfl⟩ := Prod.mk.inj (Option.some.inj h)
  case addItem => exact addItem_control ..
  all_goals exact ⟨rfl, rfl, rfl, rfl, rfl⟩

/-- Only `set_consent` changes the flag of a running client. -/
theorem perform_consent {s s' : State} {a : Act} {i : Input} {new : List Act}
    (h : perform s a i = some (s', new)) :
    s'.consent = s.consent ∨ ∃ granted, a = .setConsent granted ∧ s'.consent = granted := by
  cases perform_control h with
  | same same => exact .inl same.consent
  | consent granted act after => exact .inr ⟨granted, act, by rw [after]⟩
  | gate _ after => exact .inl (by rw [after])
  | publish _ after => exact .inl (by rw [after])
  | stop _ after => exact .inl (by rw [after])

end Tombstone.Runtime
