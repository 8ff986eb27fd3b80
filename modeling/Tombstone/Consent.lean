import Tombstone.Control

/- Consent and what reaches the transport (`client.cpp`, `worker.cpp`).

   The header promises of `tombstone_set_consent`: while it is 0, nothing is recorded or
   sent. The code checks the flag where data is captured, and nowhere on the way from there
   to the transport. What is proved:

   1. while consent is off, an action that finds nothing on its way puts nothing on its way
      (`perform_hushed`), so a run in which nothing was on its way whenever consent went off
      hands over no payload until consent is granted again (`consent_gates_upload`);
   2. a launch without consent uploads the crash report of an earlier run
      (`restored_without_consent`). -/
namespace Tombstone.Runtime

/-- With consent off, the action leads to no payload in the transport's hands, the
operator's requests for logs apart. -/
def Act.Silent : Act → Prop
  -- these are past their check of the flag
  | .addItem _ _ | .writeAhead _ | .startSessionTracking => False
  | .enqueue job | .post job => job.origin = .playerLogs
  -- a beat's response is handled without a retry, and its ack is checked again
  | .await job => job.origin = .playerLogs ∨ job.origin = .heartbeat
  | _ => True

/-- Nothing but the operator's requests is queued, and nothing is buffered. -/
structure Hushed (s : State) : Prop where
  queue : ∀ job ∈ s.worker.queue, job.origin = .playerLogs
  events : s.eventBatch.items = []
  metrics : s.metricBatch.items = []

/-- Nothing is on its way to the transport. -/
structure NothingOnItsWay (c : Config) : Prop where
  shared : Hushed c.shared
  threads : ∀ p ∈ c.threads, ∀ a ∈ p, a.Silent

/-- Whenever the step turns consent off, nothing is on its way to the transport: no job is
queued, held or with the transport, and nothing is buffered; and a launch without consent
finds no report to restore. -/
structure QuietRevocation (c : Config) (l : Label) : Prop where
  revoked : ∀ t i rest, l = .exec t i → c.threads[t]? = some (.setConsent false :: rest) →
    c.shared.consent = true → NothingOnItsWay c
  launched : ∀ o, l = .env (.launch o) → o.consentGranted = false →
    (launched c.shared o).sidecars.scan = []

/-- What the header promises of one step: with consent off, no payload is handed to the
transport, the operator's requests apart. -/
def GatedByConsent (c : Config) (l : Label) : Prop :=
  c.shared.consent = false → ∀ t i job rest, l = .exec t i →
    c.threads[t]? = some (.post job :: rest) → job.origin = .playerLogs

/-! ## One action -/

theorem Hushed.of_same {s s' : State} (h : Hushed s) (hq : s'.worker.queue = s.worker.queue)
    (he : s'.eventBatch = s.eventBatch) (hm : s'.metricBatch = s.metricBatch) : Hushed s' :=
  ⟨hq ▸ h.queue, he ▸ h.events, hm ▸ h.metrics⟩

theorem captureAllowed_off {s : State} (h : s.consent = false) : s.captureAllowed = false := by
  simp [State.captureAllowed, h]

/-- Taking a job from a hushed queue posts an operator's request. -/
theorem takeReadyJob_hushed {s s' : State} {new : List Act} (hs : Hushed s)
    (h : takeReadyJob s = (s', new)) : Hushed s' ∧ ∀ b ∈ new, b.Silent := by
  rcases takeReadyJob_cases h with ⟨rfl, rfl⟩ | ⟨job, before, after, hq, rfl, rfl⟩
  · exact ⟨hs, fun b hb => by rw [List.mem_singleton.mp hb]; trivial⟩
  · have hqueue := hs.queue
    rw [hq] at hqueue
    refine ⟨⟨fun j hj => hqueue j ?_, hs.events, hs.metrics⟩, fun b hb => ?_⟩
    · simp only [List.mem_append, List.mem_cons] at hj ⊢
      exact hj.imp id .inr
    · rw [List.mem_singleton.mp hb]
      exact hqueue job (by simp)

theorem wakeUp_hushed {s s' : State} {new : List Act} (hs : Hushed s)
    (h : wakeUp s = (s', new)) : Hushed s' ∧ ∀ b ∈ new, b.Silent := by
  rcases wakeUp_cases h with ⟨-, rfl, rfl⟩ | ⟨-, flushed, rfl, rfl⟩ | ⟨-, hw⟩
  · exact ⟨hs.of_same rfl rfl rfl, fun b hb => absurd hb List.not_mem_nil⟩
  · exact ⟨hs.of_same rfl rfl rfl, fun b hb => by rw [List.mem_singleton.mp hb]; trivial⟩
  · have hawake : Hushed { s with worker := { s.worker with wakeRequested := false } } :=
      hs.of_same rfl rfl rfl
    exact takeReadyJob_hushed hawake hw

/-- The response to an operator's request, or to a beat, puts nothing else on its way. -/
theorem Processed.hushed {s s' : State} {job : UploadJob} {response : HttpResponse} {acts : List Act}
    (h : Processed s job response s' acts) (hj : Made job) (hs : Hushed s)
    (ho : job.origin = .playerLogs ∨ job.origin = .heartbeat) :
    Hushed s' ∧ ∀ b ∈ acts, b.Silent := by
  have hlog : job.requestLog = false := by
    rcases ho with ho | ho <;> simp only [Made, ho] at hj
    · exact hj.2.2.1
    · exact hj.2.2.1
  cases h with
  | final _ _ _ follow =>
    refine ⟨hs.of_same rfl rfl rfl, fun b hb => ?_⟩
    cases follow b hb with
    | log requested => rw [hlog] at requested; cases requested
    | ack => trivial
    | rtt => trivial
  | retry _ kept =>
    refine ⟨hs, fun b hb => ?_⟩
    rw [List.mem_singleton.mp hb]
    rcases ho with ho | ho
    · exact ho
    · -- a beat is not retried
      simp only [Made, ho] at hj
      rcases kept with kept | kept
      · rw [hj.2.2.2] at kept
        cases kept
      · exact absurd hj.2.1 kept
  | givenUp =>
    refine ⟨hs.of_same rfl rfl rfl, fun b hb => ?_⟩
    split at hb
    · rw [List.mem_singleton.mp hb]
      trivial
    · cases hb
  | lost => exact ⟨hs, fun b hb => absurd hb List.not_mem_nil⟩

theorem maybeFlushBatch_hushed {s s' : State} {metric force : Bool} {stamp : Bytes} {now : Nat}
    {new : List Act} (hs : Hushed s) (h : maybeFlushBatch s metric stamp now force = (s', new)) :
    s' = s ∧ new = [] := by
  have hnone : (s.batch metric).hasItems = false := by
    cases metric <;> simp [State.batch, Batch.hasItems, hs.events, hs.metrics]
  simp only [maybeFlushBatch, hnone, Bool.not_false, if_true] at h
  obtain ⟨rfl, rfl⟩ := Prod.mk.inj h
  exact ⟨rfl, rfl⟩

theorem drainBatches_silent (s : State) (force : Bool) : ∀ b ∈ drainBatches s force, b.Silent := by
  intro b hb
  unfold drainBatches at hb
  split at hb
  · simp only [List.mem_cons, List.not_mem_nil, or_false] at hb
    rcases hb with rfl | rfl <;> trivial
  · cases hb

theorem startSession_hushed {s s' : State} {i : Input} {new : List Act}
    (h : perform s .startSession i = some (s', new)) (hs : Hushed s) :
    Hushed s' ∧ ∀ b ∈ new, b.Silent := by
  obtain ⟨rfl, rfl⟩ := Prod.mk.inj (Option.some.inj h)
  refine ⟨hs.of_same ?_ rfl rfl, fun b hb => absurd hb List.not_mem_nil⟩
  dsimp only
  split <;> rfl

theorem joinWorker_hushed {s s' : State} {i : Input} {new : List Act}
    (h : perform s .joinWorker i = some (s', new)) (hs : Hushed s) :
    Hushed s' ∧ ∀ b ∈ new, b.Silent := by
  obtain ⟨-, rfl, rfl⟩ := joinWorker_cases h
  refine ⟨⟨fun job hj => absurd hj List.not_mem_nil, hs.events, hs.metrics⟩, fun b hb => ?_⟩
  obtain ⟨job, -, rfl⟩ := List.mem_map.mp hb
  trivial

/-- Without consent the heartbeat's loop sends no beat. -/
theorem heartbeat_hushed {s s' : State} {i : Input} {new : List Act}
    (h : perform s .heartbeat i = some (s', new)) (hoff : s.captureAllowed = false) (hs : Hushed s) :
    Hushed s' ∧ ∀ b ∈ new, b.Silent := by
  obtain ⟨-, ⟨rfl, rfl⟩ | ⟨rfl, rfl⟩ | ⟨hallowed, -⟩⟩ := heartbeat_cases h
  · exact ⟨hs.of_same rfl rfl rfl, fun b hb => absurd hb List.not_mem_nil⟩
  · exact ⟨hs, fun b hb => by rw [List.mem_singleton.mp hb]; trivial⟩
  · exact absurd hallowed (by simp [hoff])

theorem await_hushed {s s' : State} {job : UploadJob} {i : Input} {new : List Act}
    (h : perform s (.await job) i = some (s', new)) (hj : Made job) (hs : Hushed s)
    (ho : job.origin = .playerLogs ∨ job.origin = .heartbeat) :
    Hushed s' ∧ ∀ b ∈ new, b.Silent := by
  obtain ⟨acts, hdone, rfl⟩ := await_cases h
  obtain ⟨hs', hacts⟩ := hdone.hushed hj hs ho
  refine ⟨hs', fun b hb => ?_⟩
  rcases List.mem_append.mp hb with hb | hb
  · exact hacts b hb
  · rw [List.mem_singleton.mp hb]
    trivial

theorem enqueue_hushed {s : State} {job : UploadJob} (hs : Hushed s) (ho : job.origin = .playerLogs) :
    Hushed (enqueue s job) := by
  refine ⟨fun j hj => ?_, hs.events, hs.metrics⟩
  rcases Worker.mem_enqueue hj with hj | rfl
  · exact hs.queue j hj
  · exact ho

/-- **With consent off, an action that finds nothing on its way puts nothing on its way**,
unless it grants consent. -/
theorem perform_hushed {s s' : State} {a : Act} {i : Input} {new : List Act}
    (h : perform s a i = some (s', new)) (hc : s.consent = false) (hs : Hushed s) (hr : a.Ready)
    (ha : a.Silent) : s'.consent = false → Hushed s' ∧ ∀ b ∈ new, b.Silent := by
  intro hc'
  have hoff := captureAllowed_off hc
  cases a
  -- these are past their check of the flag
  case addItem | writeAhead | startSessionTracking => exact ha.elim
  -- these check it
  case track =>
    obtain ⟨rfl, rfl | ⟨hallowed, -⟩⟩ := track_cases h
    · exact ⟨hs, by simp⟩
    · exact absurd hallowed (by simp [hoff])
  case reportCrash =>
    rcases reportCrash_cases h with ⟨rfl, rfl⟩ | ⟨hallowed, -, -⟩
    · exact ⟨hs, by simp⟩
    · exact absurd hallowed (by simp [hoff])
  case reportBug =>
    rcases reportBug_cases h with ⟨rfl, rfl⟩ | ⟨hallowed, -, -⟩
    · exact ⟨hs, by simp⟩
    · exact absurd hallowed (by simp [hoff])
  case heartbeat => exact heartbeat_hushed h hoff hs
  case trackIfConsented =>
    simp only [perform, hc, Bool.false_eq_true, if_false, Option.some.injEq, Prod.mk.injEq] at h
    obtain ⟨rfl, rfl⟩ := h
    exact ⟨hs, by simp⟩
  case ackRequests =>
    obtain ⟨rfl, rfl⟩ := Prod.mk.inj (Option.some.inj h)
    exact ⟨hs, by simp [fulfilJobs, hoff]⟩
  -- these find nothing to send
  case maybeFlushBatch =>
    obtain ⟨rfl, rfl⟩ := maybeFlushBatch_hushed hs (Option.some.inj h)
    exact ⟨hs, by simp⟩
  case waiting => exact wakeUp_hushed hs (waiting_cases h)
  case takeReadyJob => exact takeReadyJob_hushed hs (Option.some.inj h)
  case await job => exact await_hushed h (hr.made job (List.mem_singleton_self job)) hs ha
  case joinWorker => exact joinWorker_hushed h hs
  case startSession => exact startSession_hushed h hs
  case stopWorker =>
    rcases stopWorker_cases h with ⟨-, rfl, rfl⟩ | ⟨-, rfl, rfl⟩
    · exact ⟨hs, by simp⟩
    · exact ⟨hs.of_same rfl rfl rfl, by simp [Act.Silent]⟩
  case workerFlush =>
    obtain ⟨-, rfl, rfl⟩ := workerFlush_cases h
    exact ⟨hs, by simp⟩
  case joinHeartbeat =>
    obtain ⟨-, rfl, rfl⟩ := joinHeartbeat_cases h
    exact ⟨hs, by simp⟩
  case persistLeftover =>
    obtain ⟨rfl, rfl | ⟨-, rfl⟩⟩ := persistLeftover_cases h
    · exact ⟨hs, by simp⟩
    · exact ⟨hs.of_same rfl rfl rfl, by simp⟩
  all_goals obtain ⟨rfl, rfl⟩ := Prod.mk.inj (Option.some.inj h)
  -- an operator's request stays one
  case enqueue => exact ⟨enqueue_hushed hs ha, by simp⟩
  case requestPlayerLogs => exact ⟨hs, fun b hb => by rw [List.mem_singleton.mp hb]; rfl⟩
  case post => exact ⟨hs, fun b hb => by rw [List.mem_singleton.mp hb]; exact .inl ha⟩
  case setConsent granted =>
    obtain rfl : granted = false := hc'
    exact ⟨hs.of_same rfl rfl rfl, by simp⟩
  case flushAllBatches | drainReadyBatches => exact ⟨hs, drainBatches_silent _ _⟩
  -- the rest is silent
  all_goals exact ⟨hs.of_same rfl rfl rfl, by simp [Act.Silent]⟩

/-- To revoke consent puts nothing on its way either. -/
theorem revoke_hushed {s s' : State} {i : Input} {new : List Act}
    (h : perform s (.setConsent false) i = some (s', new)) (hs : Hushed s) :
    Hushed s' ∧ ∀ b ∈ new, b.Silent := by
  obtain ⟨rfl, rfl⟩ := Prod.mk.inj (Option.some.inj h)
  exact ⟨hs.of_same rfl rfl rfl, by simp⟩

/-! ## Runs -/

/-- With consent off, nothing is on its way. -/
def Quiet (c : Config) : Prop := c.shared.consent = false → NothingOnItsWay c

theorem initCalls_silent {o : Launch} : ∀ a ∈ initCalls o, a.Silent := by
  intro a ha
  cases mem_initCalls ha <;> trivial

theorem call_silent (k : Call) : k.act.Silent := by
  cases k <;> trivial

/-- A thread takes an action. -/
theorem quiet_exec {c : Config} {t : Nat} {i : Input} {a : Act} {rest new : List Act} {s' : State}
    (hc : WellMade c) (hq : Quiet c) (ht : c.threads[t]? = some (a :: rest))
    (hp : perform c.shared a i = some (s', new)) (hl : QuietRevocation c (.exec t i)) :
    Quiet ⟨s', c.threads.set t (new ++ rest)⟩ := by
  intro hoff'
  have hmem := List.mem_of_getElem? ht
  -- consent was off before, or this action turns it off and meets the condition
  have hnew : NothingOnItsWay c ∧ Hushed s' ∧ ∀ b ∈ new, b.Silent := by
    cases hon : c.shared.consent
    · have hn := hq hon
      have ha := hn.threads _ hmem a List.mem_cons_self
      exact ⟨hn, perform_hushed hp hon hn.shared (hc.act hmem List.mem_cons_self) ha hoff'⟩
    · rcases perform_consent hp with hsame | ⟨granted, rfl, hg⟩
      · rw [show s'.consent = c.shared.consent from hsame] at hoff'
        exact absurd hon (by simp [show c.shared.consent = false from hoff'])
      · obtain rfl : granted = false := hg.symm.trans hoff'
        have hn := hl.revoked t i rest rfl ht hon
        exact ⟨hn, revoke_hushed hp hn.shared⟩
  obtain ⟨hn, hs', hsilent⟩ := hnew
  refine ⟨hs', fun p hmem' b hb => ?_⟩
  rcases List.mem_or_eq_of_mem_set hmem' with hp' | rfl
  · exact hn.threads p hp' b hb
  · rcases List.mem_append.mp hb with hb | hb
    · exact hsilent b hb
    · exact hn.threads _ hmem b (List.mem_cons_of_mem a hb)

/-- A launch without consent that finds no report to restore. -/
theorem quiet_launch {c : Config} {o : Launch} (hl : QuietRevocation c (.env (.launch o))) :
    Quiet ⟨launched c.shared o, initProgram (launched c.shared o) o :: [.heartbeat] :: [.loopTop] ::
      List.replicate o.hostThreads []⟩ := by
  intro hoff
  have hscan : (launched c.shared o).sidecars.scan = [] := hl.launched o rfl hoff
  refine ⟨⟨by simp [launched, Worker.start], rfl, rfl⟩, fun p hp a ha => ?_⟩
  simp only [List.mem_cons, List.mem_replicate] at hp
  rcases hp with rfl | rfl | rfl | ⟨-, rfl⟩
  · simp only [initProgram, drainSidecars, hscan, List.map_nil, List.nil_append] at ha
    exact initCalls_silent a ha
  · rw [List.mem_singleton.mp ha]
    trivial
  · rw [List.mem_singleton.mp ha]
    trivial
  · cases ha

theorem destructor_silent : ∀ a ∈ destructor, a.Silent := by
  intro a ha
  simp only [destructor, List.mem_cons, List.not_mem_nil, or_false] at ha
  rcases ha with rfl | rfl | rfl | rfl <;> trivial

theorem quiet_step {c c' : Config} {l : Label} (hc : WellMade c) (hq : Quiet c)
    (h : step c l = some c') (hl : QuietRevocation c l) : Quiet c' := by
  rcases Interleave.step_cases h with ⟨t, i, a, rest, s', new, rfl, ht, hp, rfl⟩ |
    ⟨t, k, s', new, rfl, ht, hk, rfl⟩ | ⟨e, rfl, he⟩
  · exact quiet_exec hc hq ht hp hl
  · simp only [machine, call] at hk
    split at hk
    · obtain ⟨rfl, rfl⟩ := Prod.mk.inj (Option.some.inj hk)
      intro hoff
      have hn := hq hoff
      refine ⟨hn.shared, fun p hp b hb => ?_⟩
      rcases List.mem_or_eq_of_mem_set hp with hp | rfl
      · exact hn.threads p hp b hb
      · rw [List.mem_singleton.mp hb]
        exact call_silent k
    · cases hk
  · obtain ⟨s', ps'⟩ := c'
    rcases env_cases he with ⟨elapsed, -, rfl, rfl⟩ | ⟨o, rfl, -, rfl, rfl⟩ | ⟨-, rfl, rfl⟩ |
      ⟨t, -, -, -, -, -, -, ht, rfl, rfl⟩
    · exact fun hoff => ⟨(hq hoff).shared.of_same rfl rfl rfl, (hq hoff).threads⟩
    · exact quiet_launch hl
    · exact fun hoff => ⟨(hq hoff).shared.of_same rfl rfl rfl, (hq hoff).threads⟩
    · intro hoff
      have hn := hq hoff
      refine ⟨hn.shared.of_same rfl rfl rfl, fun p hp b hb => ?_⟩
      rcases List.mem_or_eq_of_mem_set hp with hp | rfl
      · exact hn.threads p hp b hb
      · exact destructor_silent b hb

/-- **In a run in which nothing is on its way whenever consent goes off, no payload is handed
to the transport until consent is granted again**, the operator's requests for logs apart. -/
theorem consent_gates_upload {c₀ : Config} (h : Fresh c₀) (ls : List Label)
    (hquiet : Run.AllSteps step (fun c l _ => QuietRevocation c l) c₀ ls) :
    Run.AllSteps step (fun c l _ => GatedByConsent c l) c₀ ls := by
  refine Run.allSteps_of_inv (I := fun c => WellMade c ∧ Quiet c) ?_ ?_ ls c₀ ⟨?_, ?_⟩ hquiet
  · exact fun c l c' hc hs hl => ⟨wellMade_step hc.1 hs, quiet_step hc.1 hc.2 hs hl⟩
  · intro c l c' hc _ _ hoff t i job rest _ ht
    exact (hc.2 hoff).threads _ (List.mem_of_getElem? ht) (.post job) List.mem_cons_self
  · exact reachable_wellMade (.start h)
  · intro hoff
    rw [h.memory] at hoff
    cases hoff

/-- A launch without consent, over an empty disk, that hands over an operator's request. -/
def unconsented : List Label :=
  .env (.launch { consentGranted := false }) :: List.replicate 3 (.exec 0 {}) ++
    .call 3 (.requestPlayerLogs []) :: List.replicate 2 (.exec 3 {}) ++ List.replicate 7 (.exec 2 {})

/-- Whether the step is neither a revocation nor a launch that may find a report. -/
def keepsQuiet (c : Config) : Label → Bool
  | .exec t _ =>
    match c.threads[t]? with
    | some (.setConsent false :: _) => false
    | _ => true
  | .env (.launch o) => o.order.isEmpty
  | _ => true

theorem quietRevocation_of_keepsQuiet {c : Config} {l : Label} (h : keepsQuiet c l = true) :
    QuietRevocation c l := by
  constructor
  · rintro t i rest rfl ht -
    simp only [keepsQuiet, ht, Bool.false_eq_true] at h
  · rintro o rfl -
    simp only [keepsQuiet, List.isEmpty_iff] at h
    simp [launched, h, SidecarQueue.scan, SidecarQueue.scanKind]

theorem consent_gates_upload_unconsented :
    Run.AllSteps step (fun c l _ => GatedByConsent c l) noFiles unconsented := by
  refine consent_gates_upload fresh_noFiles _ ?_
  have hkeeps : Run.AllSteps step (fun c l _ => keepsQuiet c l = true) noFiles unconsented := by
    decide
  exact hkeeps.mono fun _ _ _ => quietRevocation_of_keepsQuiet

/-- A launch without consent restores a report, and the worker takes it. -/
def restoredWithoutConsent : List Label :=
  .env (.launch { consentGranted := false, order := [crashFile] }) :: .exec 0 {} ::
    List.replicate 6 (.exec 2 {})

/-- The origin of the job the worker is about to post, and the state of consent. -/
def aboutToPost (c : Config) : Option (Bool × Origin) :=
  match c.threads[2]? with
  | some (Act.post job :: _) => some (c.shared.consent, job.origin)
  | _ => none

/-- **A launch without consent uploads the crash report of an earlier run.** -/
theorem restored_without_consent :
    ¬ ∀ c₀ ls, Fresh c₀ → Run.AllSteps step (fun c l _ => GatedByConsent c l) c₀ ls := by
  intro hall
  have hbefore : (Run.run step oneCrash restoredWithoutConsent).bind aboutToPost =
      some (false, .report 0) := by decide
  have hafter : (Run.run step oneCrash (restoredWithoutConsent ++ [.exec 2 {}])).isSome := by decide
  obtain ⟨c, hc, hpost⟩ := Option.bind_eq_some_iff.mp hbefore
  obtain ⟨c', hc'⟩ := Option.isSome_iff_exists.mp hafter
  obtain ⟨u, hu, hlast⟩ := Run.run_append_some.mp hc'
  obtain rfl : c = u := Option.some.inj (hc.symm.trans hu)
  obtain ⟨v, hstep, -⟩ := Run.run_cons_some.mp hlast
  have hgated := (hall oneCrash _ fresh_oneCrash).last hc hstep
  simp only [aboutToPost] at hpost
  split at hpost
  · rename_i job rest ht
    obtain ⟨hoff, ho⟩ := Prod.mk.inj (Option.some.inj hpost)
    have := hgated hoff 2 {} job rest rfl ht
    rw [ho] at this
    cases this
  · cases hpost

end Tombstone.Runtime
