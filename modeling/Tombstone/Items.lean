import Mathlib.Data.Multiset.Range
import Mathlib.Tactic.Abel
import Tombstone.Jobs

/- Where every tracked item is (`batch.cpp`, `client.cpp`, `worker.cpp`).

   An item is in a batch, in an envelope that a thread holds, in an envelope in the queue or
   with the transport, or it was dropped by a bound, settled by its envelope's final outcome,
   or left over at shutdown. What is proved:

   1. what one action does to the items (`Flow`, `perform_flow`);
   2. no item is lost or duplicated: in every reachable state the places add up to the serials
      that were given out (`conserved_step`). -/
namespace Tombstone.Runtime

/-- The serials of the items an action is about to move. -/
def Act.carries : Act → List Nat
  | .writeAhead job | .enqueue job | .post job | .await job => carried job
  | _ => []

/-- Nothing but the queue and the threads holds other items than before. -/
structure SameItems (s s' : State) : Prop where
  events : s'.eventBatch = s.eventBatch
  metrics : s'.metricBatch = s.metricBatch
  next : s'.nextSerial = s.nextSerial
  dropped : s'.dropped = s.dropped
  settled : s'.settled = s.settled
  leftover : s'.leftover = s.leftover

theorem SameItems.rfl {s : State} : SameItems s s :=
  ⟨.refl _, .refl _, .refl _, .refl _, .refl _, .refl _⟩

/-- What an action can do to the items. -/
inductive Flow (s : State) (a : Act) (s' : State) (new : List Act) : Prop where
  | pass (same : SameItems s s') (queue : s'.worker.queue = s.worker.queue)
      (inFlight : s'.worker.inFlight = s.worker.inFlight ∨ a = .clearInFlight)
      (held : new.flatMap Act.carries = a.carries)
  | add (metric : Bool) (text : Bytes) (act : a = .addItem metric text)
      (after : s' = addItem s metric text) (made : new = [])
  | drain (metric : Bool) (stamp : Bytes) (now : Nat) (force : Bool)
      (act : a = .maybeFlushBatch metric now force)
      (after : maybeFlushBatch s metric stamp now force = (s', new))
  | enqueue (job : UploadJob) (act : a = .enqueue job) (after : s' = enqueue s job) (made : new = [])
  | take (job : UploadJob) (before after : List UploadJob)
      (act : a = .takeReadyJob ∨ ∃ deadline, a = .waiting deadline) (same : SameItems s s')
      (queue : s.worker.queue = before ++ job :: after) (left : s'.worker.queue = before ++ after)
      (made : new = [.post job])
  | processed (job : UploadJob) (response : HttpResponse) (acts : List Act) (act : a = .await job)
      (done : Processed s job response s' acts) (made : new = acts ++ [.clearInFlight])
  | leftovers (act : a = .joinWorker) (after : persistLeftovers s = (s', new))

theorem carries_drainBatches (s : State) (force : Bool) :
    (drainBatches s force).flatMap Act.carries = [] := by
  unfold drainBatches
  split <;> rfl

theorem carries_fulfilJobs (s : State) (who : ClientIdent) (body : Bytes) :
    ((fulfilJobs s who body).map Act.enqueue).flatMap Act.carries = [] := by
  rw [List.flatMap_eq_nil_iff]
  intro b hb
  obtain ⟨job, hj, rfl⟩ := List.mem_map.mp hb
  unfold fulfilJobs at hj
  split at hj
  · cases hj
  · obtain ⟨request, -, rfl⟩ := List.mem_map.mp hj
    rfl

theorem takeReadyJob_flow {s s' u : State} {a : Act} {new : List Act}
    (ha : a = .takeReadyJob ∨ ∃ deadline, a = .waiting deadline) (hsame : SameItems s u)
    (hq : u.worker.queue = s.worker.queue) (hf : u.worker.inFlight = s.worker.inFlight)
    (h : takeReadyJob u = (s', new)) : Flow s a s' new := by
  have hcarries : a.carries = [] := by
    rcases ha with rfl | ⟨deadline, rfl⟩ <;> rfl
  rcases takeReadyJob_cases h with ⟨rfl, rfl⟩ | ⟨job, before, after, hu, rfl, rfl⟩
  · exact .pass hsame hq (.inl hf) hcarries.symm
  · exact .take job before after ha ⟨hsame.events, hsame.metrics, hsame.next, hsame.dropped,
      hsame.settled, hsame.leftover⟩ (hq ▸ hu) rfl rfl

section

variable {s s' : State} {i : Input} {new : List Act}

theorem reportCrash_flow {body : ReportBody} {wantLog : Bool}
    (h : perform s (.reportCrash body wantLog) i = some (s', new)) :
    Flow s (.reportCrash body wantLog) s' new := by
  rcases reportCrash_cases h with ⟨rfl, rfl⟩ | ⟨-, rfl, rfl⟩
  · exact .pass .rfl rfl (.inl rfl) rfl
  · exact .pass ⟨rfl, rfl, rfl, rfl, rfl, rfl⟩ rfl (.inl rfl) rfl

theorem reportBug_flow {body : ReportBody} {wantLog : Bool}
    (h : perform s (.reportBug body wantLog) i = some (s', new)) :
    Flow s (.reportBug body wantLog) s' new := by
  rcases reportBug_cases h with ⟨rfl, rfl⟩ | ⟨-, rfl, rfl⟩
  · exact .pass .rfl rfl (.inl rfl) rfl
  · exact .pass ⟨rfl, rfl, rfl, rfl, rfl, rfl⟩ rfl (.inl rfl) rfl

/-- The job goes from the action into the queue's, with or without a file. -/
theorem writeAhead_flow {job : UploadJob} (h : perform s (.writeAhead job) i = some (s', new)) :
    Flow s (.writeAhead job) s' new := by
  have hone : ∀ path, [Act.enqueue { job with sidecarPath := path }].flatMap Act.carries =
      carried job := fun path => List.append_nil _
  rcases writeAhead_cases h with ⟨rfl, rfl | rfl⟩ | ⟨-, rfl, rfl⟩
  · exact .pass .rfl rfl (.inl rfl) (hone job.sidecarPath)
  · exact .pass .rfl rfl (.inl rfl) (hone none)
  · exact .pass ⟨rfl, rfl, rfl, rfl, rfl, rfl⟩ rfl (.inl rfl) (hone _)

theorem persistLeftover_flow {job : UploadJob}
    (h : perform s (.persistLeftover job) i = some (s', new)) :
    Flow s (.persistLeftover job) s' new := by
  obtain ⟨rfl, rfl | ⟨-, rfl⟩⟩ := persistLeftover_cases h
  · exact .pass .rfl rfl (.inl rfl) rfl
  · exact .pass ⟨rfl, rfl, rfl, rfl, rfl, rfl⟩ rfl (.inl rfl) rfl

theorem heartbeat_flow (h : perform s .heartbeat i = some (s', new)) : Flow s .heartbeat s' new := by
  obtain ⟨-, ⟨rfl, rfl⟩ | ⟨rfl, rfl⟩ | ⟨-, -, rfl, rfl⟩⟩ := heartbeat_cases h
  · exact .pass ⟨rfl, rfl, rfl, rfl, rfl, rfl⟩ rfl (.inl rfl) rfl
  · exact .pass .rfl rfl (.inl rfl) rfl
  · exact .pass .rfl rfl (.inl rfl) rfl

theorem waiting_flow {deadline : Nat} (h : perform s (.waiting deadline) i = some (s', new)) :
    Flow s (.waiting deadline) s' new := by
  rcases wakeUp_cases (waiting_cases h) with ⟨-, rfl, rfl⟩ | ⟨-, flushed, rfl, rfl⟩ | ⟨-, hw⟩
  · exact .pass ⟨rfl, rfl, rfl, rfl, rfl, rfl⟩ rfl (.inl rfl) rfl
  · exact .pass ⟨rfl, rfl, rfl, rfl, rfl, rfl⟩ rfl (.inl rfl) rfl
  · refine takeReadyJob_flow (.inr ⟨deadline, rfl⟩) ?_ ?_ ?_ hw
    · exact ⟨rfl, rfl, rfl, rfl, rfl, rfl⟩
    · rfl
    · rfl

/-- **What an action can do to the items.** -/
theorem perform_flow {a : Act} (h : perform s a i = some (s', new)) : Flow s a s' new := by
  cases a
  case reportCrash => exact reportCrash_flow h
  case reportBug => exact reportBug_flow h
  case writeAhead => exact writeAhead_flow h
  case persistLeftover => exact persistLeftover_flow h
  case heartbeat => exact heartbeat_flow h
  case waiting => exact waiting_flow h
  case takeReadyJob => exact takeReadyJob_flow (.inl rfl) .rfl rfl rfl (Option.some.inj h)
  case maybeFlushBatch metric now force => exact .drain metric i.stamp now force rfl (Option.some.inj h)
  case await job =>
    obtain ⟨acts, hdone, rfl⟩ := await_cases h
    exact .processed job _ acts rfl hdone rfl
  case joinWorker =>
    obtain ⟨-, rfl, rfl⟩ := joinWorker_cases h
    exact .leftovers rfl rfl
  case startSessionTracking =>
    rcases startSessionTracking_cases h with ⟨_, _, rfl, rfl⟩ | ⟨-, rfl, rfl⟩ <;>
      exact .pass ⟨rfl, rfl, rfl, rfl, rfl, rfl⟩ rfl (.inl rfl) rfl
  case workerFlush =>
    obtain ⟨-, rfl, rfl⟩ := workerFlush_cases h
    exact .pass .rfl rfl (.inl rfl) rfl
  case joinHeartbeat =>
    obtain ⟨-, rfl, rfl⟩ := joinHeartbeat_cases h
    exact .pass .rfl rfl (.inl rfl) rfl
  case stopWorker =>
    rcases stopWorker_cases h with ⟨-, rfl, rfl⟩ | ⟨-, rfl, rfl⟩
    · exact .pass .rfl rfl (.inl rfl) rfl
    · exact .pass ⟨rfl, rfl, rfl, rfl, rfl, rfl⟩ rfl (.inl rfl) rfl
  -- the other actions never wait
  all_goals obtain ⟨rfl, rfl⟩ := Prod.mk.inj (Option.some.inj h)
  case addItem metric text => exact .add metric text rfl rfl rfl
  case enqueue job => exact .enqueue job rfl rfl rfl
  case post => exact .pass .rfl rfl (.inl rfl) (List.append_nil _)
  case clearInFlight => exact .pass ⟨rfl, rfl, rfl, rfl, rfl, rfl⟩ rfl (.inr rfl) rfl
  case ackRequests => exact .pass .rfl rfl (.inl rfl) (carries_fulfilJobs ..)
  case flushAllBatches | drainReadyBatches => exact .pass .rfl rfl (.inl rfl) (carries_drainBatches ..)
  case startSession =>
    refine .pass ⟨rfl, rfl, rfl, rfl, rfl, rfl⟩ ?_ (.inl ?_) rfl <;>
    · dsimp only
      split <;> rfl
  case track | setConsent | trackIfConsented =>
    refine .pass ⟨rfl, rfl, rfl, rfl, rfl, rfl⟩ rfl (.inl rfl) ?_
    split <;> rfl
  -- the rest touches no item
  all_goals exact .pass ⟨rfl, rfl, rfl, rfl, rfl, rfl⟩ rfl (.inl rfl) rfl

end

/-- Only the worker's loop changes whether a job is in flight. -/
theorem Flow.inFlight {s s' : State} {a : Act} {new : List Act} (h : Flow s a s' new) :
    s'.worker.inFlight = s.worker.inFlight ∨
      a = .clearInFlight ∨ a = .takeReadyJob ∨ ∃ deadline, a = .waiting deadline := by
  cases h with
  | pass _ _ inFlight => exact inFlight.imp id .inl
  | add metric text _ after =>
    left
    rw [after]
    simp only [addItem]
    split <;> rfl
  | drain metric stamp now force _ after =>
    left
    unfold maybeFlushBatch at after
    split at after <;> obtain ⟨rfl, -⟩ := Prod.mk.inj after
    · rfl
    · cases metric <;> rfl
  | enqueue job _ after => exact .inl (by rw [after]; rfl)
  | take _ _ _ act => exact .inr (.inr act)
  | processed _ _ _ _ done => exact .inl (by cases done <;> rfl)
  | leftovers _ after =>
    obtain ⟨rfl, -⟩ := Prod.mk.inj after
    exact .inl rfl

/-! ## No item is lost or duplicated -/

/-- The serials the shared state accounts for. -/
def serials (s : State) : Multiset Nat :=
  ↑(s.eventBatch.items.map Item.serial) + ↑(s.metricBatch.items.map Item.serial) +
    ↑(s.worker.queue.flatMap carried) + ↑s.dropped + ↑s.settled + ↑s.leftover

/-- The serials an action accounts for. -/
def Act.held (a : Act) : Multiset Nat := ↑a.carries

theorem sum_held (acts : List Act) :
    (acts.map Act.held).sum = ↑(acts.flatMap Act.carries) := by
  induction acts with
  | nil => rfl
  | cons a acts ih =>
    rw [List.map_cons, List.sum_cons, ih, List.flatMap_cons, ← Multiset.coe_add]
    rfl

theorem SameItems.serials {s s' : State} (h : SameItems s s')
    (hq : s'.worker.queue = s.worker.queue) : serials s' = serials s := by
  simp only [Runtime.serials, h.events, h.metrics, h.dropped, h.settled, h.leftover, hq]

/-- An added item is in the batch; where the batch was full, its oldest item was dropped. -/
theorem serials_addItem (s : State) (metric : Bool) (text : Bytes) :
    serials (addItem s metric text) = serials s + {s.nextSerial} := by
  have hadd := (s.batch metric).add_items s.now { text, serial := s.nextSerial }
  have hqueue : (addItem s metric text).worker.queue = s.worker.queue := by
    simp only [addItem]
    split <;> rfl
  apply Multiset.ext.mpr
  intro k
  have hk := congrArg (fun l => (l.map Item.serial).count k) hadd
  simp only [serials, hqueue]
  cases metric <;>
  · simp only [addItem, State.batch, State.setBatch, Bool.false_eq_true, if_false, if_true,
      List.map_append, List.count_append, Multiset.count_add, Multiset.coe_count, List.map_cons,
      List.map_nil, ← Multiset.coe_singleton] at hk ⊢
    omega

/-- A drain moves the items of a batch into the envelopes its thread holds. -/
theorem serials_maybeFlushBatch {s s' : State} {metric force : Bool} {stamp : Bytes} {now : Nat}
    {new : List Act} (h : maybeFlushBatch s metric stamp now force = (s', new)) :
    serials s' + ↑(new.flatMap Act.carries) = serials s := by
  unfold maybeFlushBatch at h
  split at h <;> obtain ⟨rfl, rfl⟩ := Prod.mk.inj h
  · simp
  · have hdrain := (s.batch metric).drainEnvelopes_items stamp now force
    have hcarries : ∀ es : List Envelope,
        (es.map fun e => Act.enqueue (envelopeJob s metric e)).flatMap Act.carries =
          (es.flatMap Envelope.items).map Item.serial := by
      intro es
      rw [List.flatMap_map, List.map_flatMap]
      rfl
    apply Multiset.ext.mpr
    intro k
    have hk := congrArg (fun l => (l.map Item.serial).count k) hdrain
    rw [hcarries]
    simp only [serials]
    cases metric <;>
    · simp only [State.batch, State.setBatch, Bool.false_eq_true, if_false, if_true,
        List.map_append, List.count_append, Multiset.count_add, Multiset.coe_count] at hk ⊢
      omega

theorem serials_enqueue (s : State) (job : UploadJob) :
    serials (enqueue s job) = serials s + ↑(carried job) := by
  have hq := s.worker.enqueue_queue job
  apply Multiset.ext.mpr
  intro k
  have hk := congrArg (fun l => (l.flatMap carried).count k) hq
  simp only [serials, enqueue, List.flatMap_append, List.count_append, Multiset.count_add,
    Multiset.coe_count, List.flatMap_cons, List.flatMap_nil, List.append_nil] at hk ⊢
  omega

/-- A job that can be lost without a final outcome carries no item. -/
theorem Made.carried_of_lost {job : UploadJob} {response : HttpResponse} (h : Made job)
    (hl : job.isLogUpload = true ∨ job.durability = .ephemeral ∧ response.outcome = .transient) :
    carried job = [] := by
  unfold carried
  split
  · rename_i items ho
    simp only [Made, ho] at h
    rcases hl with hl | ⟨hl, -⟩
    · rw [h.2.2.2] at hl
      cases hl
    · rw [h.2.1] at hl
      cases hl
  · rfl

/-- Handling a response settles the items the job carries, or hands them on. -/
theorem Processed.serials {s s' : State} {job : UploadJob} {response : HttpResponse} {acts : List Act}
    (h : Processed s job response s' acts) (hj : Made job) :
    serials s' + ↑(acts.flatMap Act.carries) = serials s + ↑(carried job) := by
  cases h with
  | final _ _ _ follow =>
    have hnone : acts.flatMap Act.carries = [] := by
      rw [List.flatMap_eq_nil_iff]
      intro b hb
      cases follow b hb <;> rfl
    simp only [hnone, Runtime.serials, ← Multiset.coe_add, Multiset.coe_nil]
    abel
  | retry _ _ _ hint =>
    have hone : [Act.enqueue (Worker.retried job s.now hint)].flatMap Act.carries = carried job :=
      List.append_nil _
    rw [hone]
  | givenUp =>
    have hnone : (if Worker.persistable job then [Act.persistLeftover job] else []).flatMap
        Act.carries = [] := by
      split <;> rfl
    simp only [hnone, Runtime.serials, ← Multiset.coe_add, Multiset.coe_nil]
    abel
  | lost hl => simp [hj.carried_of_lost hl]

/-- **What an action does to the items**: it gives out the serials of the ones it adds, and
moves the others. -/
theorem Flow.conserved {s s' : State} {a : Act} {new : List Act} (h : Flow s a s' new)
    (ha : a.Ready) : ∃ given, serials s' + (new.map Act.held).sum = serials s + a.held + given ∧
      Multiset.range s'.nextSerial = Multiset.range s.nextSerial + given := by
  rw [sum_held]
  have hsame : ∀ {u : State}, u.nextSerial = s.nextSerial →
      Multiset.range u.nextSerial = Multiset.range s.nextSerial + 0 := by
    intro u hu
    rw [hu, add_zero]
  cases h with
  | pass same queue _ held =>
    refine ⟨0, ?_, hsame same.next⟩
    rw [held, same.serials queue, add_zero]
    rfl
  | add metric text act after made =>
    subst act after made
    refine ⟨{s.nextSerial}, ?_, ?_⟩
    · rw [serials_addItem]
      simp [Act.held, Act.carries]
    · have hnext : (addItem s metric text).nextSerial = s.nextSerial + 1 := rfl
      rw [hnext, Multiset.range_succ, ← Multiset.singleton_add, add_comm]
  | drain metric stamp now force act after =>
    subst act
    refine ⟨0, ?_, hsame ?_⟩
    · rw [serials_maybeFlushBatch after]
      simp [Act.held, Act.carries]
    · unfold maybeFlushBatch at after
      split at after <;> obtain ⟨rfl, -⟩ := Prod.mk.inj after
      · rfl
      · cases metric <;> rfl
  | enqueue job act after made =>
    subst act after made
    refine ⟨0, ?_, hsame rfl⟩
    rw [serials_enqueue]
    simp [Act.held, Act.carries]
  | take job before after act same queue left made =>
    subst made
    refine ⟨0, ?_, hsame same.next⟩
    have hheld : a.held = 0 := by
      rcases act with rfl | ⟨deadline, rfl⟩ <;> rfl
    have hone : [Act.post job].flatMap Act.carries = carried job := List.append_nil _
    rw [hheld, hone]
    simp only [serials, same.events, same.metrics, same.dropped, same.settled, same.leftover, left,
      queue, List.flatMap_append, List.flatMap_cons, ← Multiset.coe_add]
    abel
  | processed job outcome acts act done made =>
    subst act made
    refine ⟨0, ?_, hsame ?_⟩
    · have hclear : [Act.clearInFlight].flatMap Act.carries = [] := rfl
      rw [List.flatMap_append, hclear, List.append_nil,
        done.serials (ha.made job (List.mem_singleton_self job)), add_zero]
      rfl
    · cases done <;> rfl
  | leftovers act after =>
    subst act
    obtain ⟨rfl, rfl⟩ := Prod.mk.inj after
    refine ⟨0, ?_, hsame rfl⟩
    have hnone : ((s.worker.queue.filter Worker.persistable).map
        Act.persistLeftover).flatMap Act.carries = [] := by
      rw [List.flatMap_eq_nil_iff]
      intro b hb
      obtain ⟨job, -, rfl⟩ := List.mem_map.mp hb
      rfl
    rw [hnone]
    simp only [serials, Act.held, Act.carries, List.flatMap_nil, ← Multiset.coe_add,
      Multiset.coe_nil]
    abel

/-- Every serial that was given out is somewhere, and at one place. -/
def Conserved (c : Config) : Prop :=
  Interleave.total serials Act.held c = Multiset.range c.shared.nextSerial

theorem held_of_jobs {a : Act} (h : a.jobs = []) : a.held = 0 := by
  cases a <;> first | rfl | cases h

theorem sum_held_of_jobs {acts : List Act} (h : ∀ a ∈ acts, a.jobs = []) :
    (acts.map Act.held).sum = 0 :=
  Interleave.sum_map_eq_zero fun a ha => held_of_jobs (h a ha)

/-- A launch starts with no item anywhere. -/
theorem conserved_launch (s : State) (o : Launch) :
    Conserved ⟨launched s o, initProgram (launched s o) o :: [.heartbeat] :: [.loopTop] ::
      List.replicate o.hostThreads []⟩ := by
  have hdrain : ((drainSidecars (launched s o)).map Act.held).sum = 0 := by
    refine Interleave.sum_map_eq_zero fun a ha => ?_
    obtain ⟨r, -, rfl⟩ := List.mem_map.mp ha
    rfl
  have hcalls := sum_held_of_jobs (jobs_initCalls (o := o))
  have hinit : ((initProgram (launched s o) o).map Act.held).sum = 0 := by
    simp only [initProgram, List.map_append, List.sum_append, hdrain, hcalls, add_zero]
  have hbeat : Act.heartbeat.held = 0 := rfl
  have hworker : Act.loopTop.held = 0 := rfl
  have hserials : serials (launched s o) = 0 := by simp [serials, launched, Worker.start]
  have hnext : (launched s o).nextSerial = 0 := rfl
  simp only [Conserved, Interleave.total, List.map_cons, List.sum_cons, List.map_replicate,
    List.map_nil, List.sum_nil, hinit, hbeat, hworker, hserials, hnext, Multiset.range_zero]
  simp

theorem conserved_step {c c' : Config} {l : Label} (hc : WellMade c) (hs : Conserved c)
    (h : step c l = some c') : Conserved c' := by
  rcases Interleave.step_cases h with ⟨t, i, a, rest, s', new, rfl, ht, hp, rfl⟩ |
    ⟨t, k, s', new, rfl, ht, hk, rfl⟩ | ⟨e, rfl, he⟩
  · have ha : a.Ready := hc.act (List.mem_of_getElem? ht) List.mem_cons_self
    obtain ⟨given, hmoved, hgiven⟩ := (perform_flow hp).conserved ha
    unfold Conserved at hs ⊢
    rw [Interleave.total_exec_gain ht hmoved, hs, hgiven]
  · simp only [machine, call] at hk
    split at hk
    · obtain ⟨rfl, rfl⟩ := Prod.mk.inj (Option.some.inj hk)
      obtain ⟨frame, hbefore, hafter⟩ := Interleave.total_call serials Act.held ht
      unfold Conserved at hs ⊢
      rw [hafter, sum_held_of_jobs (by simpa using jobs_call k), ← hs, hbefore, add_zero]
    · cases hk
  · obtain ⟨s', ps'⟩ := c'
    rcases env_cases he with ⟨elapsed, -, rfl, rfl⟩ | ⟨o, -, -, rfl, rfl⟩ | ⟨-, rfl, rfl⟩ |
      ⟨t, -, -, -, -, -, -, ht, rfl, rfl⟩
    · exact hs
    · exact conserved_launch c.shared o
    · exact hs
    · obtain ⟨frame, hbefore, hafter⟩ := Interleave.total_call serials Act.held ht
      unfold Conserved at hs ⊢
      rw [hafter, sum_held_of_jobs fun a ha => mem_destructor ha, add_zero]
      exact hbefore.symm.trans hs

end Tombstone.Runtime
