import Tombstone.Items

/- Which action leads to which, which thread takes which actions, and where the worker's
   loop stands (`worker.cpp`, `client.cpp`).

   The heartbeat loop runs on thread 1, the worker's loop on thread 2. What is proved:

   1. what an action puts in front of its thread's program (`Leads`, `perform_leads`), once;
   2. from that, that every thread keeps to its own actions (`Leads.on`);
   3. the worker's program is at one of eight places of its loop, and it has a job in flight
      at three of them (`WorkerAt`, `worker_step`); so while no job is in flight, nothing is
      left to do for one (`WorkerAt.idle`). -/
namespace Tombstone

/-- The job is neither a retry nor what a response asked for. -/
def UploadJob.FirstTry (job : UploadJob) : Prop :=
  job.attempt = 0 ∧ job.origin ≠ .logUpload ∧ job.origin ≠ .fulfil

namespace Runtime

/-- What is done for a job in flight, and what comes of it: the job is with the transport,
its response is handled, it is retried, a log is uploaded, a request is fulfilled. -/
def Act.Delivering : Act → Prop
  | .post _ | .await _ | .ackRequests _ => True
  | .enqueue job => ¬ job.FirstTry
  | _ => False

/-- What the drainer still has to do. -/
def Act.Drains : Act → Prop
  | .drainReadyBatches | .maybeFlushBatch _ _ false => True
  | .enqueue job => job.FirstTry
  | _ => False

/-- What a handled response leaves to do. -/
def Act.FollowsUp : Act → Prop
  | .enqueue _ | .ackRequests _ | .rttSample | .track _ _ | .addItem _ _ | .persistLeftover _ => True
  | _ => False

/-- Which action can follow from which. -/
inductive Leads : Act → Act → Prop where
  -- the host's calls
  | track {metric : Bool} {text : Bytes} : Leads (.track metric text) (.addItem metric text)
  | crashFlush {body : ReportBody} {log : Bool} : Leads (.reportCrash body log) .flushAllBatches
  | crash {body : ReportBody} {log : Bool} {job : UploadJob} (first : job.FirstTry) :
      Leads (.reportCrash body log) (.writeAhead job)
  | bug {body : ReportBody} {log : Bool} {job : UploadJob} (first : job.FirstTry) :
      Leads (.reportBug body log) (.writeAhead job)
  | ahead {job : UploadJob} {path : Option SidecarPath} :
      Leads (.writeAhead job) (.enqueue { job with sidecarPath := path })
  | request {body : Bytes} {job : UploadJob} (first : job.FirstTry) :
      Leads (.requestPlayerLogs body) (.enqueue job)
  | consent {granted : Bool} : Leads (.setConsent granted) .startSessionTracking
  | unclean {job : UploadJob} (first : job.FirstTry) : Leads .startSessionTracking (.writeAhead job)
  | flushBatches : Leads .flush .flushAllBatches
  | flushWait {mark : FlushMark} : Leads .flush (.workerFlush mark)
  | flushBatch {metric : Bool} {now : Nat} : Leads .flushAllBatches (.maybeFlushBatch metric now true)
  | envelope {metric force : Bool} {now : Nat} {job : UploadJob} (first : job.FirstTry) :
      Leads (.maybeFlushBatch metric now force) (.enqueue job)
  -- `Client::init` and `~Client`
  | tracking : Leads .trackIfConsented .startSessionTracking
  | join : Leads .stopWorker .joinWorker
  | leftover {job : UploadJob} : Leads .joinWorker (.persistLeftover job)
  -- the heartbeat thread's loop
  | beat {job : UploadJob} (first : job.FirstTry) : Leads .heartbeat (.enqueue job)
  | nextBeat : Leads .heartbeat .heartbeat
  -- the worker thread's loop
  | drainReady : Leads .loopTop .drainReadyBatches
  | drained : Leads .loopTop .waitWake
  | drainBatch {metric : Bool} {now : Nat} :
      Leads .drainReadyBatches (.maybeFlushBatch metric now false)
  | wait {deadline : Nat} : Leads .waitWake (.waiting deadline)
  | woken {deadline : Nat} : Leads (.waiting deadline) .takeReadyJob
  | again {a : Act} (taking : a = .takeReadyJob ∨ ∃ deadline, a = .waiting deadline) : Leads a .loopTop
  | take {a : Act} {job : UploadJob} (taking : a = .takeReadyJob ∨ ∃ deadline, a = .waiting deadline) :
      Leads a (.post job)
  | posted {job : UploadJob} : Leads (.post job) (.await job)
  | followUp {job : UploadJob} {b : Act} (follow : b.FollowsUp) : Leads (.await job) b
  | handled {job : UploadJob} : Leads (.await job) .clearInFlight
  | fulfil {body : Bytes} {job : UploadJob} : Leads (.ackRequests body) (.enqueue job)
  | sample {text : Bytes} : Leads .rttSample (.track true text)
  | nextJob : Leads .clearInFlight .loopTop

theorem Processed.followsUp {s s' : State} {job : UploadJob} {response : HttpResponse}
    {acts : List Act} (h : Processed s job response s' acts) : ∀ b ∈ acts, b.FollowsUp := by
  intro b hb
  cases h with
  | final _ _ _ follow => cases follow b hb <;> trivial
  | retry =>
    rw [List.mem_singleton.mp hb]
    trivial
  | givenUp =>
    split at hb
    · rw [List.mem_singleton.mp hb]
      trivial
    · cases hb
  | lost => cases hb

theorem takeReadyJob_leads {s s' : State} {a : Act} {new : List Act}
    (ha : a = .takeReadyJob ∨ ∃ deadline, a = .waiting deadline)
    (h : takeReadyJob s = (s', new)) : ∀ b ∈ new, Leads a b := by
  intro b hb
  rcases takeReadyJob_cases h with ⟨-, rfl⟩ | ⟨_, _, _, -, -, rfl⟩
  · rw [List.mem_singleton.mp hb]
    exact .again ha
  · rw [List.mem_singleton.mp hb]
    exact .take ha

theorem mem_drainBatches {s : State} {force : Bool} {b : Act} (h : b ∈ drainBatches s force) :
    ∃ metric, b = .maybeFlushBatch metric s.now force := by
  unfold drainBatches at h
  split at h
  · simp only [List.mem_cons, List.not_mem_nil, or_false] at h
    rcases h with rfl | rfl
    · exact ⟨false, rfl⟩
    · exact ⟨true, rfl⟩
  · cases h

theorem firstTry_reportJob {s : State} {kind : SidecarKind} {body : Bytes} {log prev : Bool} :
    (reportJob s kind body log prev).FirstTry := ⟨rfl, by simp [reportJob], by simp [reportJob]⟩

section

variable {s s' : State} {i : Input} {new : List Act}

theorem reportCrash_leads {body : ReportBody} {wantLog : Bool}
    (h : perform s (.reportCrash body wantLog) i = some (s', new)) :
    ∀ b ∈ new, Leads (.reportCrash body wantLog) b := by
  intro b hb
  rcases reportCrash_cases h with ⟨-, rfl⟩ | ⟨-, -, rfl⟩
  · cases hb
  · simp only [List.mem_cons, List.not_mem_nil, or_false] at hb
    rcases hb with rfl | rfl
    · exact .crashFlush
    · exact .crash firstTry_reportJob

theorem reportBug_leads {body : ReportBody} {wantLog : Bool}
    (h : perform s (.reportBug body wantLog) i = some (s', new)) :
    ∀ b ∈ new, Leads (.reportBug body wantLog) b := by
  intro b hb
  rcases reportBug_cases h with ⟨-, rfl⟩ | ⟨-, -, rfl⟩
  · cases hb
  · rw [List.mem_singleton.mp hb]
    exact .bug firstTry_reportJob

theorem startSessionTracking_leads (h : startSessionTracking s i = some (s', new)) :
    ∀ b ∈ new, Leads .startSessionTracking b := by
  intro b hb
  rcases startSessionTracking_cases h with ⟨_, _, -, rfl⟩ | ⟨-, -, rfl⟩
  · cases hb
  · rw [List.mem_singleton.mp hb]
    exact .unclean firstTry_reportJob

theorem maybeFlushBatch_leads {metric force : Bool} {now : Nat}
    (h : perform s (.maybeFlushBatch metric now force) i = some (s', new)) :
    ∀ b ∈ new, Leads (.maybeFlushBatch metric now force) b := by
  intro b hb
  rcases maybeFlushBatch_cases h with ⟨-, -, rfl⟩ | ⟨_, _, -, -, rfl⟩
  · cases hb
  · obtain ⟨e, -, rfl⟩ := List.mem_map.mp hb
    exact .envelope ⟨rfl, by simp [envelopeJob], by simp [envelopeJob]⟩

theorem heartbeat_leads (h : perform s .heartbeat i = some (s', new)) :
    ∀ b ∈ new, Leads .heartbeat b := by
  intro b hb
  obtain ⟨-, ⟨-, rfl⟩ | ⟨-, rfl⟩ | ⟨-, -, -, rfl⟩⟩ := heartbeat_cases h
  · cases hb
  · rw [List.mem_singleton.mp hb]
    exact .nextBeat
  · simp only [List.mem_cons, List.not_mem_nil, or_false] at hb
    rcases hb with rfl | rfl
    · exact .beat ⟨rfl, by simp [heartbeatJob], by simp [heartbeatJob]⟩
    · exact .nextBeat

theorem waiting_leads {deadline : Nat} (h : perform s (.waiting deadline) i = some (s', new)) :
    ∀ b ∈ new, Leads (.waiting deadline) b := by
  intro b hb
  rcases wakeUp_cases (waiting_cases h) with ⟨-, -, rfl⟩ | ⟨-, _, -, rfl⟩ | ⟨-, hw⟩
  · cases hb
  · rw [List.mem_singleton.mp hb]
    exact .woken
  · exact takeReadyJob_leads (.inr ⟨deadline, rfl⟩) hw b hb

theorem await_leads {job : UploadJob} (h : perform s (.await job) i = some (s', new)) :
    ∀ b ∈ new, Leads (.await job) b := by
  intro b hb
  obtain ⟨acts, hdone, rfl⟩ := await_cases h
  rcases List.mem_append.mp hb with hb | hb
  · exact .followUp (hdone.followsUp b hb)
  · rw [List.mem_singleton.mp hb]
    exact .handled

/-- **What an action puts in front of its thread's program.** -/
theorem perform_leads {a : Act} (h : perform s a i = some (s', new)) : ∀ b ∈ new, Leads a b := by
  cases a
  case reportCrash => exact reportCrash_leads h
  case reportBug => exact reportBug_leads h
  case startSessionTracking => exact startSessionTracking_leads h
  case maybeFlushBatch => exact maybeFlushBatch_leads h
  case heartbeat => exact heartbeat_leads h
  case waiting => exact waiting_leads h
  case takeReadyJob => exact takeReadyJob_leads (.inl rfl) (Option.some.inj h)
  case await => exact await_leads h
  all_goals intro b hb
  case track =>
    obtain ⟨-, rfl | ⟨-, rfl⟩⟩ := track_cases h
    · cases hb
    · rw [List.mem_singleton.mp hb]
      exact .track
  case writeAhead =>
    obtain ⟨path, rfl⟩ := writeAhead_new h
    rw [List.mem_singleton.mp hb]
    exact .ahead
  case persistLeftover =>
    obtain ⟨rfl, -⟩ := persistLeftover_cases h
    cases hb
  case workerFlush =>
    obtain ⟨-, -, rfl⟩ := workerFlush_cases h
    cases hb
  case joinHeartbeat =>
    obtain ⟨-, -, rfl⟩ := joinHeartbeat_cases h
    cases hb
  case stopWorker =>
    rcases stopWorker_cases h with ⟨-, -, rfl⟩ | ⟨-, -, rfl⟩
    · cases hb
    · rw [List.mem_singleton.mp hb]
      exact .join
  case joinWorker =>
    obtain ⟨-, -, rfl⟩ := joinWorker_cases h
    obtain ⟨job, -, rfl⟩ := List.mem_map.mp hb
    exact .leftover
  -- the other actions never wait
  all_goals obtain ⟨-, rfl⟩ := Prod.mk.inj (Option.some.inj h)
  case setConsent =>
    obtain ⟨-, hb⟩ := List.mem_ite_nil_right.mp hb
    rw [List.mem_singleton.mp hb]
    exact .consent
  case trackIfConsented =>
    obtain ⟨-, hb⟩ := List.mem_ite_nil_right.mp hb
    rw [List.mem_singleton.mp hb]
    exact .tracking
  case flush =>
    simp only [List.mem_cons, List.not_mem_nil, or_false] at hb
    rcases hb with rfl | rfl
    · exact .flushBatches
    · exact .flushWait
  case flushAllBatches =>
    obtain ⟨metric, rfl⟩ := mem_drainBatches hb
    exact .flushBatch
  case loopTop =>
    simp only [List.mem_cons, List.not_mem_nil, or_false] at hb
    rcases hb with rfl | rfl
    · exact .drainReady
    · exact .drained
  case drainReadyBatches =>
    obtain ⟨metric, rfl⟩ := mem_drainBatches hb
    exact .drainBatch
  case ackRequests =>
    obtain ⟨job, -, rfl⟩ := List.mem_map.mp hb
    exact .fulfil
  -- what is left leads to one action, or to none
  case requestPlayerLogs =>
    rw [List.mem_singleton.mp hb]
    exact .request ⟨rfl, by simp [playerLogsJob], by simp [playerLogsJob]⟩
  case waitWake =>
    rw [List.mem_singleton.mp hb]
    exact .wait
  case post =>
    rw [List.mem_singleton.mp hb]
    exact .posted
  case rttSample =>
    rw [List.mem_singleton.mp hb]
    exact .sample
  case clearInFlight =>
    rw [List.mem_singleton.mp hb]
    exact .nextJob
  all_goals cases hb

end

/-! ## Every thread keeps to its own actions -/

/-- Whether thread `t` may be about to take the action. -/
def Act.On (t : Nat) : Act → Prop
  | .heartbeat => t = 1
  | .loopTop | .drainReadyBatches | .waitWake | .waiting _ | .takeReadyJob | .post _ | .await _
  | .ackRequests _ | .rttSample | .clearInFlight => t = 2
  | .maybeFlushBatch _ _ true => t ≠ 1 ∧ t ≠ 2
  | .maybeFlushBatch _ _ false => t = 2
  | .enqueue job => job.FirstTry ∨ t = 2
  | .writeAhead job => job.FirstTry ∧ t ≠ 1 ∧ t ≠ 2
  | .track _ _ | .addItem _ _ | .persistLeftover _ => t ≠ 1
  | _ => t ≠ 1 ∧ t ≠ 2

theorem Act.FollowsUp.on {b : Act} (h : b.FollowsUp) : b.On 2 := by
  cases b with
  | enqueue => exact .inr rfl
  | ackRequests => rfl
  | rttSample => rfl
  | track | addItem | persistLeftover => exact (by decide : (2 : Nat) ≠ 1)
  | _ => exact h.elim

/-- **Every thread keeps to its own actions.** -/
theorem Leads.on {a b : Act} {t : Nat} (h : Leads a b) (ha : a.On t) : b.On t := by
  cases h with
  | track | flushBatch | tracking | join | crashFlush | consent | flushBatches | flushWait |
    nextBeat | drainReady | drained | drainBatch | wait | woken | posted | handled | nextJob => exact ha
  | crash first | bug first | unclean first => exact ⟨first, ha⟩
  | ahead => exact .inl ha.1
  | request first | envelope first | beat first => exact .inl first
  | leftover => exact ha.1
  | again taking =>
    rcases taking with rfl | ⟨_, rfl⟩ <;> exact ha
  | take taking =>
    rcases taking with rfl | ⟨_, rfl⟩ <;> exact ha
  | followUp follow =>
    obtain rfl : t = 2 := ha
    exact follow.on
  | fulfil => exact .inr ha
  | sample =>
    obtain rfl : t = 2 := ha
    exact (by decide : (2 : Nat) ≠ 1)

theorem perform_on {s s' : State} {a : Act} {i : Input} {new : List Act} {t : Nat}
    (h : perform s a i = some (s', new)) (ha : a.On t) : ∀ b ∈ new, b.On t :=
  fun b hb => (perform_leads h b hb).on ha

/-! ## The worker's loop -/

/-- Where the worker's program stands in its loop, and whether a job is in flight there. -/
inductive WorkerAt : Bool → List Act → Prop where
  | top : WorkerAt false [.loopTop]
  | draining (acts : List Act) (drains : ∀ a ∈ acts, a.Drains) : WorkerAt false (acts ++ [.waitWake])
  | waiting (deadline : Nat) : WorkerAt false [.waiting deadline]
  | taking : WorkerAt false [.takeReadyJob]
  | stopped : WorkerAt false []
  | posting (job : UploadJob) : WorkerAt true [.post job]
  | awaiting (job : UploadJob) : WorkerAt true [.await job]
  | handled (acts : List Act) (follow : ∀ a ∈ acts, a.FollowsUp) :
      WorkerAt true (acts ++ [.clearInFlight])

/-- **While no job is in flight, the worker has nothing left to do for one.** -/
theorem WorkerAt.idle {p : List Act} (h : WorkerAt false p) : ∀ a ∈ p, ¬ a.Delivering := by
  intro a ha
  generalize hb : false = flight at h
  cases h with
  | top =>
    rw [List.mem_singleton.mp ha]
    exact id
  | draining acts drains =>
    rcases List.mem_append.mp ha with ha | ha
    · have hd := drains a ha
      cases a <;> first | exact id | exact not_not_intro hd | exact hd.elim
    · rw [List.mem_singleton.mp ha]
      exact id
  | waiting deadline =>
    rw [List.mem_singleton.mp ha]
    exact id
  | taking =>
    rw [List.mem_singleton.mp ha]
    exact id
  | stopped => cases ha
  | posting => cases hb
  | awaiting => cases hb
  | handled => cases hb

theorem takeReadyJob_worker {s s' : State} {new : List Act} (h : takeReadyJob s = (s', new))
    (hf : s.worker.inFlight = false) : WorkerAt s'.worker.inFlight new := by
  rcases takeReadyJob_cases h with ⟨rfl, rfl⟩ | ⟨job, _, _, -, rfl, rfl⟩
  · rw [hf]
    exact .top
  · exact .posting job

theorem Processed.inFlight {s s' : State} {job : UploadJob} {response : HttpResponse} {acts : List Act}
    (h : Processed s job response s' acts) : s'.worker.inFlight = s.worker.inFlight := by
  cases h <;> rfl

/-- One of the drainer's actions leaves drainer's actions, and no job in flight. -/
theorem drains_step {s s' : State} {a : Act} {i : Input} {new : List Act}
    (h : perform s a i = some (s', new)) (ha : a.Drains) :
    s'.worker.inFlight = s.worker.inFlight ∧ ∀ b ∈ new, b.Drains := by
  constructor
  · rcases (perform_flow h).inFlight with hsame | rfl | rfl | ⟨deadline, rfl⟩
    · exact hsame
    all_goals exact ha.elim
  · intro b hb
    cases perform_leads h b hb with
    | drainBatch => trivial
    | envelope first => exact first
    | again taking | take taking => rcases taking with rfl | ⟨_, rfl⟩ <;> exact ha.elim
    | _ => exact ha.elim

/-- One of the actions a response left leaves such actions, and the job stays in flight. -/
theorem followsUp_step {s s' : State} {a : Act} {i : Input} {new : List Act}
    (h : perform s a i = some (s', new)) (ha : a.FollowsUp) :
    s'.worker.inFlight = s.worker.inFlight ∧ ∀ b ∈ new, b.FollowsUp := by
  constructor
  · rcases (perform_flow h).inFlight with hsame | rfl | rfl | ⟨deadline, rfl⟩
    · exact hsame
    all_goals exact ha.elim
  · intro b hb
    cases perform_leads h b hb with
    | fulfil | sample | track => trivial
    | again taking | take taking => rcases taking with rfl | ⟨_, rfl⟩ <;> exact ha.elim
    | _ => exact ha.elim

/-- **The worker's program stays at a place of its loop.** -/
theorem worker_step {s s' : State} {a : Act} {i : Input} {rest new : List Act}
    (h : perform s a i = some (s', new)) (hw : WorkerAt s.worker.inFlight (a :: rest)) :
    WorkerAt s'.worker.inFlight (new ++ rest) := by
  generalize hf : s.worker.inFlight = flight at hw
  generalize hp : a :: rest = p at hw
  cases hw with
  | top =>
    obtain ⟨rfl, rfl⟩ := List.cons.inj hp
    obtain ⟨rfl, rfl⟩ := Prod.mk.inj (Option.some.inj h)
    rw [hf]
    exact .draining [.drainReadyBatches] (by simp [Act.Drains])
  | draining acts drains =>
    cases acts with
    | nil =>
      obtain ⟨rfl, rfl⟩ := List.cons.inj hp
      obtain ⟨rfl, rfl⟩ := Prod.mk.inj (Option.some.inj h)
      rw [hf]
      exact .waiting _
    | cons b acts =>
      obtain ⟨rfl, rfl⟩ := List.cons.inj hp
      obtain ⟨hsame, hnew⟩ := drains_step h (drains a List.mem_cons_self)
      show WorkerAt s'.worker.inFlight (new ++ (acts ++ [.waitWake]))
      rw [hsame, hf, ← List.append_assoc]
      refine .draining _ fun b hb => ?_
      rcases List.mem_append.mp hb with hb | hb
      · exact hnew b hb
      · exact drains b (List.mem_cons_of_mem a hb)
  | waiting deadline =>
    obtain ⟨rfl, rfl⟩ := List.cons.inj hp
    rw [List.append_nil]
    simp only [perform] at h
    split at h
    · rcases wakeUp_cases (Option.some.inj h) with ⟨-, rfl, rfl⟩ | ⟨-, flushed, rfl, rfl⟩ | ⟨-, hw⟩
      · rw [show ({ s with workerThread := false } : State).worker.inFlight = false from hf]
        exact .stopped
      · dsimp only
        rw [hf]
        exact .taking
      · exact takeReadyJob_worker hw hf
    · cases h
  | taking =>
    obtain ⟨rfl, rfl⟩ := List.cons.inj hp
    rw [List.append_nil]
    exact takeReadyJob_worker (Option.some.inj h) hf
  | stopped => cases hp
  | posting job =>
    obtain ⟨rfl, rfl⟩ := List.cons.inj hp
    obtain ⟨rfl, rfl⟩ := Prod.mk.inj (Option.some.inj h)
    rw [hf]
    exact .awaiting job
  | awaiting job =>
    obtain ⟨rfl, rfl⟩ := List.cons.inj hp
    obtain ⟨rfl, rfl⟩ := Prod.mk.inj (Option.some.inj h)
    have hdone := process_cases (Prod.mk.eta (p := process s job i)).symm
    rw [List.append_nil, hdone.inFlight, hf]
    exact .handled _ hdone.followsUp
  | handled acts follow =>
    cases acts with
    | nil =>
      obtain ⟨rfl, rfl⟩ := List.cons.inj hp
      obtain ⟨rfl, rfl⟩ := Prod.mk.inj (Option.some.inj h)
      exact .top
    | cons b acts =>
      obtain ⟨rfl, rfl⟩ := List.cons.inj hp
      obtain ⟨hsame, hnew⟩ := followsUp_step h (follow a List.mem_cons_self)
      show WorkerAt s'.worker.inFlight (new ++ (acts ++ [.clearInFlight]))
      rw [hsame, hf, ← List.append_assoc]
      refine .handled _ fun b hb => ?_
      rcases List.mem_append.mp hb with hb | hb
      · exact hnew b hb
      · exact follow b (List.mem_cons_of_mem a hb)

end Runtime

end Tombstone
