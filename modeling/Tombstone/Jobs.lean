import Tombstone.Runtime

/- What one action does to the outbound jobs.

   A job is in the queue, or a thread holds it: it is about to be written ahead or enqueued,
   it is with the transport, or it is about to be persisted. This file

   1. says what handling a response can do (`Processed`, `process_cases`);
   2. says what each of the bigger actions does (`writeAhead_cases`, `heartbeat_cases` and the
      like), for every case analysis of `perform` to use;
   3. says what any action can do to the jobs, the queue and the disk (`Effect`,
      `perform_effect`), once, for the results about durability to use;
   4. proves that what a job is made of follows from where it came from (`Made`), in every
      reachable state (`reachable_made`). -/
namespace Tombstone.Runtime

/-- The job a thread holds while it is about to take an action. -/
def Act.jobs : Act → List UploadJob
  | .writeAhead job | .enqueue job | .post job | .await job | .persistLeftover job => [job]
  | _ => []

def jobsOf (acts : List Act) : List UploadJob := acts.flatMap Act.jobs

@[simp] theorem jobsOf_nil : jobsOf [] = [] := rfl

@[simp] theorem jobsOf_cons (a : Act) (acts : List Act) :
    jobsOf (a :: acts) = a.jobs ++ jobsOf acts := rfl

@[simp] theorem jobsOf_append (acts acts' : List Act) :
    jobsOf (acts ++ acts') = jobsOf acts ++ jobsOf acts' := List.flatMap_append

theorem jobsOf_eq_nil {acts : List Act} : jobsOf acts = [] ↔ ∀ a ∈ acts, a.jobs = [] :=
  List.flatMap_eq_nil_iff

theorem mem_jobsOf {job : UploadJob} {acts : List Act} :
    job ∈ jobsOf acts ↔ ∃ a ∈ acts, job ∈ a.jobs := List.mem_flatMap

@[simp] theorem jobsOf_map_enqueue (jobs : List UploadJob) :
    jobsOf (jobs.map Act.enqueue) = jobs := by
  induction jobs with
  | nil => rfl
  | cons job jobs ih => simp [ih, Act.jobs]

@[simp] theorem jobsOf_map_persistLeftover (jobs : List UploadJob) :
    jobsOf (jobs.map Act.persistLeftover) = jobs := by
  induction jobs with
  | nil => rfl
  | cons job jobs ih => simp [ih, Act.jobs]

/-! ## Handling a response -/

/-- What a final response can leave to do. -/
inductive FollowUp (job : UploadJob) (response : HttpResponse) : Act → Prop where
  | log (requested : job.requestLog = true) (upload : JsonScan.LogUpload) (bytes : Bytes)
      (granted : JsonScan.findLogUpload response.body = some upload) :
      FollowUp job response (.enqueue (logUploadJob upload bytes))
  | ack (parsed : job.parseAck = true) (body : Bytes) : FollowUp job response (.ackRequests body)
  | rtt : FollowUp job response .rttSample

/-- What handling a response to `job` can do. -/
inductive Processed (s : State) (job : UploadJob) (response : HttpResponse) : State → List Act → Prop where
  | final (claimed : Bool) {acts : List Act} (log : job.isLogUpload = false)
      (final : response.outcome ≠ .transient) (follow : ∀ a ∈ acts, FollowUp job response a) :
      Processed s job response
        { s with
          sidecars := s.sidecars.remove job.sidecarPath
          settled := s.settled ++ carried job
          worker := { s.worker with previousLogClaimed := claimed } } acts
  | retry (transient : response.outcome = .transient)
      (kept : job.isLogUpload = true ∨ job.durability ≠ .ephemeral)
      (attempts : job.attempt + 1 < Worker.maxAttempts) (hint : Option Nat) :
      Processed s job response s [.enqueue (Worker.retried job s.now hint)]
  | givenUp (log : job.isLogUpload = false) (transient : response.outcome = .transient)
      (kept : job.durability ≠ .ephemeral) (attempts : Worker.maxAttempts ≤ job.attempt + 1) :
      Processed s job response { s with settled := s.settled ++ carried job }
        (if Worker.persistable job then [.persistLeftover job] else [])
  | lost (lost : job.isLogUpload = true ∨ job.durability = .ephemeral ∧ response.outcome = .transient) :
      Processed s job response s []

theorem scheduleLogUpload_cases (s : State) (job : UploadJob) (i : Input) :
    ∃ claimed, (scheduleLogUpload s job i).1 =
        { s with worker := { s.worker with previousLogClaimed := claimed } } ∧
      ((scheduleLogUpload s job i).2 = [] ∨
        ∃ upload bytes, JsonScan.findLogUpload i.response.body = some upload ∧
          (scheduleLogUpload s job i).2 = [.enqueue (logUploadJob upload bytes)]) := by
  unfold scheduleLogUpload
  split
  · exact ⟨_, rfl, .inl rfl⟩
  · rename_i upload hgranted
    split
    · exact ⟨_, rfl, .inl rfl⟩
    · dsimp only
      split
      · exact ⟨_, rfl, .inl rfl⟩
      · exact ⟨_, rfl, .inr ⟨upload, _, hgranted, rfl⟩⟩

theorem retryOrGiveUp_cases {s s' : State} {job : UploadJob} {hint : Option Nat} {acts : List Act}
    (h : retryOrGiveUp s job hint = (s', acts)) :
    (job.attempt + 1 < Worker.maxAttempts ∧ s' = s ∧
      acts = [.enqueue (Worker.retried job s.now hint)]) ∨
    (Worker.maxAttempts ≤ job.attempt + 1 ∧ s' = { s with settled := s.settled ++ carried job } ∧
      acts = if Worker.persistable job then [.persistLeftover job] else []) := by
  unfold retryOrGiveUp at h
  split at h
  · rename_i hlt
    obtain ⟨rfl, rfl⟩ := Prod.mk.inj h
    exact .inl ⟨hlt, rfl, rfl⟩
  · rename_i hlt
    obtain ⟨rfl, rfl⟩ := Prod.mk.inj h
    exact .inr ⟨Nat.le_of_not_lt hlt, rfl, rfl⟩

theorem handlePostResult_cases {s s' : State} {job : UploadJob} {i : Input} {acts : List Act}
    (hl : job.isLogUpload = false) (h : handlePostResult s job i = (s', acts)) :
    Processed s job i.response s' acts := by
  unfold handlePostResult at h
  split at h
  · rename_i ho
    have hfinal : i.response.outcome ≠ .transient := by simp [ho]
    have hack : ∀ a ∈ (if job.parseAck then [Act.ackRequests i.response.body] else []),
        FollowUp job i.response a := by
      intro a ha
      split at ha
      · rename_i hp
        rw [List.mem_singleton.mp ha]
        exact .ack hp _
      · cases ha
    cases hreq : job.requestLog
    · simp only [hreq, Bool.false_eq_true, if_false, List.nil_append] at h
      obtain ⟨rfl, rfl⟩ := Prod.mk.inj h
      exact .final s.worker.previousLogClaimed hl hfinal hack
    · simp only [hreq, if_true] at h
      obtain ⟨rfl, rfl⟩ := Prod.mk.inj h
      obtain ⟨claimed, hs, hacts⟩ := scheduleLogUpload_cases
        { s with sidecars := s.sidecars.remove job.sidecarPath, settled := s.settled ++ carried job }
        job i
      rw [hs]
      refine .final claimed hl hfinal fun a ha => ?_
      rcases List.mem_append.mp ha with ha | ha
      · rcases hacts with hnone | ⟨upload, bytes, hgranted, hone⟩
        · rw [hnone] at ha
          cases ha
        · rw [hone] at ha
          rw [List.mem_singleton.mp ha]
          exact .log hreq upload bytes hgranted
      · exact hack a ha
  · rename_i ho
    obtain ⟨rfl, rfl⟩ := Prod.mk.inj h
    exact .final s.worker.previousLogClaimed hl (by simp [ho]) (by simp)
  · rename_i ho
    split at h
    · rename_i hd
      obtain ⟨rfl, rfl⟩ := Prod.mk.inj h
      exact .lost (.inr ⟨hd, ho⟩)
    · rename_i hd
      rcases retryOrGiveUp_cases h with ⟨hlt, rfl, rfl⟩ | ⟨hge, rfl, rfl⟩
      · exact .retry ho (.inr hd) hlt _
      · exact .givenUp hl ho hd hge

/-- **What handling a response can do.** -/
theorem process_cases {s s' : State} {job : UploadJob} {i : Input} {acts : List Act}
    (h : process s job i = (s', acts)) : Processed s job i.response s' acts := by
  unfold process at h
  split at h
  · rename_i hl
    split at h
    · rename_i ht
      rcases retryOrGiveUp_cases h with ⟨hlt, rfl, rfl⟩ | ⟨hge, -, -⟩
      · exact .retry ht.1 (.inl hl) hlt _
      · omega
    · obtain ⟨rfl, rfl⟩ := Prod.mk.inj h
      exact .lost (.inl hl)
  · rename_i hl
    simp only [Bool.not_eq_true] at hl
    obtain ⟨rfl, rfl⟩ := Prod.mk.inj h
    have hcases := handlePostResult_cases hl (Prod.mk.eta (p := handlePostResult s job i)).symm
    generalize (handlePostResult s job i).1 = u, (handlePostResult s job i).2 = posted at hcases
    -- a round trip is sampled after a delivery only
    split
    · rename_i hrtt
      have hdel : i.response.outcome = .delivered := by simp_all
      cases hcases with
      | final claimed hl hf follow =>
        refine .final claimed hl hf fun a ha => ?_
        rcases List.mem_append.mp ha with ha | ha
        · exact follow a ha
        · rw [List.mem_singleton.mp ha]
          exact .rtt
      | retry ht => rw [ht] at hdel; cases hdel
      | givenUp _ ht => rw [ht] at hdel; cases hdel
      | lost hlost =>
        rcases hlost with hlog | ⟨-, ht⟩
        · rw [hl] at hlog; cases hlog
        · rw [ht] at hdel; cases hdel
    · rw [List.append_nil]
      exact hcases

/-! ## What an action does to the jobs -/

/-- Where a job came from says what it is made of. -/
def Made (job : UploadJob) : Prop :=
  match job.origin with
  | .report _ => job.durability = .writeAhead ∧ job.isLogUpload = false ∧ job.body ≠ []
  | .items _ => job.sidecarPath = none ∧ job.durability = .persistOnFailure ∧
      job.noPersist = true ∧ job.isLogUpload = false
  | .heartbeat => job.sidecarPath = none ∧ job.durability = .ephemeral ∧
      job.requestLog = false ∧ job.isLogUpload = false
  | .playerLogs => job.sidecarPath = none ∧ job.noPersist = true ∧ job.requestLog = false ∧
      job.parseAck = false ∧ job.isLogUpload = false
  | .fulfil => job.sidecarPath = none ∧ job.noPersist = true
  | .logUpload => job.sidecarPath = none ∧ job.isLogUpload = true

/-- A job that is no report, and so owns no file. -/
def Spare (job : UploadJob) : Prop := Made job ∧ job.sidecarPath = none ∧ job.origin.number = none

/-- The action holds no job, or enqueues one that is no report. -/
def Act.spare (b : Act) : Prop := b.jobs = [] ∨ ∃ job, b = .enqueue job ∧ Spare job

structure SameDisk (s s' : State) : Prop where
  sidecars : s'.sidecars = s.sidecars
  written : s'.written = s.written
  next : s'.nextReport = s.nextReport

theorem SameDisk.rfl {s : State} : SameDisk s s := ⟨.refl _, .refl _, .refl _⟩

/-- The state after a file has been written for a job. -/
def stored (s : State) (job : UploadJob) (name : FileName) : State :=
  { s with
    sidecars := { s.sidecars with files := s.sidecars.files ++
      [{ path := { kind := job.kind, name }, body := job.body, report := job.origin.number.getD 0 }] }
    written := s.written ++ [job.origin.number.getD 0] }

/-- A name `unique_file_name` may give: `.json`, and not in use. -/
def freshName (s : State) (job : UploadJob) (name : FileName) : Prop :=
  s.sidecars.inUse { kind := job.kind, name } = false ∧ name.ext = lit ".json"

/-- What an action can do to the jobs, the queue and the disk. -/
inductive Effect (s : State) (a : Act) (i : Input) (s' : State) (new : List Act) : Prop where
  | make (held : a.jobs = []) (queue : s'.worker.queue = s.worker.queue) (disk : SameDisk s s')
      (made : ∀ b ∈ new, b.spare)
  | report (kind : SidecarKind) (body : Bytes) (wantLog fromPrevious : Bool) (held : a.jobs = [])
      (queue : s'.worker.queue = s.worker.queue) (sidecars : s'.sidecars = s.sidecars)
      (written : s'.written = s.written) (next : s'.nextReport = s.nextReport + 1)
      (nonempty : body ≠ []) (made : jobsOf new = [reportJob s kind body wantLog fromPrevious])
      (only : ∀ b ∈ new, b.jobs = [] ∨ b = .writeAhead (reportJob s kind body wantLog fromPrevious))
  | unwritten (job : UploadJob) (act : a = .writeAhead job) (same : s' = s)
      (made : new = [.enqueue job] ∨ new = [.enqueue { job with sidecarPath := none }])
  | written (job : UploadJob) (act : a = .writeAhead job) (fresh : freshName s job i.name)
      (same : s' = stored s job i.name)
      (made : new = [.enqueue { job with sidecarPath := some { kind := job.kind, name := i.name } }])
  | enqueue (job : UploadJob) (act : a = .enqueue job)
      (queue : s.worker.overflow ++ s'.worker.queue = s.worker.queue ++ [job])
      (disk : SameDisk s s') (made : new = [])
  | take (job : UploadJob) (before after : List UploadJob) (held : a.jobs = [])
      (queue : s.worker.queue = before ++ job :: after)
      (left : s'.worker.queue = before ++ after) (disk : SameDisk s s') (made : new = [.post job])
  | pass (job : UploadJob) (act : a = .post job) (same : s' = s) (made : new = [.await job])
  | processed (job : UploadJob) (acts : List Act) (act : a = .await job)
      (done : Processed s job i.response s' acts) (made : new = acts ++ [.clearInFlight])
  | leftovers (held : a.jobs = []) (queue : s'.worker.queue = []) (disk : SameDisk s s')
      (made : new = (s.worker.queue.filter Worker.persistable).map .persistLeftover)
  | unpersisted (job : UploadJob) (act : a = .persistLeftover job) (same : s' = s) (made : new = [])
  | persisted (job : UploadJob) (act : a = .persistLeftover job) (fresh : freshName s job i.name)
      (same : s' = stored s job i.name) (made : new = [])

theorem writeSidecar_cases (s : State) (job : UploadJob) (name : FileName) :
    writeSidecar s job name = (s, none) ∨
    writeSidecar s job name = (stored s job name, some { kind := job.kind, name }) := by
  unfold writeSidecar
  rcases SidecarQueue.write_cases s.sidecars job.kind job.body (job.origin.number.getD 0) name with
    h | h
  · exact .inl (by simp only [h])
  · exact .inr (by simp only [h, stored])

theorem takeReadyJob_cases {s s' : State} {new : List Act} (h : takeReadyJob s = (s', new)) :
    (s' = s ∧ new = [.loopTop]) ∨
    ∃ job before after, s.worker.queue = before ++ job :: after ∧
      s' = { s with worker := { s.worker with queue := before ++ after, inFlight := true } } ∧
      new = [.post job] := by
  unfold takeReadyJob at h
  split at h
  · obtain ⟨rfl, rfl⟩ := Prod.mk.inj h
    exact .inl ⟨rfl, rfl⟩
  · rename_i job rest hr
    obtain ⟨rfl, rfl⟩ := Prod.mk.inj h
    obtain ⟨before, after, hq, rfl, -, -⟩ := Worker.takeReady_some hr
    exact .inr ⟨job, before, after, hq, rfl, rfl⟩

theorem wakeUp_cases {s s' : State} {new : List Act} (h : wakeUp s = (s', new)) :
    (s.worker.running = false ∧ s' = { s with workerThread := false } ∧ new = []) ∨
    (s.worker.running = true ∧ ∃ flushed, s' = { s with
      worker := { s.worker with wakeRequested := false, nextLogFlush := flushed } } ∧
      new = [.takeReadyJob]) ∨
    (s.worker.running = true ∧
      takeReadyJob { s with worker := { s.worker with wakeRequested := false } } = (s', new)) := by
  unfold wakeUp at h
  split at h
  · rename_i hr
    obtain ⟨rfl, rfl⟩ := Prod.mk.inj h
    exact .inl ⟨by simpa using hr, rfl, rfl⟩
  · rename_i hr
    have hrun : s.worker.running = true := by simpa using hr
    dsimp only at h
    split at h
    · obtain ⟨rfl, rfl⟩ := Prod.mk.inj h
      exact .inr (.inl ⟨hrun, _, rfl, rfl⟩)
    · exact .inr (.inr ⟨hrun, h⟩)

theorem startSessionTracking_cases {s s' : State} {i : Input} {new : List Act}
    (h : startSessionTracking s i = some (s', new)) :
    (∃ started marker, s' = { s with sessionTrackingStarted := started, previousMarker := marker } ∧
      new = []) ∨
    (i.body ≠ [] ∧
      s' = { s with
        sessionTrackingStarted := true, previousMarker := false, nextReport := s.nextReport + 1 } ∧
      new = [.writeAhead (reportJob s .crash i.body i.wantLog true)]) := by
  unfold startSessionTracking at h
  split at h
  · obtain ⟨rfl, rfl⟩ := Prod.mk.inj (Option.some.inj h)
    exact .inl ⟨s.sessionTrackingStarted, s.previousMarker, rfl, rfl⟩
  · dsimp only at h
    split at h
    · obtain ⟨rfl, rfl⟩ := Prod.mk.inj (Option.some.inj h)
      exact .inl ⟨true, s.previousMarker, rfl, rfl⟩
    · split at h
      · obtain ⟨rfl, rfl⟩ := Prod.mk.inj (Option.some.inj h)
        exact .inl ⟨true, false, rfl, rfl⟩
      · split at h
        · cases h
        · rename_i hb
          obtain ⟨rfl, rfl⟩ := Prod.mk.inj (Option.some.inj h)
          exact .inr ⟨by simpa using hb, rfl, rfl⟩

/-! ## What the bigger actions do -/

section

variable {s s' : State} {i : Input} {new : List Act}

theorem track_cases {metric : Bool} {text : Bytes}
    (h : perform s (.track metric text) i = some (s', new)) :
    s' = s ∧ (new = [] ∨ s.captureAllowed = true ∧ new = [.addItem metric text]) := by
  obtain ⟨rfl, rfl⟩ := Prod.mk.inj (Option.some.inj h)
  refine ⟨rfl, ?_⟩
  split
  · rename_i hkept
    exact .inr ⟨(Bool.and_eq_true_iff.mp hkept).1, rfl⟩
  · exact .inl rfl

theorem reportCrash_cases {body : ReportBody} {wantLog : Bool}
    (h : perform s (.reportCrash body wantLog) i = some (s', new)) :
    (s' = s ∧ new = []) ∨
    (s.captureAllowed = true ∧ s' = { s with nextReport := s.nextReport + 1 } ∧
      new = [.flushAllBatches, .writeAhead (reportJob s .crash body.val wantLog false)]) := by
  simp only [perform] at h
  split at h
  · rename_i hallowed
    obtain ⟨rfl, rfl⟩ := Prod.mk.inj (Option.some.inj h)
    exact .inr ⟨hallowed, rfl, rfl⟩
  · obtain ⟨rfl, rfl⟩ := Prod.mk.inj (Option.some.inj h)
    exact .inl ⟨rfl, rfl⟩

theorem reportBug_cases {body : ReportBody} {wantLog : Bool}
    (h : perform s (.reportBug body wantLog) i = some (s', new)) :
    (s' = s ∧ new = []) ∨
    (s.captureAllowed = true ∧ s' = { s with nextReport := s.nextReport + 1 } ∧
      new = [.writeAhead (reportJob s .bugReport body.val wantLog false)]) := by
  simp only [perform] at h
  split at h
  · rename_i hallowed
    obtain ⟨rfl, rfl⟩ := Prod.mk.inj (Option.some.inj h)
    exact .inr ⟨hallowed, rfl, rfl⟩
  · obtain ⟨rfl, rfl⟩ := Prod.mk.inj (Option.some.inj h)
    exact .inl ⟨rfl, rfl⟩

/-- Without a file the job is enqueued all the same. -/
theorem writeAhead_cases {job : UploadJob} (h : perform s (.writeAhead job) i = some (s', new)) :
    (s' = s ∧ (new = [.enqueue job] ∨ new = [.enqueue { job with sidecarPath := none }])) ∨
    (freshName s job i.name ∧ s' = stored s job i.name ∧
      new = [.enqueue { job with sidecarPath := some { kind := job.kind, name := i.name } }]) := by
  simp only [perform] at h
  split at h
  · split at h
    · cases h
    · rename_i hfresh
      obtain ⟨rfl, rfl⟩ := Prod.mk.inj (Option.some.inj h)
      rcases writeSidecar_cases s job i.name with hw | hw
      · rw [hw]
        exact .inl ⟨rfl, .inr rfl⟩
      · rw [hw]
        exact .inr ⟨by simpa [freshName] using hfresh, rfl, rfl⟩
  · obtain ⟨rfl, rfl⟩ := Prod.mk.inj (Option.some.inj h)
    exact .inl ⟨rfl, .inl rfl⟩

theorem writeAhead_new {job : UploadJob} (h : perform s (.writeAhead job) i = some (s', new)) :
    ∃ path, new = [.enqueue { job with sidecarPath := path }] := by
  rcases writeAhead_cases h with ⟨-, rfl | rfl⟩ | ⟨-, -, rfl⟩
  · exact ⟨job.sidecarPath, rfl⟩
  · exact ⟨_, rfl⟩
  · exact ⟨_, rfl⟩

theorem persistLeftover_cases {job : UploadJob}
    (h : perform s (.persistLeftover job) i = some (s', new)) :
    new = [] ∧ (s' = s ∨ freshName s job i.name ∧ s' = stored s job i.name) := by
  simp only [perform] at h
  split at h
  · cases h
  · rename_i hfresh
    obtain ⟨rfl, rfl⟩ := Prod.mk.inj (Option.some.inj h)
    refine ⟨rfl, ?_⟩
    rcases writeSidecar_cases s job i.name with hw | hw
    · rw [hw]
      exact .inl rfl
    · rw [hw]
      exact .inr ⟨by simpa [freshName] using hfresh, rfl⟩

theorem maybeFlushBatch_cases {metric force : Bool} {now : Nat}
    (h : perform s (.maybeFlushBatch metric now force) i = some (s', new)) :
    ((s.batch metric).hasItems = false ∧ s' = s ∧ new = []) ∨
    (∃ b envelopes, (s.batch metric).drainEnvelopesIfReady i.stamp now force = (b, envelopes) ∧
      s' = s.setBatch metric b ∧ new = envelopes.map fun e => .enqueue (envelopeJob s metric e)) := by
  simp only [perform, maybeFlushBatch, Option.some.injEq] at h
  split at h <;> obtain ⟨rfl, rfl⟩ := Prod.mk.inj h
  · rename_i hnone
    exact .inl ⟨by simpa using hnone, rfl, rfl⟩
  · exact .inr ⟨_, _, rfl, rfl, rfl⟩

/-- A flush returns once everything is sent, or at its deadline. -/
theorem workerFlush_cases {mark : FlushMark}
    (h : perform s (.workerFlush mark) i = some (s', new)) :
    (s.worker.drained = true ∨ i.expired = true) ∧ s' = s ∧ new = [] := by
  simp only [perform] at h
  split at h
  · rename_i hdone
    obtain ⟨rfl, rfl⟩ := Prod.mk.inj (Option.some.inj h)
    exact ⟨Bool.or_eq_true_iff.mp hdone, rfl, rfl⟩
  · cases h

theorem joinHeartbeat_cases (h : perform s .joinHeartbeat i = some (s', new)) :
    s.heartbeatThread = false ∧ s' = s ∧ new = [] := by
  simp only [perform] at h
  split at h
  · cases h
  · rename_i hjoined
    obtain ⟨rfl, rfl⟩ := Prod.mk.inj (Option.some.inj h)
    exact ⟨by simpa using hjoined, rfl, rfl⟩

theorem stopWorker_cases (h : perform s .stopWorker i = some (s', new)) :
    (s.worker.running = false ∧ s' = s ∧ new = []) ∨
    (s.worker.running = true ∧ s' = { s with worker := { s.worker with running := false } } ∧
      new = [.joinWorker]) := by
  simp only [perform] at h
  split at h
  · rename_i hrun
    obtain ⟨rfl, rfl⟩ := Prod.mk.inj (Option.some.inj h)
    exact .inr ⟨hrun, rfl, rfl⟩
  · rename_i hrun
    obtain ⟨rfl, rfl⟩ := Prod.mk.inj (Option.some.inj h)
    exact .inl ⟨by simpa using hrun, rfl, rfl⟩

theorem joinWorker_cases (h : perform s .joinWorker i = some (s', new)) :
    s.workerThread = false ∧ s' = (persistLeftovers s).1 ∧ new = (persistLeftovers s).2 := by
  simp only [perform] at h
  split at h
  · cases h
  · rename_i hjoined
    obtain ⟨rfl, rfl⟩ := Prod.mk.inj (Option.some.inj h)
    exact ⟨by simpa using hjoined, rfl, rfl⟩

/-- The heartbeat's loop ends, goes round without a beat, or with one. -/
theorem heartbeat_cases (h : perform s .heartbeat i = some (s', new)) : s.heartbeatThread = true ∧
    ((s' = { s with heartbeatThread := false } ∧ new = []) ∨
     (s' = s ∧ new = [.heartbeat]) ∨
     (s.captureAllowed = true ∧ s.gate.opened = true ∧ s' = s ∧
       new = [.enqueue (heartbeatJob s i.body), .heartbeat])) := by
  simp only [perform] at h
  split at h
  · cases h
  · rename_i hrun
    refine ⟨by simpa using hrun, ?_⟩
    split at h
    · obtain ⟨rfl, rfl⟩ := Prod.mk.inj (Option.some.inj h)
      exact .inl ⟨rfl, rfl⟩
    · obtain ⟨rfl, rfl⟩ := Prod.mk.inj (Option.some.inj h)
      right
      split
      · rename_i hsends
        obtain ⟨hallowed, hopen⟩ := Bool.and_eq_true_iff.mp hsends
        exact .inr ⟨hallowed, hopen, rfl, rfl⟩
      · exact .inl ⟨rfl, rfl⟩

theorem waiting_cases {deadline : Nat}
    (h : perform s (.waiting deadline) i = some (s', new)) : wakeUp s = (s', new) := by
  simp only [perform] at h
  split at h
  · exact Option.some.inj h
  · cases h

/-- A response is handled, and the worker goes on. -/
theorem await_cases {job : UploadJob} (h : perform s (.await job) i = some (s', new)) :
    ∃ acts, Processed s job i.response s' acts ∧ new = acts ++ [.clearInFlight] := by
  obtain ⟨rfl, rfl⟩ := Prod.mk.inj (Option.some.inj h)
  exact ⟨_, process_cases (Prod.mk.eta (p := process s job i)).symm, rfl⟩

end

/-! ## What any action does to the jobs -/

/-- An action that leaves the queue and the disk alone and holds no job. -/
theorem Effect.idle {s s' : State} {a : Act} {i : Input} {new : List Act} (held : a.jobs = [])
    (queue : s'.worker.queue = s.worker.queue) (disk : SameDisk s s') (none : jobsOf new = []) :
    Effect s a i s' new :=
  .make held queue disk fun b hb => .inl (jobsOf_eq_nil.mp none b hb)

theorem spare_fulfilJobs {s : State} {who : ClientIdent} {body : Bytes} :
    ∀ b ∈ (fulfilJobs s who body).map Act.enqueue, b.spare := by
  intro b hb
  obtain ⟨job, hj, rfl⟩ := List.mem_map.mp hb
  unfold fulfilJobs at hj
  split at hj
  · cases hj
  · obtain ⟨request, -, rfl⟩ := List.mem_map.mp hj
    exact .inr ⟨_, rfl, ⟨rfl, rfl⟩, rfl, rfl⟩

@[simp] theorem jobsOf_drainBatches (s : State) (force : Bool) : jobsOf (drainBatches s force) = [] := by
  unfold drainBatches
  split <;> rfl

theorem setBatch_queue (s : State) (metric : Bool) (b : Batch) :
    (s.setBatch metric b).worker = s.worker := by
  cases metric <;> rfl

/-- The other batch stays as it is. -/
theorem batch_setBatch (s : State) (which metric : Bool) (b : Batch) :
    (s.setBatch which b).batch metric = if which = metric then b else s.batch metric := by
  cases which
  all_goals
    cases metric
    all_goals rfl

theorem setBatch_disk (s : State) (metric : Bool) (b : Batch) : SameDisk s (s.setBatch metric b) := by
  cases metric <;> exact ⟨rfl, rfl, rfl⟩

theorem addItem_effect (s : State) (metric : Bool) (text : Bytes) :
    (addItem s metric text).worker.queue = s.worker.queue ∧ SameDisk s (addItem s metric text) := by
  refine ⟨?_, ?_⟩
  · simp only [addItem]
    split <;> rfl
  · have h := setBatch_disk s metric ((s.batch metric).add s.now { text, serial := s.nextSerial }).1
    exact ⟨h.sidecars, h.written, h.next⟩

theorem maybeFlushBatch_effect {s s' : State} {metric force : Bool} {stamp : Bytes} {now : Nat}
    {new : List Act} (h : maybeFlushBatch s metric stamp now force = (s', new)) :
    s'.worker = s.worker ∧ SameDisk s s' ∧ ∀ b ∈ new, b.spare := by
  unfold maybeFlushBatch at h
  split at h
  · obtain ⟨rfl, rfl⟩ := Prod.mk.inj h
    exact ⟨rfl, .rfl, by simp⟩
  · obtain ⟨rfl, rfl⟩ := Prod.mk.inj h
    refine ⟨setBatch_queue .., setBatch_disk .., fun b hb => ?_⟩
    obtain ⟨envelope, -, rfl⟩ := List.mem_map.mp hb
    exact .inr ⟨_, rfl, ⟨rfl, rfl, rfl, rfl⟩, rfl, rfl⟩

theorem takeReadyJob_effect {s u s' : State} {a : Act} {i : Input} {new : List Act}
    (held : a.jobs = []) (queue : u.worker.queue = s.worker.queue) (disk : SameDisk s u)
    (h : takeReadyJob u = (s', new)) : Effect s a i s' new := by
  rcases takeReadyJob_cases h with ⟨rfl, rfl⟩ | ⟨job, before, after, hq, rfl, rfl⟩
  · exact .idle held queue disk rfl
  · exact .take job before after held (queue ▸ hq) rfl ⟨disk.sidecars, disk.written, disk.next⟩ rfl

section

variable {s s' : State} {i : Input} {new : List Act}

theorem reportCrash_effect {body : ReportBody} {wantLog : Bool}
    (h : perform s (.reportCrash body wantLog) i = some (s', new)) :
    Effect s (.reportCrash body wantLog) i s' new := by
  rcases reportCrash_cases h with ⟨rfl, rfl⟩ | ⟨-, rfl, rfl⟩
  · exact .idle rfl rfl .rfl rfl
  · refine .report .crash body.val wantLog false rfl rfl rfl rfl rfl body.property rfl fun b hb => ?_
    simp only [List.mem_cons, List.not_mem_nil, or_false] at hb
    rcases hb with rfl | rfl
    · exact .inl rfl
    · exact .inr rfl

theorem reportBug_effect {body : ReportBody} {wantLog : Bool}
    (h : perform s (.reportBug body wantLog) i = some (s', new)) :
    Effect s (.reportBug body wantLog) i s' new := by
  rcases reportBug_cases h with ⟨rfl, rfl⟩ | ⟨-, rfl, rfl⟩
  · exact .idle rfl rfl .rfl rfl
  · refine .report .bugReport body.val wantLog false rfl rfl rfl rfl rfl body.property rfl ?_
    exact fun b hb => .inr (List.mem_singleton.mp hb)

theorem startSessionTracking_effect (h : startSessionTracking s i = some (s', new)) :
    Effect s .startSessionTracking i s' new := by
  rcases startSessionTracking_cases h with ⟨started, marker, rfl, rfl⟩ | ⟨hb, rfl, rfl⟩
  · exact .idle rfl rfl ⟨rfl, rfl, rfl⟩ rfl
  · refine .report .crash i.body i.wantLog true rfl rfl rfl rfl rfl hb rfl ?_
    exact fun b hb => .inr (List.mem_singleton.mp hb)

theorem writeAhead_effect {job : UploadJob}
    (h : perform s (.writeAhead job) i = some (s', new)) : Effect s (.writeAhead job) i s' new := by
  rcases writeAhead_cases h with ⟨rfl, hnew⟩ | ⟨hfresh, rfl, rfl⟩
  · exact .unwritten job rfl rfl hnew
  · exact .written job rfl hfresh rfl rfl

theorem persistLeftover_effect {job : UploadJob}
    (h : perform s (.persistLeftover job) i = some (s', new)) :
    Effect s (.persistLeftover job) i s' new := by
  obtain ⟨rfl, rfl | ⟨hfresh, rfl⟩⟩ := persistLeftover_cases h
  · exact .unpersisted job rfl rfl rfl
  · exact .persisted job rfl hfresh rfl rfl

theorem heartbeat_effect (h : perform s .heartbeat i = some (s', new)) :
    Effect s .heartbeat i s' new := by
  obtain ⟨-, ⟨rfl, rfl⟩ | ⟨rfl, rfl⟩ | ⟨-, -, rfl, rfl⟩⟩ := heartbeat_cases h
  · exact .idle rfl rfl ⟨rfl, rfl, rfl⟩ rfl
  · exact .idle rfl rfl .rfl rfl
  · refine .make rfl rfl .rfl fun b hb => ?_
    simp only [List.mem_cons, List.not_mem_nil, or_false] at hb
    rcases hb with rfl | rfl
    · exact .inr ⟨_, rfl, ⟨rfl, rfl, rfl, rfl⟩, rfl, rfl⟩
    · exact .inl rfl

theorem waiting_effect {deadline : Nat} (h : perform s (.waiting deadline) i = some (s', new)) :
    Effect s (.waiting deadline) i s' new := by
  rcases wakeUp_cases (waiting_cases h) with ⟨-, rfl, rfl⟩ | ⟨-, flushed, rfl, rfl⟩ | ⟨-, hw⟩
  · exact .idle rfl rfl ⟨rfl, rfl, rfl⟩ rfl
  · exact .idle rfl rfl ⟨rfl, rfl, rfl⟩ rfl
  · exact takeReadyJob_effect rfl (u := { s with worker := { s.worker with wakeRequested := false } })
      rfl ⟨rfl, rfl, rfl⟩ hw

/-- **What an action can do to the jobs, the queue and the disk.** -/
theorem perform_effect {a : Act} (h : perform s a i = some (s', new)) : Effect s a i s' new := by
  cases a
  case reportCrash => exact reportCrash_effect h
  case reportBug => exact reportBug_effect h
  case startSessionTracking => exact startSessionTracking_effect h
  case writeAhead => exact writeAhead_effect h
  case persistLeftover => exact persistLeftover_effect h
  case heartbeat => exact heartbeat_effect h
  case waiting => exact waiting_effect h
  case takeReadyJob => exact takeReadyJob_effect rfl rfl .rfl (Option.some.inj h)
  case await job =>
    obtain ⟨acts, hdone, rfl⟩ := await_cases h
    exact .processed job acts rfl hdone rfl
  case joinWorker =>
    obtain ⟨-, rfl, rfl⟩ := joinWorker_cases h
    exact .leftovers rfl rfl ⟨rfl, rfl, rfl⟩ rfl
  case maybeFlushBatch =>
    obtain ⟨hw, hd, hj⟩ := maybeFlushBatch_effect (Option.some.inj h)
    exact .make rfl (congrArg Worker.queue hw) hd hj
  case track =>
    obtain ⟨rfl, rfl | ⟨-, rfl⟩⟩ := track_cases h <;> exact .idle rfl rfl .rfl rfl
  case workerFlush =>
    obtain ⟨-, rfl, rfl⟩ := workerFlush_cases h
    exact .idle rfl rfl .rfl rfl
  case joinHeartbeat =>
    obtain ⟨-, rfl, rfl⟩ := joinHeartbeat_cases h
    exact .idle rfl rfl .rfl rfl
  case stopWorker =>
    rcases stopWorker_cases h with ⟨-, rfl, rfl⟩ | ⟨-, rfl, rfl⟩ <;>
      exact .idle rfl rfl ⟨rfl, rfl, rfl⟩ rfl
  -- the other actions never wait, and branch on nothing the queue or the disk depends on
  all_goals obtain ⟨rfl, rfl⟩ := Prod.mk.inj (Option.some.inj h)
  case addItem => exact .idle rfl (addItem_effect ..).1 (addItem_effect ..).2 rfl
  case enqueue job => exact .enqueue job rfl (Worker.enqueue_queue ..) ⟨rfl, rfl, rfl⟩ rfl
  case post job => exact .pass job rfl rfl rfl
  case requestPlayerLogs =>
    refine .make rfl rfl .rfl fun b hb => ?_
    rw [List.mem_singleton.mp hb]
    exact .inr ⟨_, rfl, ⟨rfl, rfl, rfl, rfl, rfl⟩, rfl, rfl⟩
  case ackRequests => exact .make rfl rfl .rfl spare_fulfilJobs
  case flushAllBatches | drainReadyBatches => exact .idle rfl rfl .rfl (jobsOf_drainBatches ..)
  case startSession =>
    refine .idle rfl ?_ ⟨rfl, rfl, rfl⟩ rfl
    dsimp only
    split <;> rfl
  case setConsent | trackIfConsented =>
    refine .idle rfl rfl ⟨rfl, rfl, rfl⟩ ?_
    split <;> rfl
  all_goals exact .idle rfl rfl ⟨rfl, rfl, rfl⟩ rfl

/-! ## What no action changes -/

/-- The clock is the environment's, and the endpoint is the launch's. -/
structure Fixed (s s' : State) : Prop where
  now : s'.now = s.now
  endpoint : s'.endpoint = s.endpoint

theorem setBatch_fixed (s : State) (metric : Bool) (b : Batch) : Fixed s (s.setBatch metric b) := by
  cases metric <;> exact ⟨rfl, rfl⟩

theorem takeReadyJob_fixed (h : takeReadyJob s = (s', new)) : Fixed s s' := by
  rcases takeReadyJob_cases h with ⟨rfl, -⟩ | ⟨_, _, _, -, rfl, -⟩ <;> exact ⟨rfl, rfl⟩

theorem wakeUp_fixed (h : wakeUp s = (s', new)) : Fixed s s' := by
  rcases wakeUp_cases h with ⟨-, rfl, -⟩ | ⟨-, _, rfl, -⟩ | ⟨-, hw⟩
  · exact ⟨rfl, rfl⟩
  · exact ⟨rfl, rfl⟩
  · have htaken := takeReadyJob_fixed hw
    exact ⟨htaken.now, htaken.endpoint⟩

theorem Processed.fixed {job : UploadJob} {response : HttpResponse} {acts : List Act}
    (h : Processed s job response s' acts) : Fixed s s' := by
  cases h <;> exact ⟨rfl, rfl⟩

/-- **No action changes the clock or the endpoint.** -/
theorem perform_fixed {a : Act} (h : perform s a i = some (s', new)) : Fixed s s' := by
  cases a
  case startSessionTracking =>
    rcases startSessionTracking_cases h with ⟨_, _, rfl, -⟩ | ⟨-, rfl, -⟩ <;> exact ⟨rfl, rfl⟩
  case waiting => exact wakeUp_fixed (waiting_cases h)
  case takeReadyJob => exact takeReadyJob_fixed (Option.some.inj h)
  case maybeFlushBatch =>
    rcases maybeFlushBatch_cases h with ⟨-, rfl, -⟩ | ⟨_, _, -, rfl, -⟩
    · exact ⟨rfl, rfl⟩
    · exact setBatch_fixed ..
  case await =>
    obtain ⟨_, hdone, -⟩ := await_cases h
    exact hdone.fixed
  case writeAhead =>
    rcases writeAhead_cases h with ⟨rfl, -⟩ | ⟨-, rfl, -⟩ <;> exact ⟨rfl, rfl⟩
  case persistLeftover =>
    obtain ⟨-, rfl | ⟨-, rfl⟩⟩ := persistLeftover_cases h <;> exact ⟨rfl, rfl⟩
  case heartbeat =>
    obtain ⟨-, ⟨rfl, -⟩ | ⟨rfl, -⟩ | ⟨-, -, rfl, -⟩⟩ := heartbeat_cases h <;> exact ⟨rfl, rfl⟩
  case reportCrash =>
    rcases reportCrash_cases h with ⟨rfl, -⟩ | ⟨-, rfl, -⟩ <;> exact ⟨rfl, rfl⟩
  case reportBug =>
    rcases reportBug_cases h with ⟨rfl, -⟩ | ⟨-, rfl, -⟩ <;> exact ⟨rfl, rfl⟩
  case stopWorker =>
    rcases stopWorker_cases h with ⟨-, rfl, -⟩ | ⟨-, rfl, -⟩ <;> exact ⟨rfl, rfl⟩
  case workerFlush =>
    obtain ⟨-, rfl, -⟩ := workerFlush_cases h
    exact ⟨rfl, rfl⟩
  case joinHeartbeat =>
    obtain ⟨-, rfl, -⟩ := joinHeartbeat_cases h
    exact ⟨rfl, rfl⟩
  case joinWorker =>
    obtain ⟨-, rfl, -⟩ := joinWorker_cases h
    exact ⟨rfl, rfl⟩
  all_goals obtain ⟨rfl, rfl⟩ := Prod.mk.inj (Option.some.inj h)
  case addItem metric text => cases metric <;> exact ⟨rfl, rfl⟩
  all_goals exact ⟨rfl, rfl⟩

end

/-! ## What jobs are made of -/

/-- A thread holds well-made jobs; what it is about to write ahead is a report without a
file, and what it is about to persist may be persisted. -/
structure Act.Ready (a : Act) : Prop where
  made : ∀ job ∈ a.jobs, Made job
  ahead : ∀ job, a = .writeAhead job → job.sidecarPath = none ∧ ∃ n, job.origin = .report n
  leftover : ∀ job, a = .persistLeftover job → Worker.persistable job = true

theorem Act.Ready.of_jobs {a : Act} (h : a.jobs = []) : a.Ready := by
  refine ⟨by simp [h], ?_, ?_⟩ <;> rintro job rfl <;> cases h

/-- To enqueue a job, to post it, or to wait for its response asks for no more than that it
is well made. -/
theorem Act.Ready.of_made {a : Act} {job : UploadJob}
    (ha : a = .enqueue job ∨ a = .post job ∨ a = .await job) (h : Made job) : a.Ready := by
  refine ⟨fun j hj => ?_, fun j he => ?_, fun j he => ?_⟩
  · have hm : j = job := by rcases ha with rfl | rfl | rfl <;> exact List.mem_singleton.mp hj
    rw [hm]
    exact h
  · subst he
    rcases ha with ha | ha | ha <;> cases ha
  · subst he
    rcases ha with ha | ha | ha <;> cases ha

theorem Act.Ready.enqueue {job : UploadJob} (h : Made job) : (Act.enqueue job).Ready :=
  .of_made (.inl rfl) h

theorem Act.Ready.persistLeftover {job : UploadJob} (h : Made job)
    (hp : Worker.persistable job = true) : (Act.persistLeftover job).Ready := by
  refine ⟨fun j hj => ?_, fun j he => ?_, fun j he => ?_⟩
  · rw [List.mem_singleton.mp hj]
    exact h
  · cases he
  · cases he
    exact hp

/-- The fields that retries and paths change say nothing about what a job is made of. -/
theorem Made.moved {job : UploadJob} {n : Nat} (h : Made job) (ho : job.origin = .report n)
    (path : Option SidecarPath) : Made { job with sidecarPath := path } := by
  simp only [Made, ho] at h ⊢
  exact h

theorem Made.retried {job : UploadJob} (h : Made job) (now : Nat) (hint : Option Nat) :
    Made (Worker.retried job now hint) := by
  simp only [Made, Worker.retried] at h ⊢
  exact h

/-- A job that may be persisted is a report. -/
theorem Made.persistable {job : UploadJob} (h : Made job) (hp : Worker.persistable job = true) :
    job.sidecarPath = none ∧ ∃ n, job.origin = .report n := by
  simp only [Worker.persistable, Bool.and_eq_true, Bool.not_eq_eq_eq_not, Bool.not_true,
    Option.isNone_iff_eq_none, bne_iff_ne, ne_eq] at hp
  obtain ⟨⟨⟨hlog, hno⟩, hpath⟩, hd⟩ := hp
  refine ⟨hpath, ?_⟩
  unfold Made at h
  split at h
  · rename_i n ho
    exact ⟨n, ho⟩
  all_goals simp_all

theorem made_reportJob {s : State} {kind : SidecarKind} {body : Bytes} {wantLog prev : Bool}
    (h : body ≠ []) : Made (reportJob s kind body wantLog prev) := ⟨rfl, rfl, h⟩

theorem Processed.ready {s s' : State} {job : UploadJob} {response : HttpResponse} {acts : List Act}
    (h : Processed s job response s' acts) (hj : Made job) : ∀ b ∈ acts, b.Ready := by
  cases h with
  | final _ _ _ follow =>
    intro b hb
    cases follow b hb with
    | log _ upload bytes => exact .enqueue ⟨rfl, rfl⟩
    | ack => exact .of_jobs rfl
    | rtt => exact .of_jobs rfl
  | retry _ _ _ hint =>
    intro b hb
    rw [List.mem_singleton.mp hb]
    exact .enqueue (hj.retried _ hint)
  | givenUp =>
    intro b hb
    split at hb
    · rename_i hp
      rw [List.mem_singleton.mp hb]
      exact .persistLeftover hj hp
    · cases hb
  | lost => exact fun b hb => absurd hb List.not_mem_nil

theorem Processed.queue {s s' : State} {job : UploadJob} {response : HttpResponse} {acts : List Act}
    (h : Processed s job response s' acts) : s'.worker.queue = s.worker.queue := by
  cases h <;> rfl

/-- **Every action keeps the jobs well made.** -/
theorem Effect.ready {s s' : State} {a : Act} {i : Input} {new : List Act}
    (h : Effect s a i s' new) (ha : a.Ready) (hq : ∀ job ∈ s.worker.queue, Made job) :
    (∀ job ∈ s'.worker.queue, Made job) ∧ ∀ b ∈ new, b.Ready := by
  cases h with
  | make held queue disk made =>
    refine ⟨queue ▸ hq, fun b hb => ?_⟩
    rcases made b hb with hnone | ⟨job, rfl, hspare⟩
    · exact .of_jobs hnone
    · exact .enqueue hspare.1
  | report kind body wantLog prev held queue sidecars written next nonempty made only =>
    refine ⟨queue ▸ hq, fun b hb => ?_⟩
    rcases only b hb with hnone | rfl
    · exact .of_jobs hnone
    · refine ⟨fun j hj => ?_, fun j he => ?_, fun j he => ?_⟩
      · rw [List.mem_singleton.mp hj]
        exact made_reportJob nonempty
      · cases he
        exact ⟨rfl, _, rfl⟩
      · cases he
  | unwritten job act same made =>
    subst act same
    obtain ⟨-, n, ho⟩ := ha.ahead job rfl
    have hm : Made job := ha.made job (List.mem_singleton_self job)
    refine ⟨hq, fun b hb => ?_⟩
    rcases made with rfl | rfl <;> rw [List.mem_singleton.mp hb]
    · exact .enqueue hm
    · exact .enqueue (hm.moved ho none)
  | written job act fresh same made =>
    subst act same made
    obtain ⟨-, n, ho⟩ := ha.ahead job rfl
    have hm : Made job := ha.made job (List.mem_singleton_self job)
    refine ⟨hq, fun b hb => ?_⟩
    rw [List.mem_singleton.mp hb]
    exact .enqueue (hm.moved ho _)
  | enqueue job act queue disk made =>
    subst act made
    refine ⟨fun j hj => ?_, by simp⟩
    have hmem : j ∈ s.worker.queue ++ [job] := queue ▸ List.mem_append_right _ hj
    rcases List.mem_append.mp hmem with hmem | hmem
    · exact hq j hmem
    · exact ha.made j hmem
  | take job before after held queue left disk made =>
    subst made
    refine ⟨fun j hj => hq j ?_, fun b hb => ?_⟩
    · rw [left] at hj
      rw [queue]
      simp only [List.mem_append, List.mem_cons] at hj ⊢
      exact hj.imp id .inr
    · rw [List.mem_singleton.mp hb]
      exact .of_made (.inr (.inl rfl)) (hq job (by simp [queue]))
  | pass job act same made =>
    subst act same made
    refine ⟨hq, fun b hb => ?_⟩
    rw [List.mem_singleton.mp hb]
    exact .of_made (.inr (.inr rfl)) (ha.made job (List.mem_singleton_self job))
  | processed job acts act done made =>
    subst act made
    have hm : Made job := ha.made job (List.mem_singleton_self job)
    refine ⟨done.queue ▸ hq, fun b hb => ?_⟩
    rcases List.mem_append.mp hb with hb | hb
    · exact done.ready hm b hb
    · rw [List.mem_singleton.mp hb]
      exact .of_jobs rfl
  | leftovers held queue disk made =>
    subst made
    refine ⟨by simp [queue], fun b hb => ?_⟩
    obtain ⟨job, hj, rfl⟩ := List.mem_map.mp hb
    obtain ⟨hmem, hp⟩ := List.mem_filter.mp hj
    exact .persistLeftover (hq job hmem) hp
  | unpersisted job act same made =>
    subst same made
    exact ⟨hq, by simp⟩
  | persisted job act fresh same made =>
    subst same made
    exact ⟨hq, by simp⟩

/-- Every queued job is well made, and so is every job a thread holds. -/
def WellMade (c : Config) : Prop :=
  Interleave.ActInv (fun s => ∀ job ∈ s.worker.queue, Made job) (fun _ a => a.Ready) c

theorem made_restoredJob {s : State} {r : SidecarRecord} (h : r ∈ s.sidecars.scan) :
    Made (restoredJob s r) := ⟨rfl, rfl, (SidecarQueue.mem_scan.mp h).2.2.2⟩

/-- The actions of `initCalls`, one by one. -/
inductive InitCall : Act → Prop where
  | heartbeat (enabled : Bool) : InitCall (.startHeartbeat enabled)
  | trackIfConsented : InitCall .trackIfConsented
  | setConsent (granted : Bool) : InitCall (.setConsent granted)
  | track (metric : Bool) (text : Bytes) : InitCall (.track metric text)
  | startSession : InitCall .startSession
  | publish : InitCall .publish

theorem mem_initCalls {o : Launch} {a : Act} (h : a ∈ initCalls o) : InitCall a := by
  simp only [initCalls, List.mem_append, List.mem_map, List.mem_cons, List.not_mem_nil,
    or_false] at h
  rcases h with ((((rfl | rfl) | ⟨granted, -, rfl⟩) | ⟨t, -, rfl⟩) | h) | rfl
  · exact .heartbeat o.enableHeartbeats
  · exact .trackIfConsented
  · exact .setConsent granted
  · exact .track t.1 t.2
  · split at h
    · rw [List.mem_singleton.mp h]
      exact .startSession
    · cases h
  · exact .publish

/-- After the restored jobs are enqueued, `tombstone_init` holds none. -/
theorem jobs_initCalls {o : Launch} : ∀ a ∈ initCalls o, a.jobs = [] := by
  intro a ha
  cases mem_initCalls ha <;> rfl

theorem jobs_call (k : Call) : k.act.jobs = [] := by
  cases k <;> rfl

/-- What the environment does to the threads. -/
theorem env_cases {s s' : State} {ps ps' : List (List Act)} {e : Event}
    (h : env (s, ps) e = some (s', ps')) :
    (∃ elapsed, e = .tick elapsed ∧ s' = { s with now := s.now + elapsed } ∧ ps' = ps) ∨
    (∃ o, e = .launch o ∧ o.order.Perm s.sidecars.files ∧ s' = launched s o ∧
      ps' = initProgram (launched s o) o :: [.heartbeat] :: [.loopTop] ::
        List.replicate o.hostThreads []) ∨
    (e = .retire ∧ s' = { s with published := false } ∧ ps' = ps) ∨
    (∃ t, e = .destroy t ∧ s.published = false ∧ s.initialized = true ∧ s.destroying = false ∧
      noCalls ps = true ∧ (t ≠ 1 ∧ t ≠ 2) ∧ ps[t]? = some [] ∧
      s' = { s with destroying := true } ∧ ps' = ps.set t destructor) := by
  cases e with
  | tick elapsed =>
    obtain ⟨rfl, rfl⟩ := Prod.mk.inj (Option.some.inj h)
    exact .inl ⟨elapsed, rfl, rfl, rfl⟩
  | launch o =>
    simp only [env] at h
    split at h
    · rename_i hperm
      obtain ⟨rfl, rfl⟩ := Prod.mk.inj (Option.some.inj h)
      exact .inr (.inl ⟨o, rfl, List.isPerm_iff.mp hperm, rfl, rfl⟩)
    · cases h
  | retire =>
    obtain ⟨rfl, rfl⟩ := Prod.mk.inj (Option.some.inj h)
    exact .inr (.inr (.inl ⟨rfl, rfl, rfl⟩))
  | destroy t =>
    simp only [env] at h
    split at h
    · rename_i hd
      obtain ⟨rfl, rfl⟩ := Prod.mk.inj (Option.some.inj h)
      simp only [Bool.and_eq_true, Bool.not_eq_eq_eq_not, Bool.not_true, decide_eq_true_eq] at hd
      obtain ⟨⟨⟨⟨⟨hp, hi⟩, hdes⟩, hn⟩, ht⟩, hidle⟩ := hd
      obtain ⟨p, hp', hnil⟩ := (Option.any_eq_true ..).mp hidle
      rw [List.isEmpty_iff.mp hnil] at hp'
      exact .inr (.inr (.inr ⟨t, rfl, hp, hi, hdes, hn, ht, hp', rfl, rfl⟩))
    · cases h

theorem mem_destructor {a : Act} (h : a ∈ destructor) : a.jobs = [] := by
  simp only [destructor, List.mem_cons, List.not_mem_nil, or_false] at h
  rcases h with rfl | rfl | rfl | rfl <;> rfl

theorem wellMade_step {c c' : Config} {l : Label} (hc : WellMade c) (h : step c l = some c') :
    WellMade c' := by
  refine Interleave.actInv_step ?_ ?_ ?_ hc h
  · intro s a i s' new hq ha hp
    obtain ⟨hq', hnew⟩ := (perform_effect hp).ready ha hq
    exact ⟨hq', hnew, fun _ hb => hb⟩
  · intro s t k s' new hq hk
    simp only [machine, call] at hk
    split at hk
    · obtain ⟨rfl, rfl⟩ := Prod.mk.inj (Option.some.inj hk)
      refine ⟨hq, fun b hb => ?_, fun _ hb => hb⟩
      rw [List.mem_singleton.mp hb]
      exact .of_jobs (jobs_call k)
    · cases hk
  · intro s ps e s' ps' hq hps he
    rcases env_cases he with ⟨elapsed, rfl, rfl, rfl⟩ | ⟨o, rfl, -, rfl, rfl⟩ | ⟨rfl, rfl, rfl⟩ |
      ⟨t, rfl, -, -, -, -, -, ht, rfl, rfl⟩
    · exact ⟨hq, hps⟩
    · refine ⟨by simp [launched, Worker.start], fun p hp a ha => ?_⟩
      simp only [List.mem_cons, List.mem_replicate] at hp
      rcases hp with rfl | rfl | rfl | ⟨-, rfl⟩
      · rcases List.mem_append.mp ha with ha | ha
        · obtain ⟨r, hr, rfl⟩ := List.mem_map.mp ha
          exact .enqueue (made_restoredJob hr)
        · exact .of_jobs (jobs_initCalls a ha)
      · rw [List.mem_singleton.mp ha]
        exact .of_jobs rfl
      · rw [List.mem_singleton.mp ha]
        exact .of_jobs rfl
      · cases ha
    · exact ⟨hq, hps⟩
    · refine ⟨hq, fun p hp a ha => ?_⟩
      rcases List.mem_or_eq_of_mem_set hp with hp | rfl
      · exact hps p hp a ha
      · exact .of_jobs (mem_destructor ha)

theorem Fresh.queue {c : Config} (h : Fresh c) : c.shared.worker.queue = [] := by
  rw [h.memory]

/-- **In every reachable state the jobs are well made.** -/
theorem reachable_wellMade {c : Config} (h : Reachable c) : WellMade c := by
  refine Run.reachable_inv (fun c hc => ⟨?_, ?_⟩) (fun _ _ _ => wellMade_step) h
  · simp [hc.queue]
  · simp [hc.threads]

end Tombstone.Runtime
