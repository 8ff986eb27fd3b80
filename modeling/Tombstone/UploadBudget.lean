import Tombstone.Jobs

/- How many requests one thing that is captured can cost (`worker.cpp`: `process`,
   `handle_post_result`; `client_reports.cpp`: `record_rtt_metric`).

   A delivery has consequences of its own: a granted log slot is filled, an acknowledged
   heartbeat is answered request by request, and the round trip is sampled into the metric
   batch, whose upload is a request again. `suppress_rtt` is there so that this ends. What is
   proved, for every run of the client, over launches:

   1. every action pays for the requests it still causes out of its work (`perform_work`);
   2. so a run sends no more requests than the work it began with and what the host, the
      heartbeat and the server have asked for since (`uploads_budgeted`). -/
namespace Tombstone.Runtime

/-! ## Work -/

/-- The requests that may follow the first sending of a job: its retries, the log upload it may be
granted, and the round trip it may add to the metrics, each with retries of its own. -/
def UploadJob.aftermath (job : UploadJob) : Nat :=
  (Worker.maxAttempts - 1 - job.attempt) + (if job.requestLog then Worker.maxAttempts else 0) +
    (if job.signBody && !job.suppressRtt then Worker.maxAttempts else 0)

/-- The requests a job that is still to be sent may cost. -/
def UploadJob.work (job : UploadJob) : Nat := 1 + UploadJob.aftermath job

/-- The requests one buffered item may cost, in an envelope of its own. -/
def itemWork (metric : Bool) : Nat :=
  if metric then Worker.maxAttempts else 2 * Worker.maxAttempts

def reportWork (wantLog : Bool) : Nat :=
  2 * Worker.maxAttempts + (if wantLog then Worker.maxAttempts else 0)

/-- The requests an action may cost from here on. -/
@[simp] def Act.work : Act → Nat
  | .track metric _ | .addItem metric _ => itemWork metric
  | .reportCrash _ wantLog | .reportBug _ wantLog => reportWork wantLog
  | .writeAhead job | .enqueue job | .post job => UploadJob.work job
  | .await job => UploadJob.aftermath job
  | .requestPlayerLogs _ | .rttSample => Worker.maxAttempts
  | .setConsent _ | .startSessionTracking | .trackIfConsented => reportWork true
  | _ => 0

/-- The requests of what is queued and buffered. -/
def heldWork (s : State) : Nat :=
  (s.worker.queue.map UploadJob.work).sum + itemWork false * s.eventBatch.items.length +
    itemWork true * s.metricBatch.items.length

def work (c : Config) : Nat := Interleave.total heldWork Act.work c

/-- The job an action hands to the transport. -/
def Act.sent : Act → List UploadJob
  | .post job => [job]
  | _ => []

def sent (c : Config) (l : Label) : List UploadJob :=
  ((Interleave.acting c l).map Act.sent).getD []

/-- What an action asks for anew: a heartbeat, or the fulfilments a server asked for. -/
def Act.asks (s : State) (i : Input) : Act → Nat
  | .heartbeat => 2 * Worker.maxAttempts
  | .ackRequests body => 2 * Worker.maxAttempts * (fulfilJobs s i.ident body).length
  | _ => 0

/-- What a step of the run asks for: a call of the host, a beat, the requests of an ack, and, at a
launch, what is restored and replayed. -/
def asked (c : Config) (l : Label) : Nat :=
  match l with
  | .exec _ i => ((Interleave.acting c l).map (Act.asks c.shared i)).getD 0
  | .call _ k => k.act.work
  | .env (.launch o) => ((initProgram (launched c.shared o) o).map Act.work).sum
  | .env _ => 0

/-! ## Jobs and batches -/

variable {s s' : State} {a : Act} {i : Input} {new : List Act}

theorem work_reportJob (s : State) (kind : SidecarKind) (body : Bytes) (wantLog previous : Bool) :
    UploadJob.work (reportJob s kind body wantLog previous) = reportWork wantLog := by
  cases wantLog <;> rfl

theorem reportWork_le (wantLog : Bool) : reportWork wantLog ≤ reportWork true := by
  cases wantLog <;> decide

theorem work_envelopeJob (s : State) (metric : Bool) (e : Envelope) :
    UploadJob.work (envelopeJob s metric e) = itemWork metric := by
  cases metric <;> rfl

/-- A retry comes out of what the sending left. -/
theorem work_retried {job : UploadJob} (h : job.attempt + 1 < Worker.maxAttempts) (now : Nat)
    (hint : Option Nat) : UploadJob.work (Worker.retried job now hint) ≤ UploadJob.aftermath job := by
  unfold UploadJob.work UploadJob.aftermath
  change 1 + (Worker.maxAttempts - 1 - (job.attempt + 1) +
    (if job.requestLog then Worker.maxAttempts else 0) +
    (if job.signBody && !job.suppressRtt then Worker.maxAttempts else 0)) ≤ _
  omega

/-- The bound of the queue drops work, and adds none. -/
theorem work_enqueue (w : Worker) (job : UploadJob) :
    ((w.enqueue job).queue.map UploadJob.work).sum ≤
      (w.queue.map UploadJob.work).sum + UploadJob.work job := by
  have h := congrArg (fun q => (q.map UploadJob.work).sum) (w.enqueue_queue job)
  simp only [List.map_append, List.sum_append, List.map_cons, List.map_nil, List.sum_cons,
    List.sum_nil] at h
  omega

/-- An envelope holds at least one item. -/
theorem length_drainAll (stamp : Bytes) : ∀ (fuel : Nat) (items : List Item),
    (Batch.drainAll stamp fuel items).length ≤ items.length := by
  intro fuel
  induction fuel with
  | zero => simp [Batch.drainAll]
  | succ fuel ih =>
    intro items
    cases items with
    | nil => simp [Batch.drainAll]
    | cons item rest =>
      have hleft := Batch.drainLocked_shrinks stamp item rest
      have hrest := ih (Batch.drainLocked stamp (item :: rest)).2
      simp only [Batch.drainAll, List.length_cons]
      omega

theorem length_add (b : Batch) (now : Nat) (item : Item) :
    (b.add now item).1.items.length ≤ b.items.length + 1 := by
  have h := congrArg List.length (b.add_items now item)
  simp only [List.length_append, List.length_singleton] at h
  omega

/-! ## One action -/

theorem heldWork_setBatch (s : State) (metric : Bool) (b : Batch) :
    heldWork (s.setBatch metric b) + itemWork metric * (s.batch metric).items.length =
      heldWork s + itemWork metric * b.items.length := by
  cases metric
  all_goals
    simp only [heldWork, State.setBatch, State.batch, Bool.false_eq_true, if_true, if_false]
    omega

/-- A change that neither the queue nor a batch is part of. -/
theorem heldWork_congr (hq : s'.worker.queue = s.worker.queue) (he : s'.eventBatch = s.eventBatch)
    (hm : s'.metricBatch = s.metricBatch) : heldWork s' = heldWork s := by
  rw [heldWork, hq, he, hm, heldWork]

theorem heldWork_addItem (s : State) (metric : Bool) (text : Bytes) :
    heldWork (addItem s metric text) ≤ heldWork s + itemWork metric := by
  have hlen := length_add (s.batch metric) s.now { text, serial := s.nextSerial }
  have hset := heldWork_setBatch s metric ((s.batch metric).add s.now { text, serial := s.nextSerial }).1
  have hsame : heldWork (addItem s metric text) =
      heldWork (s.setBatch metric ((s.batch metric).add s.now { text, serial := s.nextSerial }).1) := by
    apply heldWork_congr
    · rw [setBatch_queue]
      exact (addItem_effect s metric text).1
    · rfl
    · rfl
  have hmul := Nat.mul_le_mul_left (itemWork metric) hlen
  rw [Nat.mul_add, Nat.mul_one] at hmul
  omega

theorem heldWork_enqueue (s : State) (job : UploadJob) :
    heldWork (enqueue s job) ≤ heldWork s + UploadJob.work job := by
  have h := work_enqueue s.worker job
  simp only [heldWork, enqueue]
  omega

/-- A drain turns items into envelopes, at most one each. -/
theorem maybeFlushBatch_work {metric force : Bool} {stamp : Bytes} {now : Nat}
    (h : maybeFlushBatch s metric stamp now force = (s', new)) :
    heldWork s' + (new.map Act.work).sum ≤ heldWork s := by
  unfold maybeFlushBatch at h
  split at h
  · obtain ⟨rfl, rfl⟩ := Prod.mk.inj h
    simp
  · obtain ⟨rfl, rfl⟩ := Prod.mk.inj h
    have hset := heldWork_setBatch s metric
      ((s.batch metric).drainEnvelopesIfReady stamp now force).1
    have hacts : ∀ es : List Envelope,
        ((es.map fun e => Act.enqueue (envelopeJob s metric e)).map Act.work).sum =
          itemWork metric * es.length := by
      intro es
      induction es with
      | nil => rfl
      | cons e es ih =>
        rw [List.map_cons, List.map_cons, List.sum_cons, ih, List.length_cons, Nat.mul_succ]
        simp only [Act.work, work_envelopeJob]
        omega
    rw [hacts]
    have hdrained : ((s.batch metric).drainEnvelopesIfReady stamp now force).1.items.length +
        ((s.batch metric).drainEnvelopesIfReady stamp now force).2.length ≤
          (s.batch metric).items.length := by
      unfold Batch.drainEnvelopesIfReady
      split
      · simpa using length_drainAll stamp (s.batch metric).items.length (s.batch metric).items
      · simp
    have hmul := Nat.mul_le_mul_left (itemWork metric) hdrained
    rw [Nat.mul_add] at hmul
    omega

theorem takeReadyJob_work (h : takeReadyJob s = (s', new)) :
    heldWork s' + (new.map Act.work).sum ≤ heldWork s := by
  rcases takeReadyJob_cases h with ⟨rfl, rfl⟩ | ⟨job, before, after, hq, rfl, rfl⟩
  · simp [Act.work]
  · simp only [heldWork, hq, Act.work, List.map_append, List.map_cons, List.map_nil,
      List.sum_append, List.sum_cons, List.sum_nil]
    omega

theorem retryOrGiveUp_work {job : UploadJob} {hint : Option Nat}
    (h : retryOrGiveUp s job hint = (s', new)) :
    heldWork s' = heldWork s ∧ (new.map Act.work).sum ≤ UploadJob.aftermath job := by
  rcases retryOrGiveUp_cases h with ⟨hlt, rfl, rfl⟩ | ⟨-, rfl, rfl⟩
  · refine ⟨rfl, ?_⟩
    simpa [Act.work] using work_retried hlt s'.now hint
  · refine ⟨rfl, ?_⟩
    split <;> simp [Act.work]

/-- **A response pays for what it causes** out of the aftermath of the job: the log upload, the
retry, and the round trip, which a metrics upload does not sample. -/
theorem process_work {job : UploadJob} (h : process s job i = (s', new)) :
    heldWork s' = heldWork s ∧ (new.map Act.work).sum ≤ UploadJob.aftermath job := by
  unfold process at h
  split at h
  · split at h
    · exact retryOrGiveUp_work h
    · obtain ⟨rfl, rfl⟩ := Prod.mk.inj h
      simp
  · obtain ⟨rfl, rfl⟩ := Prod.mk.inj h
    cases ho : i.response.outcome with
    | delivered =>
      have hlog := scheduleLogUpload_cases
        { s with sidecars := s.sidecars.remove job.sidecarPath, settled := s.settled ++ carried job }
        job i
      obtain ⟨claimed, hs, hacts⟩ := hlog
      have hack : ((if job.parseAck then [Act.ackRequests i.response.body] else []).map
          Act.work).sum = 0 := by
        split <;> rfl
      have hrtt : ((if s.rttEnabled && job.signBody && !job.suppressRtt &&
          Outcome.delivered == .delivered then [Act.rttSample] else []).map Act.work).sum ≤
            if job.signBody && !job.suppressRtt then Worker.maxAttempts else 0 := by
        cases s.rttEnabled <;> cases job.signBody <;> cases job.suppressRtt <;> decide
      unfold handlePostResult
      simp only [ho]
      cases hreq : job.requestLog
      · refine ⟨rfl, ?_⟩
        simp only [Bool.false_eq_true, if_false, List.nil_append, List.map_append, List.sum_append,
          hack, UploadJob.aftermath, hreq]
        omega
      · refine ⟨?_, ?_⟩
        · simp only [if_true, hs]
          rfl
        · have hone : ((scheduleLogUpload
              { s with
                sidecars := s.sidecars.remove job.sidecarPath
                settled := s.settled ++ carried job } job i).2.map Act.work).sum ≤
                Worker.maxAttempts := by
            rcases hacts with hnone | ⟨upload, bytes, -, hup⟩
            · rw [hnone]
              simp
            · rw [hup]
              simp [Act.work, UploadJob.work, UploadJob.aftermath, logUploadJob, Worker.maxAttempts]
          simp only [if_true, List.map_append, List.sum_append, hack, UploadJob.aftermath, hreq]
          omega
    | poison =>
      refine ⟨?_, ?_⟩
      · simp only [handlePostResult, ho]
        rfl
      · simp [handlePostResult, ho]
    | transient =>
      have hnone : (if s.rttEnabled && job.signBody && !job.suppressRtt &&
          Outcome.transient == .delivered then [Act.rttSample] else []) = [] := by
        simp
      rw [hnone, List.append_nil]
      simp only [handlePostResult, ho]
      split
      · simp
      · exact retryOrGiveUp_work (Prod.mk.eta (p := retryOrGiveUp s job _)).symm

theorem startSessionTracking_work (h : startSessionTracking s i = some (s', new)) :
    heldWork s' + (new.map Act.work).sum ≤ heldWork s + reportWork true := by
  rcases startSessionTracking_cases h with ⟨started, marker, rfl, rfl⟩ | ⟨-, rfl, rfl⟩
  · simp [heldWork]
  · have hle := reportWork_le i.wantLog
    simp only [heldWork, List.map_cons, List.map_nil, List.sum_cons, List.sum_nil, Act.work, work_reportJob]
    omega

theorem drainBatches_work (s : State) (force : Bool) :
    ((drainBatches s force).map Act.work).sum = 0 := by
  unfold drainBatches
  split <;> rfl

theorem fulfilJobs_work (s : State) (who : ClientIdent) (body : Bytes) :
    (((fulfilJobs s who body).map Act.enqueue).map Act.work).sum =
      2 * Worker.maxAttempts * (fulfilJobs s who body).length := by
  unfold fulfilJobs
  split
  · rfl
  · generalize (JsonScan.findPendingRequests body).filter _ = requests
    induction requests with
    | nil => rfl
    | cons request requests ih =>
      simp only [List.map_cons, List.sum_cons, List.length_cons, Nat.mul_succ, ih]
      have hone : Act.work (.enqueue (fulfilJob s who request)) = 2 * Worker.maxAttempts := rfl
      omega

theorem persistLeftovers_work (s : State) :
    heldWork (persistLeftovers s).1 + (((persistLeftovers s).2.map Act.work).sum) ≤ heldWork s := by
  have hnone : ((persistLeftovers s).2.map Act.work).sum = 0 := by
    simp only [persistLeftovers]
    induction s.worker.queue.filter Worker.persistable with
    | nil => rfl
    | cons job jobs ih => simpa [Act.work] using ih
  rw [hnone]
  simp only [persistLeftovers, heldWork, List.map_nil, List.sum_nil]
  omega

theorem reportCrash_work {body : ReportBody} {wantLog : Bool}
    (h : perform s (.reportCrash body wantLog) i = some (s', new)) :
    heldWork s' + (new.map Act.work).sum ≤ heldWork s + reportWork wantLog := by
  rcases reportCrash_cases h with ⟨rfl, rfl⟩ | ⟨-, rfl, rfl⟩
  · simp
  · simp [heldWork, work_reportJob]

theorem reportBug_work {body : ReportBody} {wantLog : Bool}
    (h : perform s (.reportBug body wantLog) i = some (s', new)) :
    heldWork s' + (new.map Act.work).sum ≤ heldWork s + reportWork wantLog := by
  rcases reportBug_cases h with ⟨rfl, rfl⟩ | ⟨-, rfl, rfl⟩
  · simp
  · simp [heldWork, work_reportJob]

/-- A file costs no request. -/
theorem writeAhead_work {job : UploadJob} (h : perform s (.writeAhead job) i = some (s', new)) :
    heldWork s' + (new.map Act.work).sum ≤ heldWork s + UploadJob.work job := by
  have hpath : ∀ p, UploadJob.work { job with sidecarPath := p } = UploadJob.work job := fun _ => rfl
  obtain ⟨path, rfl⟩ := writeAhead_new h
  have hheld : heldWork s' = heldWork s := by
    rcases writeAhead_cases h with ⟨rfl, -⟩ | ⟨-, rfl, -⟩ <;> rfl
  simp [hheld, hpath]

theorem persistLeftover_work {job : UploadJob}
    (h : perform s (.persistLeftover job) i = some (s', new)) :
    heldWork s' = heldWork s ∧ new = [] := by
  obtain ⟨rfl, rfl | ⟨-, rfl⟩⟩ := persistLeftover_cases h
  · exact ⟨rfl, rfl⟩
  · exact ⟨rfl, rfl⟩

theorem heartbeat_work (h : perform s .heartbeat i = some (s', new)) :
    heldWork s' + (new.map Act.work).sum ≤ heldWork s + 2 * Worker.maxAttempts := by
  obtain ⟨-, ⟨rfl, rfl⟩ | ⟨rfl, rfl⟩ | ⟨-, -, rfl, rfl⟩⟩ := heartbeat_cases h
  · simp [heldWork]
  · simp
  · simp [UploadJob.work, UploadJob.aftermath, heartbeatJob, Worker.maxAttempts]

theorem waiting_work {deadline : Nat} (h : perform s (.waiting deadline) i = some (s', new)) :
    heldWork s' + (new.map Act.work).sum ≤ heldWork s := by
  rcases wakeUp_cases (waiting_cases h) with ⟨-, rfl, rfl⟩ | ⟨-, flushed, rfl, rfl⟩ | ⟨-, hw⟩
  · simp [heldWork]
  · simp [heldWork]
  · have htake := takeReadyJob_work hw
    exact htake

theorem stopWorker_work (h : perform s .stopWorker i = some (s', new)) :
    heldWork s' + (new.map Act.work).sum ≤ heldWork s := by
  rcases stopWorker_cases h with ⟨-, rfl, rfl⟩ | ⟨-, rfl, rfl⟩ <;> simp [heldWork]

/-- The request a post sends was counted with the job. -/
theorem post_work {job : UploadJob} (h : perform s (.post job) i = some (s', new)) :
    heldWork s' + (new.map Act.work).sum + 1 ≤ heldWork s + UploadJob.work job := by
  obtain ⟨rfl, rfl⟩ := Prod.mk.inj (Option.some.inj h)
  simp only [List.map_cons, List.map_nil, List.sum_cons, List.sum_nil, Act.work, UploadJob.work]
  omega

theorem await_work {job : UploadJob} (h : perform s (.await job) i = some (s', new)) :
    heldWork s' + (new.map Act.work).sum ≤ heldWork s + UploadJob.aftermath job := by
  obtain ⟨rfl, rfl⟩ := Prod.mk.inj (Option.some.inj h)
  obtain ⟨hheld, hnew⟩ := process_work (Prod.mk.eta (p := process s job i)).symm
  simp only [List.map_append, List.sum_append, List.map_cons, List.map_nil, List.sum_cons,
    List.sum_nil, Act.work]
  omega

/-- **Every action pays** for the requests it sends and causes: out of its work and what it asks
for anew. -/
theorem perform_work (h : perform s a i = some (s', new)) :
    heldWork s' + (new.map Act.work).sum + a.sent.length ≤ heldWork s + a.work + a.asks s i := by
  cases a
  case reportCrash => exact reportCrash_work h
  case reportBug => exact reportBug_work h
  case writeAhead => exact writeAhead_work h
  case startSessionTracking => exact startSessionTracking_work h
  case maybeFlushBatch => exact maybeFlushBatch_work (Option.some.inj h)
  case heartbeat => exact heartbeat_work h
  case waiting => exact waiting_work h
  case takeReadyJob => exact takeReadyJob_work (Option.some.inj h)
  case post => exact post_work h
  case await => exact await_work h
  case stopWorker => exact stopWorker_work h
  case joinWorker =>
    obtain ⟨-, rfl, rfl⟩ := joinWorker_cases h
    exact persistLeftovers_work s
  case persistLeftover =>
    obtain ⟨hheld, rfl⟩ := persistLeftover_work h
    exact hheld.le
  case workerFlush =>
    obtain ⟨-, rfl, rfl⟩ := workerFlush_cases h
    exact Nat.le_refl _
  case joinHeartbeat =>
    obtain ⟨-, rfl, rfl⟩ := joinHeartbeat_cases h
    exact Nat.le_refl _
  case track =>
    obtain ⟨rfl, rfl | ⟨-, rfl⟩⟩ := track_cases h <;> simp [Act.sent, Act.asks]
  -- the other actions never wait
  all_goals obtain ⟨rfl, rfl⟩ := Prod.mk.inj (Option.some.inj h)
  case addItem metric text => exact heldWork_addItem s metric text
  case enqueue job => exact heldWork_enqueue s job
  case ackRequests =>
    rw [fulfilJobs_work]
    simp [Act.sent, Act.asks]
  case setConsent | trackIfConsented => split <;> simp [heldWork, Act.sent, Act.asks]
  case startSession => cases s.gate.set.2 <;> simp [heldWork, Worker.wake, Act.sent, Act.asks]
  case flushAllBatches | drainReadyBatches => simp [drainBatches_work, Act.sent, Act.asks]
  case requestPlayerLogs body =>
    have hone : UploadJob.work (playerLogsJob s body) = Worker.maxAttempts := rfl
    simp [hone, Act.sent, Act.asks]
  -- the rest neither hold work nor make any
  all_goals simp [heldWork, Act.sent, Act.asks, itemWork]

/-! ## Runs -/

theorem work_step {c c' : Config} {l : Label} (h : step c l = some c') :
    work c' + (sent c l).length ≤ work c + asked c l := by
  rcases Interleave.step_cases h with ⟨t, i, a, rest, s', new, rfl, ht, hp, rfl⟩ |
    ⟨t, k, s', new, rfl, ht, hk, rfl⟩ | ⟨e, rfl, he⟩
  · obtain ⟨frame, hc, hc'⟩ := Interleave.total_exec heldWork Act.work ht
    have hacting := Interleave.acting_exec (i := i) (κ := Call) (ε := Event) ht
    have hperform := perform_work hp
    have hsent : sent c (.exec t i) = a.sent := by simp [sent, hacting]
    have hasked : asked c (.exec t i) = a.asks c.shared i := by simp [asked, hacting]
    rw [work, work, hc, hc', hsent, hasked]
    omega
  · obtain ⟨frame, hc, hc'⟩ := Interleave.total_call heldWork Act.work ht
    simp only [machine, call] at hk
    split at hk
    · obtain ⟨rfl, rfl⟩ := Prod.mk.inj (Option.some.inj hk)
      rw [work, work, hc, hc']
      simp only [sent, asked, Interleave.acting, Option.map_none, Option.getD_none, List.length_nil,
        List.map_cons, List.map_nil, List.sum_cons, List.sum_nil]
      omega
    · cases hk
  · have hsent : sent c (.env e) = [] := rfl
    rw [hsent, List.length_nil, Nat.add_zero]
    obtain ⟨s', ps'⟩ := c'
    rcases env_cases he with ⟨elapsed, rfl, rfl, rfl⟩ | ⟨o, rfl, -, rfl, rfl⟩ | ⟨rfl, rfl, rfl⟩ |
      ⟨t, rfl, -, -, -, -, -, ht, rfl, rfl⟩
    · simp [work, Interleave.total, heldWork, asked]
    · -- what was in memory is gone: the work is that of `init`
      have hidle : ((List.replicate o.hostThreads ([] : List Act)).map
          fun p => (p.map Act.work).sum).sum = 0 := by
        simp
      have hempty : heldWork (launched c.shared o) = 0 := by
        simp [heldWork, launched, Worker.start]
      simp only [work, Interleave.total, hempty, List.map_cons, List.sum_cons, hidle, asked]
      simp [Act.work]
    · simp [work, Interleave.total, heldWork, asked]
    · obtain ⟨frame, hc, hc'⟩ := Interleave.total_call heldWork Act.work ht
      have hquit : (destructor.map Act.work).sum = 0 := rfl
      rw [work, work, hc, hc', hquit]
      simp [heldWork, asked]

/-- **No upload feeds on itself.** In every run of the client, over launches and interleavings and
whatever the server answers, the number of requests sent, together with the work that is left, is at
most the work the run began with and what was asked for since: by the host's calls, by the
heartbeats, by the fulfilments a server requested, and by what a launch restores. The metrics that
sample the round trips of all these uploads are paid for within that. -/
theorem uploads_budgeted {c c' : Config} {ls : List Label} (h : Run.run step c ls = some c') :
    work c' + (Run.trace step sent c ls).length ≤
      work c + (Run.trace step (fun c l => [asked c l]) c ls).sum := by
  have hstep : ∀ c l c', True → True → step c l = some c' →
      True ∧ work c' + (sent c l).length ≤ work c + asked c l :=
    fun _ _ _ _ _ hs => ⟨trivial, work_step hs⟩
  exact Run.trace_amortised hstep trivial (fun _ _ => trivial) h

/-- A crash report of an earlier launch is restored and sent. -/
def restoredOnce : List Label :=
  .env (.launch { order := [crashFile] }) :: .exec 0 {} :: List.replicate 7 (.exec 2 {})

theorem uploads_budgeted_restoredOnce :
    (Run.trace step sent oneCrash restoredOnce).length = 1 ∧
      ∃ c', Run.run step oneCrash restoredOnce = some c' ∧ work c' + 1 ≤ 25 := by
  have hrun : (Run.run step oneCrash restoredOnce).isSome := by decide
  have hsent : (Run.trace step sent oneCrash restoredOnce).length = 1 := by decide
  have hasked : (Run.trace step (fun c l => [asked c l]) oneCrash restoredOnce).sum = 25 := by decide
  obtain ⟨c', hc⟩ := Option.isSome_iff_exists.mp hrun
  have hbound := uploads_budgeted hc
  rw [hsent, hasked] at hbound
  exact ⟨hsent, c', hc, hbound⟩

end Tombstone.Runtime
