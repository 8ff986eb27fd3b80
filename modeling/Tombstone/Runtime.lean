import Tombstone.Interleave
import Tombstone.StartGate
import Tombstone.Worker

/- The delivery side of a running client, as threads over its shared state: what is put
   into memory and on disk, when, and when it is handed to the transport (`client.cpp`,
   `client_reports.cpp`, `worker.cpp`).

   Thread 0 is the thread that runs `tombstone_init`, thread 1 the heartbeat thread,
   thread 2 the worker's; the others belong to the host. One action is one section of the
   source under a lock, or one access to an atomic. Bodies are opaque here: who they speak
   of is the subject of `Session`.

   The environment chooses what the code does not: file names, time stamps, responses, the
   bodies the host and the builders supply, when a wait times out, when time passes, and
   when the process dies and is launched again.

   Two things are taken for granted. The answer to a post and the removal of its file are one
   step, in which the removal succeeds; and launches never overlap, a client is gone before the
   next one is launched. `AnsweredOnce` puts such clients into a system in which removals may
   fail and clients may overlap. -/
namespace Tombstone.Runtime

/-- A report body: the builders never return an empty text. -/
abbrev ReportBody := { body : Bytes // body ≠ [] }

/-- What a fulfilment says about the client. -/
structure ClientIdent where
  userId : Bytes := []
  sessionId : Bytes := []
  matchId : Bytes := []
  serverId : Bytes := []

/-- What the environment supplies to one action. -/
structure Input where
  /-- `unique_file_name`. -/
  name : FileName := { stem := [] }
  /-- `now_iso8601_utc_ms`. -/
  stamp : Bytes := []
  /-- A heartbeat, rtt sample or synthetic report as its builder returns it. -/
  body : Bytes := []
  wantLog : Bool := false
  /-- Whether the sampler keeps a captured item. -/
  keep : Bool := true
  response : HttpResponse := {}
  previousLog : Bytes := []
  currentLog : Bytes := []
  ident : ClientIdent := {}
  /-- The deadline of a bounded wait has passed. -/
  expired : Bool := false

/-- Where a flush began: the items added before it, and whether the gate was open;
proof-only. -/
structure FlushMark where
  serial : Nat
  gateOpen : Bool

/-- The shared state of a launched process, with what is on disk. -/
structure State where
  endpoint : Bytes := []
  rttEnabled : Bool := false
  storageAvailable : Bool := false
  uncleanDetectionEnabled : Bool := false
  initialized : Bool := false
  consent : Bool := true
  gate : StartGate := {}
  sessionTrackingStarted : Bool := false
  previousMarker : Bool := false
  hasRestoredCrash : Bool := false
  /-- `g_client` holds this client. -/
  published : Bool := false
  /-- The destructor has begun. -/
  destroying : Bool := false
  heartbeatThread : Bool := false
  heartbeatStop : Bool := false
  workerThread : Bool := false
  eventBatch : Batch := {}
  metricBatch : Batch := {}
  worker : Worker := {}
  sidecars : SidecarQueue := {}
  now : Nat := 0
  /-- Proof-only: the next report's number, the reports that have been written to disk,
  the next item's serial, and the serials of the items that were dropped by a bound, whose
  envelope reached a final outcome, or that were left in the queue at shutdown. -/
  nextReport : Nat := 0
  written : List Nat := []
  nextSerial : Nat := 0
  dropped : List Nat := []
  settled : List Nat := []
  leftover : List Nat := []

def State.captureAllowed (s : State) : Bool := s.initialized && s.consent

inductive Act where
  -- what the host's calls do
  | track (metric : Bool) (text : Bytes)
  | addItem (metric : Bool) (text : Bytes)
  | reportCrash (body : ReportBody) (wantLog : Bool)
  | reportBug (body : ReportBody) (wantLog : Bool)
  | writeAhead (job : UploadJob)
  | enqueue (job : UploadJob)
  | requestPlayerLogs (body : Bytes)
  | setConsent (granted : Bool)
  | startSessionTracking
  | startSession
  | flush
  | flushAllBatches
  | maybeFlushBatch (metric : Bool) (now : Nat) (force : Bool)
  | workerFlush (mark : FlushMark)
  -- `Client::init` and `~Client`
  | startHeartbeat (enabled : Bool)
  | trackIfConsented
  | publish
  | stopHeartbeat
  | joinHeartbeat
  | stopWorker
  | joinWorker
  -- the heartbeat thread's loop
  | heartbeat
  -- the worker thread's loop
  | loopTop
  | drainReadyBatches
  | waitWake
  | waiting (deadline : Nat)
  | takeReadyJob
  | post (job : UploadJob)
  | await (job : UploadJob)
  | ackRequests (body : Bytes)
  | rttSample
  | clearInFlight
  | persistLeftover (job : UploadJob)

/-! ## Jobs -/

def crashesPath : Bytes := lit "/api/v1/ingest/crashes"
def bugReportsPath : Bytes := lit "/api/v1/ingest/bug-reports"
def eventsPath : Bytes := lit "/api/v1/ingest/events"
def heartbeatsPath : Bytes := lit "/api/v1/ingest/heartbeats"
def eventsBatchPath : Bytes := lit "/api/v1/ingest/events:batch"
def metricsBatchPath : Bytes := lit "/api/v1/ingest/metrics:batch"
def pullRequestsPath : Bytes := lit "/api/v1/pull-requests"

/-- `ingest_path_for`. -/
def ingestPathFor : SidecarKind → Bytes
  | .crash => crashesPath
  | .bugReport => bugReportsPath
  | .event => eventsPath

/-- The job `enqueue_ingest` makes of a crash or bug report. -/
def reportJob (s : State) (kind : SidecarKind) (body : Bytes) (wantLog fromPrevious : Bool) :
    UploadJob :=
  { url := s.endpoint ++ ingestPathFor kind, body, durability := .writeAhead, kind
    requestLog := wantLog, logFromPrevious := fromPrevious, signBody := true
    origin := .report s.nextReport }

/-- The job `drain_sidecars` makes of a restored record. -/
def restoredJob (s : State) (r : SidecarRecord) : UploadJob :=
  { url := s.endpoint ++ ingestPathFor r.path.kind, body := r.body, durability := .writeAhead
    kind := r.path.kind, sidecarPath := some r.path
    requestLog := r.path.kind != .event && (JsonScan.findBoolField r.body (lit "log")).getD false
    logFromPrevious := true, signBody := true, origin := .report r.report }

def heartbeatJob (s : State) (body : Bytes) : UploadJob :=
  { url := s.endpoint ++ heartbeatsPath, body, durability := .ephemeral, parseAck := true
    signBody := true, origin := .heartbeat }

/-- The job `maybe_flush_batch` makes of one envelope. -/
def envelopeJob (s : State) (metric : Bool) (e : Envelope) : UploadJob :=
  { url := s.endpoint ++ (if metric then metricsBatchPath else eventsBatchPath), body := e.text
    durability := .persistOnFailure, noPersist := true, signBody := true, suppressRtt := metric
    origin := .items e.items }

def playerLogsJob (s : State) (body : Bytes) : UploadJob :=
  { url := s.endpoint ++ pullRequestsPath, body, durability := .persistOnFailure, noPersist := true
    origin := .playerLogs }

def fulfilJob (s : State) (who : ClientIdent) (request : JsonScan.PendingPullRequest) : UploadJob :=
  { url := s.endpoint ++ pullRequestsPath ++ lit "/" ++ request.requestId ++ lit "/fulfill"
    body := buildPullFulfillJson who.userId who.sessionId who.matchId who.serverId
      request.fulfillNonce request.nonceExpiry
    durability := .persistOnFailure, requestLog := true, noPersist := true, origin := .fulfil }

/-- The job `schedule_log_upload` makes of a granted slot. -/
def logUploadJob (upload : JsonScan.LogUpload) (bytes : Bytes) : UploadJob :=
  { isLogUpload := true, url := upload.url, formFields := upload.fields, raw := bytes
    durability := .persistOnFailure, origin := .logUpload }

/-- The requests of an ack that `handle_heartbeat_ack` fulfils. -/
def fulfilJobs (s : State) (who : ClientIdent) (body : Bytes) : List UploadJob :=
  if !s.captureAllowed || body.isEmpty then []
  else
    ((JsonScan.findPendingRequests body).filter fun request =>
      !request.requestId.isEmpty &&
        pullRequestTargetsClient request.targetType request.targetValue who.userId who.sessionId
          who.matchId who.serverId).map (fulfilJob s who)

/-- The items an envelope's job carries; no other job carries any. -/
def carried (job : UploadJob) : List Nat :=
  match job.origin with
  | .items items => items.map Item.serial
  | _ => []

/-! ## What the actions do -/

def State.batch (s : State) (metric : Bool) : Batch := if metric then s.metricBatch else s.eventBatch

def State.setBatch (s : State) (metric : Bool) (b : Batch) : State :=
  if metric then { s with metricBatch := b } else { s with eventBatch := b }

/-- `Batch::add` from a capture call, and the wake a count trigger asks for. -/
def addItem (s : State) (metric : Bool) (text : Bytes) : State :=
  let added := (s.batch metric).add s.now { text, serial := s.nextSerial }
  { s.setBatch metric added.1 with
    worker := if added.2 then s.worker.wake else s.worker
    nextSerial := s.nextSerial + 1
    dropped := s.dropped ++ (s.batch metric).overflow.map Item.serial }

/-- `Worker::enqueue`, with what its bound drops. -/
def enqueue (s : State) (job : UploadJob) : State :=
  { s with
    worker := s.worker.enqueue job
    dropped := s.dropped ++ s.worker.overflow.flatMap carried }

/-- `maybe_flush_batch`. -/
def maybeFlushBatch (s : State) (metric : Bool) (stamp : Bytes) (now : Nat) (force : Bool) :
    State × List Act :=
  if !(s.batch metric).hasItems then (s, [])
  else
    let drained := (s.batch metric).drainEnvelopesIfReady stamp now force
    (s.setBatch metric drained.1, drained.2.map fun e => .enqueue (envelopeJob s metric e))

/-- A drain of both batches, behind the send gate. -/
def drainBatches (s : State) (force : Bool) : List Act :=
  if s.gate.opened then [.maybeFlushBatch false s.now force, .maybeFlushBatch true s.now force] else []

/-- `SidecarQueue::write` for a job. -/
def writeSidecar (s : State) (job : UploadJob) (name : FileName) : State × Option SidecarPath :=
  let number := job.origin.number.getD 0
  match s.sidecars.write job.kind job.body number name with
  | (q, none) => ({ s with sidecars := q }, none)
  | (q, some path) => ({ s with sidecars := q, written := s.written ++ [number] }, some path)

/-- `take_ready_job` in the worker's loop. -/
def takeReadyJob (s : State) : State × List Act :=
  match Worker.takeReady s.now s.worker.queue with
  | none => (s, [.loopTop])
  | some (job, rest) =>
    ({ s with worker := { s.worker with queue := rest, inFlight := true } }, [.post job])

/-- The session log a granted slot gets: `read_previous` or `read_current`. -/
def readLog (job : UploadJob) (i : Input) : Bytes :=
  if job.logFromPrevious then i.previousLog else i.currentLog

/-- `schedule_log_upload`. -/
def scheduleLogUpload (s : State) (job : UploadJob) (i : Input) : State × List Act :=
  match JsonScan.findLogUpload i.response.body with
  | none => (s, [])
  | some upload =>
    if job.logFromPrevious && s.worker.previousLogClaimed then (s, [])
    else
      let s := { s with worker :=
        { s.worker with previousLogClaimed := s.worker.previousLogClaimed || job.logFromPrevious } }
      if (readLog job i).isEmpty then (s, [])
      else (s, [.enqueue (logUploadJob upload (readLog job i))])

/-- `retry_or_give_up`. -/
def retryOrGiveUp (s : State) (job : UploadJob) (retryAfter : Option Nat) : State × List Act :=
  if job.attempt + 1 < Worker.maxAttempts then (s, [.enqueue (Worker.retried job s.now retryAfter)])
  else
    ({ s with settled := s.settled ++ carried job },
      if Worker.persistable job then [.persistLeftover job] else [])

/-- `handle_post_result`. -/
def handlePostResult (s : State) (job : UploadJob) (i : Input) : State × List Act :=
  match i.response.outcome with
  | .delivered =>
    let s := { s with sidecars := s.sidecars.remove job.sidecarPath, settled := s.settled ++ carried job }
    let log := if job.requestLog then scheduleLogUpload s job i else (s, [])
    (log.1, log.2 ++ if job.parseAck then [.ackRequests i.response.body] else [])
  | .poison =>
    ({ s with sidecars := s.sidecars.remove job.sidecarPath, settled := s.settled ++ carried job }, [])
  | .transient =>
    if job.durability = .ephemeral then (s, [])
    else retryOrGiveUp s job (retryAfterHint i.response.status i.response.retryAfter)

/-- `process`, from the response on. -/
def process (s : State) (job : UploadJob) (i : Input) : State × List Act :=
  if job.isLogUpload then
    if i.response.outcome = .transient ∧ job.attempt + 1 < Worker.maxAttempts then
      retryOrGiveUp s job (retryAfterHint i.response.status i.response.retryAfter)
    else (s, [])
  else
    let posted := handlePostResult s job i
    (posted.1, posted.2 ++ if s.rttEnabled && job.signBody && !job.suppressRtt &&
      i.response.outcome == .delivered then [.rttSample] else [])

/-- `start_session_tracking` and the synthetic report it may make. -/
def startSessionTracking (s : State) (i : Input) : Option (State × List Act) :=
  if s.sessionTrackingStarted || !s.uncleanDetectionEnabled || !s.storageAvailable then some (s, [])
  else
    let s := { s with sessionTrackingStarted := true }
    if !s.previousMarker then some (s, [])
    else
      let s := { s with previousMarker := false }
      if s.hasRestoredCrash then some (s, [])
      else if i.body.isEmpty then none
      else some ({ s with nextReport := s.nextReport + 1 },
        [.writeAhead (reportJob s .crash i.body i.wantLog true)])

/-- The worker's wait has ended: leave the loop, or take a job, after a paced log flush
where one is due. -/
def wakeUp (s : State) : State × List Act :=
  if !s.worker.running then ({ s with workerThread := false }, [])
  else
    let s := { s with worker := { s.worker with wakeRequested := false } }
    if s.worker.nextLogFlush ≤ s.now then
      ({ s with worker := { s.worker with nextLogFlush := s.now + Worker.logFlushInterval } },
        [.takeReadyJob])
    else takeReadyJob s

/-- `persist_leftovers`, up to the writes. -/
def persistLeftovers (s : State) : State × List Act :=
  ({ s with
      worker := { s.worker with queue := [] }
      leftover := s.leftover ++ s.worker.queue.flatMap carried },
    (s.worker.queue.filter Worker.persistable).map .persistLeftover)

/-- One action of a thread. -/
def perform (s : State) (a : Act) (i : Input) : Option (State × List Act) :=
  match a with
  | .track metric text =>
    some (s, if s.captureAllowed && i.keep then [.addItem metric text] else [])
  | .addItem metric text => some (addItem s metric text, [])
  | .reportCrash body wantLog =>
    if s.captureAllowed then
      some ({ s with nextReport := s.nextReport + 1 },
        [.flushAllBatches, .writeAhead (reportJob s .crash body.val wantLog false)])
    else some (s, [])
  | .reportBug body wantLog =>
    if s.captureAllowed then
      some ({ s with nextReport := s.nextReport + 1 },
        [.writeAhead (reportJob s .bugReport body.val wantLog false)])
    else some (s, [])
  | .writeAhead job =>
    if s.storageAvailable then
      -- the name is fresh: nothing below `pending/` has it
      if s.sidecars.inUse { kind := job.kind, name := i.name } || i.name.ext != lit ".json" then none
      else
        let written := writeSidecar s job i.name
        some (written.1, [.enqueue { job with sidecarPath := written.2 }])
    else some (s, [.enqueue job])
  | .enqueue job => some (enqueue s job, [])
  | .requestPlayerLogs body => some (s, [.enqueue (playerLogsJob s body)])
  | .setConsent granted =>
    some ({ s with consent := granted },
      if granted && s.initialized then [.startSessionTracking] else [])
  | .startSessionTracking => startSessionTracking s i
  | .startSession =>
    some ({ s with
      gate := s.gate.set.1
      worker := if s.gate.set.2 then s.worker.wake else s.worker }, [])
  | .flush => some (s, [.flushAllBatches, .workerFlush ⟨s.nextSerial, s.gate.opened⟩])
  | .flushAllBatches => some (s, drainBatches s true)
  | .maybeFlushBatch metric now force => some (maybeFlushBatch s metric i.stamp now force)
  | .workerFlush _ => if s.worker.drained || i.expired then some (s, []) else none
  | .startHeartbeat enabled => some ({ s with heartbeatThread := enabled }, [])
  | .trackIfConsented => some (s, if s.consent then [.startSessionTracking] else [])
  | .publish => some ({ s with published := true }, [])
  | .stopHeartbeat => some ({ s with heartbeatStop := true }, [])
  | .joinHeartbeat => if s.heartbeatThread then none else some (s, [])
  | .stopWorker =>
    if s.worker.running then
      some ({ s with worker := { s.worker with running := false } }, [.joinWorker])
    else some (s, [])
  | .joinWorker => if s.workerThread then none else some (persistLeftovers s)
  | .heartbeat =>
    if !s.heartbeatThread then none
    else if s.heartbeatStop then some ({ s with heartbeatThread := false }, [])
    else some (s, (if s.captureAllowed && s.gate.opened then [.enqueue (heartbeatJob s i.body)] else [])
      ++ [.heartbeat])
  | .loopTop => some (s, [.drainReadyBatches, .waitWake])
  | .drainReadyBatches => some (s, drainBatches s false)
  | .waitWake => some (s, [.waiting (s.worker.nextWakeup s.now)])
  | .waiting deadline =>
    if s.worker.wakes s.now || decide (deadline ≤ s.now) then some (wakeUp s) else none
  | .takeReadyJob => some (takeReadyJob s)
  | .post job => some (s, [.await job])
  | .await job =>
    let done := process s job i
    some (done.1, done.2 ++ [.clearInFlight])
  | .ackRequests body => some (s, (fulfilJobs s i.ident body).map .enqueue)
  | .rttSample => some (s, [.track true i.body])
  | .clearInFlight => some ({ s with worker := { s.worker with inFlight := false } }, [.loopTop])
  | .persistLeftover job =>
    if s.sidecars.inUse { kind := job.kind, name := i.name } || i.name.ext != lit ".json" then none
    else some ((writeSidecar s job i.name).1, [])

/-! ## Calls and the environment -/

/-- The host's entry points. -/
inductive Call where
  | track (metric : Bool) (text : Bytes)
  | reportCrash (body : ReportBody) (wantLog : Bool)
  | reportBug (body : ReportBody) (wantLog : Bool)
  | requestPlayerLogs (body : Bytes)
  | setConsent (granted : Bool)
  | startSession
  | flush

def Call.act : Call → Act
  | .track metric text => .track metric text
  | .reportCrash body wantLog => .reportCrash body wantLog
  | .reportBug body wantLog => .reportBug body wantLog
  | .requestPlayerLogs body => .requestPlayerLogs body
  | .setConsent granted => .setConsent granted
  | .startSession => .startSession
  | .flush => .flush

/-- A call enters while the client is published, on a thread of the host. -/
def call (s : State) (t : Nat) (k : Call) : Option (State × List Act) :=
  if s.published && decide (t ≠ 1 ∧ t ≠ 2) then some (s, [k.act]) else none

/-- The options of one `tombstone_init`, what the disk and the pre-init store hold for it,
and how many threads of the host may call. -/
structure Launch where
  endpoint : Bytes := []
  consentGranted : Bool := true
  autoStartSession : Bool := true
  enableHeartbeats : Bool := true
  enableRttMetric : Bool := true
  uncleanDetection : Bool := true
  storageAvailable : Bool := true
  previousMarker : Bool := false
  replayConsent : Option Bool := none
  replayTracks : List (Bool × Bytes) := []
  replayStart : Bool := false
  /-- The order the directories are iterated in. -/
  order : List SidecarRecord := []
  hostThreads : Nat := 1

/-- `drain_sidecars`. The directories are scanned before any other thread can reach them;
the jobs are enqueued one by one. -/
def drainSidecars (s : State) : List Act := s.sidecars.scan.map fun r => .enqueue (restoredJob s r)

/-- The rest of `Client::init`, then `replay_preinit` and the publishing. -/
def initCalls (o : Launch) : List Act :=
  [.startHeartbeat o.enableHeartbeats, .trackIfConsented] ++
    o.replayConsent.toList.map .setConsent ++ o.replayTracks.map (fun t => .track t.1 t.2) ++
    (if o.replayStart then [.startSession] else []) ++ [.publish]

/-- `tombstone_init` from `worker_->start()` on. -/
def initProgram (s : State) (o : Launch) : List Act := drainSidecars s ++ initCalls o

/-- The state a launch starts from: what is on disk, and the options. The proof-only
counts of the reports go on over launches, those of the items start anew. -/
def launched (s : State) (o : Launch) : State :=
  let sidecars := { configured := o.storageAvailable, files := o.order }
  { endpoint := o.endpoint, rttEnabled := o.enableRttMetric, storageAvailable := o.storageAvailable
    uncleanDetectionEnabled := o.uncleanDetection, initialized := true, consent := o.consentGranted
    gate := StartGate.arm {} o.autoStartSession, previousMarker := o.previousMarker
    workerThread := true, worker := Worker.start {} s.now
    sidecars, hasRestoredCrash := (SidecarQueue.scan sidecars).any fun r => r.path.kind == .crash
    now := s.now, nextReport := s.nextReport, written := s.written }

inductive Event where
  | tick (elapsed : Nat)
  /-- The process ends, however it does, and is launched again. -/
  | launch (o : Launch)
  /-- `tombstone_shutdown` takes the client out of `g_client`. -/
  | retire
  /-- The last reference is gone: `~Client` runs on this thread. -/
  | destroy (thread : Nat)

/-- `~Client`: its quit flush is the same two calls as `Client::flush`. -/
def destructor : List Act := [.stopHeartbeat, .joinHeartbeat, .flush, .stopWorker]

/-- No call of the host is in progress: every thread but the heartbeat's and the worker's
is idle. -/
def noCalls (threads : List (List Act)) : Bool :=
  match threads with
  | host :: _ :: _ :: hosts => host.isEmpty && hosts.all List.isEmpty
  | _ => false

def env (c : State × List (List Act)) : Event → Option (State × List (List Act))
  | .tick elapsed => some ({ c.1 with now := c.1.now + elapsed }, c.2)
  | .launch o =>
    if o.order.isPerm c.1.sidecars.files then
      some (launched c.1 o,
        initProgram (launched c.1 o) o :: [.heartbeat] :: [.loopTop] :: List.replicate o.hostThreads [])
    else none
  | .retire => some ({ c.1 with published := false }, c.2)
  | .destroy t =>
    if !c.1.published && c.1.initialized && !c.1.destroying && noCalls c.2 &&
        decide (t ≠ 1 ∧ t ≠ 2) && (c.2[t]?).any List.isEmpty then
      some ({ c.1 with destroying := true }, c.2.set t destructor)
    else none

def machine : Interleave.Machine State Act Input Call Event := { perform, call, env }

abbrev Config := Interleave.Config State Act
abbrev Label := Interleave.Label Input Call Event

def step : Config → Label → Option Config := Interleave.step machine

/-- Before the first launch: nothing is in memory; files of earlier runs may be on disk,
each as a write leaves it, and for a report of its own. -/
structure Fresh (c : Config) : Prop where
  threads : c.threads = []
  memory : c.shared = { sidecars := c.shared.sidecars, now := c.shared.now
                        nextReport := c.shared.nextReport, written := c.shared.written }
  files : ∀ r ∈ c.shared.sidecars.files, r.path.name.ext = lit ".json" ∧ r.body ≠ []
  paths : (c.shared.sidecars.files.map SidecarRecord.path).Nodup
  written : c.shared.written = c.shared.sidecars.files.map SidecarRecord.report
  distinct : c.shared.written.Nodup
  old : ∀ n ∈ c.shared.written, n < c.shared.nextReport

abbrev Reachable (c : Config) : Prop := Run.Reachable step Fresh c

/-- Nothing is on disk. -/
def noFiles : Config := ⟨{}, []⟩

theorem fresh_noFiles : Fresh noFiles :=
  ⟨rfl, rfl, by simp [noFiles], by simp [noFiles], rfl, by simp [noFiles], by simp [noFiles]⟩

def crashFile : SidecarRecord :=
  { path := { kind := .crash, name := { stem := lit "a" } }, body := lit "\x7b\x7d", report := 0 }

/-- One crash report is on disk. -/
def oneCrash : Config :=
  ⟨{ sidecars := { files := [crashFile] }, nextReport := 1, written := [0] }, []⟩

theorem fresh_oneCrash : Fresh oneCrash :=
  ⟨rfl, rfl, by decide, by decide, rfl, by decide, by decide⟩

end Tombstone.Runtime
