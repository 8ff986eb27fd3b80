import Tombstone.NativeDump
import Tombstone.Run
import Tombstone.Runtime

/- The launches of a game over one data directory (`client.cpp`, `session_marker.cpp`,
   `session_log.cpp`): what a process leaves on disk, and what the next one makes of it.

   Sessions are numbered in the order of their launches, which never overlap: a process is gone
   before the next one is launched. It ends by a clean shutdown or dies between any two of its
   steps, and the signal handler may leave a dump then. `init` is three steps: the files of the
   earlier launches are taken over, the sidecars are drained, and this session's marker is written
   together with the report of the last one and its sidecar. An answer and the removal of its file
   are one step too, and single file operations succeed. `UncleanOnce` puts such sessions into a
   system in which they may overlap, removals may fail, and a process may die between its marker
   and its report.

   The bodies of reports, the names of files and the server's responses come from the environment,
   which also chooses which job is attempted when, and when the queue's bound drops one.

   The fields called proof-only, and the session that each byte of a log is tagged with, are
   read by no operation. -/
namespace Tombstone.Launches

open Tombstone.Runtime (ReportBody reportJob restoredJob)

/-! ## On disk -/

/-- `SessionMarkerData`. -/
structure SessionMarkerData where
  sessionId : Bytes
  startedAtIso : Bytes := []
  buildVersion : Bytes := []
  os : Bytes := []
  arch : Bytes := []
  deriving DecidableEq, Repr

/-- What `SessionMarker::write` puts into `session.lock`. -/
def markerText (data : SessionMarkerData) : Bytes :=
  ((((((({} : JsonWriter).beginObject).stringField (lit "sessionId") data.sessionId).stringField
    (lit "startedAtIso") data.startedAtIso).stringField (lit "buildVersion")
    data.buildVersion).stringField (lit "os") data.os).stringField (lit "arch")
    data.arch).endObject.out

/-- `session.lock`. -/
structure MarkerFile where
  text : Bytes
  /-- The session that wrote it; proof-only. -/
  session : Nat
  deriving DecidableEq, Repr

/-- What `SessionMarker::take_previous` reads: no marker without a session id. -/
def MarkerFile.read (file : MarkerFile) : Option SessionMarkerData :=
  let field (key : String) := (JsonScan.findStringField file.text (lit key)).getD []
  if (field "sessionId").isEmpty then none
  else some
    { sessionId := field "sessionId"
      startedAtIso := field "startedAtIso"
      buildVersion := field "buildVersion"
      os := field "os"
      arch := field "arch" }

/-- A session log file: each byte with the session that wrote it. -/
abbrev LogFile := List (Nat × UInt8)

/-- A report: the session it was written in, the session it is about, and the dump it was
made of, if any. -/
structure ReportInfo where
  author : Nat
  subject : Nat
  dump : Option NativeDump.NativeCrashDump := none
  deriving DecidableEq

/-! ## A process -/

/-- The init options that bear on other launches (`tombstone_options`). -/
structure InitOptions where
  endpoint : Bytes := []
  enableSessionLog : Bool := true
  enableUncleanShutdownDetection : Bool := true
  enableNativeCrashHandler : Bool := false
  consentGranted : Bool := true
  deriving DecidableEq, Repr

/-- How far `Client::init` has come: storage is configured, the sidecars are drained, or it
has returned. -/
inductive Phase
  | configured
  | drained
  | ready
  deriving DecidableEq, Repr

structure Process where
  options : InitOptions
  /-- This session's id and build, as its marker names them. -/
  marker : SessionMarkerData
  phase : Phase := .configured
  consent : Bool
  sessionTrackingStarted : Bool := false
  /-- `previous_marker_`, with the session that wrote it. -/
  previousMarker : Option (SessionMarkerData × Nat) := none
  previousNativeDump : Option NativeDump.NativeCrashDump := none
  hadPreviousLog : Bool := false
  hasRestoredCrash : Bool := false
  worker : Worker := {}
  /-- Proof-only: the session whose marker was found, and the dump that was taken, at this
  launch; the sessions that wrote the restored crash sidecars; whether consent was granted at
  the end of `init` or since; and the reports made of the marker. -/
  foundMarker : Option Nat := none
  takenDump : Option NativeDump.NativeCrashDump := none
  restoredCrashes : List Nat := []
  consented : Bool := false
  synthetic : List ReportInfo := []
  deriving DecidableEq

/-- A session log handed to a granted slot: the session the report is about, and the bytes. -/
structure LogUpload where
  subject : Nat
  bytes : LogFile
  deriving DecidableEq, Repr

structure State where
  marker : Option MarkerFile := none
  /-- `native-crash.dump`. -/
  dump : Option Bytes := none
  sidecars : SidecarQueue := {}
  /-- `session.log` and `previous-session.log`. -/
  log : Option LogFile := none
  previousLog : Option LogFile := none
  process : Option Process := none
  /-- Proof-only: the number of launches so far, that is, the number of the current session;
  every report there was, by its number; and the logs that were uploaded. -/
  sessions : Nat := 0
  reports : List ReportInfo := []
  uploads : List LogUpload := []

/-! ## What the steps do -/

/-- `configure_storage`, and `install`, which truncates the dump. -/
def configure (s : State) (o : InitOptions) (marker : SessionMarkerData) : State :=
  let found := if o.enableUncleanShutdownDetection then
    s.marker.bind fun file => file.read.map fun data => (data, file.session) else none
  let taken := if o.enableNativeCrashHandler then s.dump.bind NativeDump.parseDump else none
  { s with
    marker := none
    dump := if o.enableNativeCrashHandler then some [] else s.dump
    sidecars := { s.sidecars with configured := true }
    -- `rotate_for_new_session`
    log := if o.enableSessionLog then none else s.log
    previousLog := if o.enableSessionLog then s.log else s.previousLog
    process := some
      { options := o, marker, consent := o.consentGranted
        previousMarker := found
        previousNativeDump := taken
        hadPreviousLog := o.enableSessionLog && s.log.isSome
        foundMarker := found.map Prod.snd
        takenDump := taken }
    sessions := s.sessions + 1 }

/-- The session that wrote a report. -/
def State.authorOf (s : State) (report : Nat) : Nat :=
  ((s.reports[report]?).map ReportInfo.author).getD 0

/-- The session that a report is about. -/
def State.subjectOf (s : State) (report : Nat) : Nat :=
  ((s.reports[report]?).map ReportInfo.subject).getD 0

/-- `drain_sidecars`. -/
def drainSidecars (s : State) (p : Process) : State :=
  let records := s.sidecars.scan
  -- one restored crash is enough for the synthetic report to be left out
  let crashes := records.filter fun r => r.path.kind == .crash
  let p := { p with
    phase := .drained
    hasRestoredCrash := !crashes.isEmpty
    worker := records.foldl
      (fun w r => w.enqueue (restoredJob { endpoint := p.options.endpoint } r)) p.worker
    restoredCrashes := crashes.map fun r => s.authorOf r.report }
  { s with process := some p }

/-- `enqueue_ingest` for a crash or bug report, which is written ahead. -/
def enqueueIngest (s : State) (p : Process) (kind : SidecarKind) (body : ReportBody)
    (requestLog logFromPrevious : Bool) (info : ReportInfo) (name : FileName) : State :=
  let job := reportJob { endpoint := p.options.endpoint, nextReport := s.reports.length } kind
    body.val requestLog logFromPrevious
  let written := s.sidecars.write kind body.val s.reports.length name
  { s with
    sidecars := written.1
    process := some { p with worker := p.worker.enqueue { job with sidecarPath := written.2 } }
    reports := s.reports ++ [info] }

/-- `report_unclean_shutdown`: nothing where a crash was restored, a report of the native
dump where there is one, and else the synthetic report. -/
def reportUncleanShutdown (s : State) (p : Process) (previous : Nat) (body : ReportBody)
    (name : FileName) : State :=
  if p.hasRestoredCrash then { s with process := some { p with previousNativeDump := none } }
  else
    let info : ReportInfo :=
      { author := s.sessions, subject := previous, dump := p.previousNativeDump }
    let p := { p with previousNativeDump := none, synthetic := p.synthetic ++ [info] }
    let log := p.options.enableSessionLog && p.hadPreviousLog
    enqueueIngest s p .crash body log true info name

/-- `start_session_tracking`. -/
def startSessionTracking (s : State) (p : Process) (body : ReportBody) (name : FileName) : State :=
  if p.sessionTrackingStarted || !p.options.enableUncleanShutdownDetection then
    { s with process := some p }
  else
    let p := { p with sessionTrackingStarted := true }
    -- the marker of this session goes to disk before the previous one is reported
    let s := { s with marker := some { text := markerText p.marker, session := s.sessions } }
    match p.previousMarker with
    | none => { s with process := some p }
    | some (_, previous) =>
      reportUncleanShutdown s { p with previousMarker := none } previous body name

/-- The end of `init`: tracking starts where consent was given. -/
def finishInit (s : State) (p : Process) (body : ReportBody) (name : FileName) : State :=
  let p := { p with phase := .ready, consented := p.consent }
  if p.consent then startSessionTracking s p body name else { s with process := some p }

/-- `set_consent`. -/
def setConsent (s : State) (p : Process) (granted : Bool) (body : ReportBody) (name : FileName) :
    State :=
  let p := { p with consent := granted, consented := p.consented || granted }
  if granted then startSessionTracking s p body name else { s with process := some p }

/-- The log that a granted slot is filled with: `read_previous` or `read_current`, where the
session log is configured. -/
def readLog (s : State) (p : Process) (fromPrevious : Bool) : LogFile :=
  if !p.options.enableSessionLog then []
  else (if fromPrevious then s.previousLog else s.log).getD []

/-- `schedule_log_upload`. What becomes of the upload is left open: it is never persisted. -/
def scheduleLogUpload (s : State) (p : Process) (job : UploadJob) (response : HttpResponse) :
    State :=
  if (JsonScan.findLogUpload response.body).isNone
      || (job.logFromPrevious && p.worker.previousLogClaimed) then { s with process := some p }
  else
    -- the kept log is claimed even where it turns out to be empty
    let claimed := p.worker.previousLogClaimed || job.logFromPrevious
    let p := { p with worker := { p.worker with previousLogClaimed := claimed } }
    let bytes := readLog s p job.logFromPrevious
    if bytes.isEmpty then { s with process := some p }
    else
      let subject := s.subjectOf (job.origin.number.getD 0)
      { s with process := some p, uploads := s.uploads ++ [{ subject, bytes }] }

/-- `handle_post_result` for a report that the worker took from its queue. -/
def handlePostResult (s : State) (p : Process) (job : UploadJob) (response : HttpResponse)
    (name : FileName) : State :=
  match response.outcome with
  | .delivered =>
    let s := { s with sidecars := s.sidecars.remove job.sidecarPath }
    if job.requestLog then scheduleLogUpload s p job response else { s with process := some p }
  | .poison => { s with sidecars := s.sidecars.remove job.sidecarPath, process := some p }
  | .transient =>
    if job.attempt + 1 < Worker.maxAttempts then
      let retried := { job with attempt := job.attempt + 1 }
      { s with process := some { p with worker := p.worker.enqueue retried } }
    -- the last attempt leaves a record for the next launch
    else if Worker.persistable job then
      let report := job.origin.number.getD 0
      { s with sidecars := (s.sidecars.write job.kind job.body report name).1, process := some p }
    else { s with process := some p }

/-- `take_ready_job`, the job apart: whichever is due. -/
def Process.take (p : Process) (i : Nat) : Process :=
  { p with worker := { p.worker with queue := p.worker.queue.eraseIdx i } }

/-- `persist_leftovers`. -/
def persistLeftovers (q : SidecarQueue) (jobs : List UploadJob) (names : List FileName) :
    SidecarQueue :=
  ((jobs.filter Worker.persistable).zip names).foldl
    (fun q (job, name) => (q.write job.kind job.body (job.origin.number.getD 0) name).1) q

theorem emptyObject_ne_nil : lit "\x7b\x7d" ≠ [] := by decide

inductive Label where
  /-- `tombstone_init`, up to the drain: its options, and what its marker will say. -/
  | launch (o : InitOptions) (marker : SessionMarkerData)
  | drain
  | finishInit (body : ReportBody) (name : FileName)
  | setConsent (granted : Bool) (body : ReportBody) (name : FileName)
  /-- A crash or bug report of the host's. -/
  | report (bug : Bool) (body : ReportBody) (attachLog : Bool) (name : FileName)
  /-- A chunk of the session log reaches the file. -/
  | writeLog (text : Bytes)
  /-- The log is trimmed from the front. -/
  | trimLog (n : Nat)
  /-- The `i`-th queued report is posted and gets this response. -/
  | respond (i : Nat) (response : HttpResponse) (name : FileName)
  /-- The queue's bound drops its oldest job. -/
  | dropOldest
  /-- `tombstone_shutdown`. -/
  | shutdown (names : List FileName)
  /-- The process dies, with what the signal handler wrote. -/
  | die (dump : Option Bytes)
  deriving DecidableEq

/-- What a running process does. -/
def stepProcess (s : State) (p : Process) : Label → Option State
  | .launch _ _ => none
  | .drain => if p.phase = .configured then some (drainSidecars s p) else none
  | .finishInit body name =>
    if p.phase = .drained then some (finishInit s p body name) else none
  | .setConsent granted body name =>
    if p.phase = .ready then some (setConsent s p granted body name) else none
  | .report bug body attachLog name =>
    if p.phase = .ready ∧ p.consent = true then
      some (enqueueIngest s p (if bug then .bugReport else .crash) body
        (attachLog && p.options.enableSessionLog) false
        { author := s.sessions, subject := s.sessions } name)
    else none
  | .writeLog text =>
    if p.phase = .ready ∧ p.options.enableSessionLog = true ∧ text ≠ [] then
      some { s with log := some (s.log.getD [] ++ text.map fun b => (s.sessions, b)) }
    else none
  | .trimLog n =>
    if p.phase = .ready ∧ p.options.enableSessionLog = true then
      some { s with log := s.log.map (·.drop n) }
    else none
  | .respond i response name =>
    p.worker.queue[i]?.map fun job => handlePostResult s (p.take i) job response name
  | .dropOldest =>
    let p := { p with worker := { p.worker with queue := p.worker.queue.drop 1 } }
    some { s with process := some p }
  | .shutdown names =>
    if p.phase = .ready then
      -- what is still queued is persisted, and the marker goes
      some { s with
        marker := none
        sidecars := persistLeftovers s.sidecars p.worker.queue names
        process := none }
    else none
  | .die dump =>
    some { s with
      dump := if p.options.enableNativeCrashHandler then dump.or s.dump else s.dump
      process := none }

def step (s : State) (l : Label) : Option State :=
  match s.process with
  | some p => stepProcess s p l
  | none =>
    match l with
    | .launch o marker => some (configure s o marker)
    | _ => none

/-! ## What a step does to the process -/

/-- `start_session_tracking` as the process sees it, its job apart. -/
def Process.track (p : Process) (session : Nat) : Process :=
  if p.sessionTrackingStarted || !p.options.enableUncleanShutdownDetection then p
  else match p.previousMarker with
    | none => { p with sessionTrackingStarted := true }
    | some (_, previous) =>
      { p with
        sessionTrackingStarted := true
        previousMarker := none
        previousNativeDump := none
        synthetic := if p.hasRestoredCrash then p.synthetic
          else p.synthetic ++ [⟨session, previous, p.previousNativeDump⟩] }

theorem startSessionTracking_process (s : State) (p : Process) (body : ReportBody)
    (name : FileName) :
    ∃ w, (startSessionTracking s p body name).process
      = some { p.track s.sessions with worker := w } := by
  unfold startSessionTracking Process.track
  by_cases hoff : (p.sessionTrackingStarted || !p.options.enableUncleanShutdownDetection) = true
  · rw [if_pos hoff, if_pos hoff]
    exact ⟨p.worker, rfl⟩
  · rw [if_neg hoff, if_neg hoff]
    obtain ⟨options, marker, phase, consent, started, previousMarker, dump, _, restored, w⟩ := p
    rcases previousMarker with _ | ⟨data, previous⟩
    · exact ⟨w, rfl⟩
    · cases restored with
      | true => exact ⟨w, rfl⟩
      | false => exact ⟨_, rfl⟩

/-- The process at the end of `init`. -/
def Process.begun (p : Process) (session : Nat) : Process :=
  let p := { p with phase := .ready, consented := p.consent }
  if p.consent then p.track session else p

/-- The process after `set_consent`. -/
def Process.consenting (p : Process) (session : Nat) (granted : Bool) : Process :=
  let p := { p with consent := granted, consented := p.consented || granted }
  if granted then p.track session else p

theorem finishInit_process (s : State) (p : Process) (body : ReportBody) (name : FileName) :
    ∃ w, (finishInit s p body name).process = some { p.begun s.sessions with worker := w } := by
  unfold finishInit Process.begun
  cases hc : p.consent with
  | true => exact startSessionTracking_process s _ body name
  | false => exact ⟨p.worker, rfl⟩

theorem setConsent_process (s : State) (p : Process) (granted : Bool) (body : ReportBody)
    (name : FileName) :
    ∃ w, (setConsent s p granted body name).process
      = some { p.consenting s.sessions granted with worker := w } := by
  unfold setConsent Process.consenting
  cases granted with
  | true => exact startSessionTracking_process s _ body name
  | false => exact ⟨p.worker, rfl⟩

theorem handlePostResult_process (s : State) (p : Process) (job : UploadJob)
    (response : HttpResponse) (name : FileName) :
    ∃ w, (handlePostResult s p job response name).process = some { p with worker := w } := by
  unfold handlePostResult scheduleLogUpload
  split
  · dsimp only
    split_ifs <;> exact ⟨_, rfl⟩
  · exact ⟨_, rfl⟩
  · split_ifs <;> exact ⟨_, rfl⟩

/-- The labels that leave what a process knows as it is. -/
def Label.plain : Label → Prop
  | .drain | .finishInit _ _ | .setConsent _ _ _ => False
  | _ => True

/-- **What a step of a running process can do to it**: end `init`, drain, change consent, or
nothing but end it or change its worker. -/
theorem stepProcess_process {s s' : State} {p : Process} {l : Label} (hp : s.process = some p)
    (h : stepProcess s p l = some s') :
    (∃ body name w, l = .finishInit body name ∧ p.phase = .drained ∧
      s'.process = some { p.begun s.sessions with worker := w }) ∨
    (l = .drain ∧ p.phase = .configured ∧ s' = drainSidecars s p) ∨
    (∃ granted body name w, l = .setConsent granted body name ∧ p.phase = .ready ∧
      s'.process = some { p.consenting s.sessions granted with worker := w }) ∨
    (l.plain ∧ ∀ p' ∈ s'.process, ∃ w, p' = { p with worker := w }) := by
  have hkept : ∀ {w : Worker}, s'.process = some { p with worker := w } →
      ∀ p' ∈ s'.process, ∃ w, p' = { p with worker := w } := by
    intro w hw p' hp'
    rw [hw] at hp'
    exact ⟨w, (Option.some.inj hp').symm⟩
  have hended : s'.process = none → ∀ p' ∈ s'.process, ∃ w, p' = { p with worker := w } := by
    intro hnone p' hp'
    rw [hnone] at hp'
    cases hp'
  cases l with
  | launch o marker => cases h
  | drain =>
    obtain ⟨hphase, h⟩ := Option.ite_none_right_eq_some.1 h
    exact .inr (.inl ⟨rfl, hphase, (Option.some.inj h).symm⟩)
  | finishInit body name =>
    obtain ⟨hphase, h⟩ := Option.ite_none_right_eq_some.1 h
    obtain ⟨w, hw⟩ := finishInit_process s p body name
    exact .inl ⟨body, name, w, rfl, hphase, Option.some.inj h ▸ hw⟩
  | setConsent granted body name =>
    obtain ⟨hphase, h⟩ := Option.ite_none_right_eq_some.1 h
    obtain ⟨w, hw⟩ := setConsent_process s p granted body name
    exact .inr (.inr (.inl ⟨granted, body, name, w, rfl, hphase, Option.some.inj h ▸ hw⟩))
  | report bug body attachLog name =>
    obtain ⟨-, h⟩ := Option.ite_none_right_eq_some.1 h
    obtain rfl := Option.some.inj h
    exact .inr (.inr (.inr ⟨trivial, hkept rfl⟩))
  | writeLog text =>
    obtain ⟨-, h⟩ := Option.ite_none_right_eq_some.1 h
    obtain rfl := Option.some.inj h
    exact .inr (.inr (.inr ⟨trivial, hkept hp⟩))
  | trimLog n =>
    obtain ⟨-, h⟩ := Option.ite_none_right_eq_some.1 h
    obtain rfl := Option.some.inj h
    exact .inr (.inr (.inr ⟨trivial, hkept hp⟩))
  | respond i response name =>
    obtain ⟨job, -, rfl⟩ := Option.map_eq_some_iff.1 h
    obtain ⟨w, hw⟩ := handlePostResult_process s (p.take i) job response name
    exact .inr (.inr (.inr ⟨trivial, hkept hw⟩))
  | dropOldest =>
    obtain rfl := Option.some.inj h
    exact .inr (.inr (.inr ⟨trivial, hkept rfl⟩))
  | shutdown names =>
    obtain ⟨-, h⟩ := Option.ite_none_right_eq_some.1 h
    obtain rfl := Option.some.inj h
    exact .inr (.inr (.inr ⟨trivial, hended rfl⟩))
  | die dump =>
    obtain rfl := Option.some.inj h
    exact .inr (.inr (.inr ⟨trivial, hended rfl⟩))

/-- A step without a process is a launch. -/
theorem step_launch {s s' : State} {l : Label} (hp : s.process = none)
    (h : step s l = some s') : ∃ o marker, l = .launch o marker ∧ s' = configure s o marker := by
  unfold step at h
  simp only [hp] at h
  cases l with
  | launch o marker => exact ⟨o, marker, rfl, (Option.some.inj h).symm⟩
  | _ => cases h

theorem step_running {s s' : State} {p : Process} {l : Label} (hp : s.process = some p)
    (h : step s l = some s') : stepProcess s p l = some s' := by
  unfold step at h
  simpa only [hp] using h

/-! ## Where a process stands -/

/-- What is left of the launch's findings until consent is given, and what the flags say of
how far tracking has come. -/
structure Process.Tracked (p : Process) : Prop where
  unready : p.phase ≠ .ready → p.consented = false ∧ p.consent = p.options.consentGranted
  waiting : p.consented = false → p.sessionTrackingStarted = false ∧
    p.previousMarker.map Prod.snd = p.foundMarker ∧ p.previousNativeDump = p.takenDump ∧
    p.synthetic = []
  done : p.consented = true → p.sessionTrackingStarted = true ∨
    p.options.enableUncleanShutdownDetection = false
  restored : p.phase ≠ .configured → p.hasRestoredCrash = !p.restoredCrashes.isEmpty

theorem Process.Tracked.worker {p : Process} (h : p.Tracked) (w : Worker) :
    ({ p with worker := w } : Process).Tracked := ⟨h.unready, h.waiting, h.done, h.restored⟩

/-- Tracking keeps the launch's findings. -/
theorem Process.track_kept (p : Process) (session : Nat) :
    (p.track session).options = p.options ∧ (p.track session).phase = p.phase ∧
    (p.track session).consented = p.consented ∧ (p.track session).foundMarker = p.foundMarker ∧
    (p.track session).takenDump = p.takenDump ∧
    (p.track session).restoredCrashes = p.restoredCrashes ∧
    (p.track session).hasRestoredCrash = p.hasRestoredCrash := by
  unfold Process.track
  split
  · exact ⟨rfl, rfl, rfl, rfl, rfl, rfl, rfl⟩
  · split <;> exact ⟨rfl, rfl, rfl, rfl, rfl, rfl, rfl⟩

/-- Tracking starts once; reports made of a marker stay made. -/
theorem Process.track_synthetic (p : Process) (session : Nat) :
    p.synthetic ⊆ (p.track session).synthetic := by
  unfold Process.track
  split
  · exact List.Subset.refl _
  · split
    · exact List.Subset.refl _
    · cases p.hasRestoredCrash with
      | true => exact List.Subset.refl _
      | false => exact List.subset_append_left _ _

/-- What tracking makes of a marker, once. -/
theorem Process.track_found {p : Process} (hstarted : p.sessionTrackingStarted = false)
    (hon : p.options.enableUncleanShutdownDetection = true) {data : SessionMarkerData}
    {previous : Nat} (hfound : p.previousMarker = some (data, previous)) (session : Nat) :
    (p.track session).synthetic = if p.hasRestoredCrash then p.synthetic
      else p.synthetic ++ [⟨session, previous, p.previousNativeDump⟩] := by
  rw [Process.track, hstarted, hon, hfound]
  rfl

/-- Nothing is made where there is no marker, or no detection. -/
theorem Process.track_clean {p : Process}
    (h : p.options.enableUncleanShutdownDetection = false ∨ p.previousMarker = none)
    (session : Nat) : (p.track session).synthetic = p.synthetic := by
  unfold Process.track
  rcases h with hoff | hnone
  · rw [hoff, Bool.not_false, Bool.or_true, if_pos rfl]
  · rw [hnone]
    split <;> rfl

theorem Process.begun_phase (p : Process) (session : Nat) : (p.begun session).phase = .ready := by
  unfold Process.begun
  cases hc : p.consent with
  | true => exact (Process.track_kept _ session).2.1
  | false => rfl

/-- With consent, the end of `init` is where tracking starts. -/
theorem Process.begun_consented {p : Process} (hc : p.consent = true) (session : Nat) :
    p.begun session = Process.track { p with phase := .ready, consented := true } session := by
  unfold Process.begun
  simp only [hc, if_true]

/-- What a launch found stays what it was, until the process ends. -/
structure Process.SameFindings (p p' : Process) : Prop where
  options : p'.options = p.options
  found : p'.foundMarker = p.foundMarker
  taken : p'.takenDump = p.takenDump
  restored : p'.restoredCrashes = p.restoredCrashes
  flag : p'.hasRestoredCrash = p.hasRestoredCrash

theorem Process.begun_same (p : Process) (session : Nat) (w : Worker) :
    p.SameFindings { p.begun session with worker := w } := by
  unfold Process.begun
  cases hc : p.consent with
  | true =>
    obtain ⟨h₁, -, -, h₂, h₃, h₄, h₅⟩ := Process.track_kept
      { p with phase := .ready, consent := true, consented := true } session
    exact ⟨h₁, h₂, h₃, h₄, h₅⟩
  | false => exact ⟨rfl, rfl, rfl, rfl, rfl⟩

theorem Process.consenting_same (p : Process) (session : Nat) (granted : Bool) (w : Worker) :
    p.SameFindings { p.consenting session granted with worker := w } := by
  unfold Process.consenting
  cases granted with
  | true =>
    obtain ⟨h₁, -, -, h₂, h₃, h₄, h₅⟩ := Process.track_kept
      { p with consent := true, consented := p.consented || true } session
    exact ⟨h₁, h₂, h₃, h₄, h₅⟩
  | false => exact ⟨rfl, rfl, rfl, rfl, rfl⟩

theorem step_options {s s' : State} {p p' : Process} {l : Label} (hp : s.process = some p)
    (h : step s l = some s') (hp' : p' ∈ s'.process) : p'.options = p.options := by
  rcases stepProcess_process hp (step_running hp h) with
    ⟨_, _, w, -, -, hnew⟩ | ⟨-, -, rfl⟩ | ⟨granted, _, _, w, -, -, hnew⟩ | ⟨-, hkept⟩
  · rw [hnew] at hp'
    obtain rfl := Option.some.inj hp'
    exact (p.begun_same s.sessions w).options
  · obtain rfl := Option.some.inj hp'
    rfl
  · rw [hnew] at hp'
    obtain rfl := Option.some.inj hp'
    exact (p.consenting_same s.sessions granted w).options
  · obtain ⟨w, rfl⟩ := hkept p' hp'
    rfl

theorem Process.track_done (p : Process) (session : Nat) :
    (p.track session).sessionTrackingStarted = true ∨
      (p.track session).options.enableUncleanShutdownDetection = false := by
  unfold Process.track
  split
  · rename_i h
    simpa using h
  · split <;> exact .inl rfl

/-- Tracking, once consent is given in a process that is ready. -/
theorem Process.track_tracked {p : Process} (hphase : p.phase = .ready)
    (hconsented : p.consented = true) (hrestored : p.hasRestoredCrash = !p.restoredCrashes.isEmpty)
    (session : Nat) : (p.track session).Tracked := by
  obtain ⟨-, hphase', hconsented', -, -, hrestored', hflag'⟩ := p.track_kept session
  refine ⟨fun h => ?_, fun h => ?_, fun _ => p.track_done session, fun _ => ?_⟩
  · exact absurd (hphase'.trans hphase) h
  · rw [hconsented', hconsented] at h
    cases h
  · rw [hflag', hrestored', hrestored]

theorem Process.Tracked.begun {p : Process} (h : p.Tracked) (hphase : p.phase = .drained)
    (session : Nat) : (p.begun session).Tracked := by
  have hrestored := h.restored (by rw [hphase]; decide)
  have hunready := h.unready (by rw [hphase]; decide)
  unfold Process.begun
  cases hc : p.consent with
  | true =>
    exact track_tracked (p := { p with phase := .ready, consent := true, consented := true }) rfl
      rfl hrestored session
  | false => exact ⟨fun hr => absurd rfl hr, fun _ => h.waiting hunready.1, nofun, fun _ => hrestored⟩

theorem Process.Tracked.consenting {p : Process} (h : p.Tracked) (hphase : p.phase = .ready)
    (session : Nat) (granted : Bool) : (p.consenting session granted).Tracked := by
  have hrestored := h.restored (by rw [hphase]; decide)
  unfold Process.consenting
  cases granted with
  | true =>
    exact track_tracked (p := { p with consent := true, consented := p.consented || true }) hphase
      (Bool.or_true _) hrestored session
  | false =>
    refine ⟨fun hr => absurd hphase hr, fun hc => ?_, fun hc => ?_, fun _ => hrestored⟩
    · exact h.waiting (by simpa using hc)
    · exact h.done (by simpa using hc)

/-- Every process stands where its steps can have brought it. -/
def Tracked (s : State) : Prop := ∀ p ∈ s.process, p.Tracked

theorem tracked_step {s s' : State} {l : Label} (hs : Tracked s) (h : step s l = some s') :
    Tracked s' := by
  intro p' hp'
  cases hp : s.process with
  | none =>
    obtain ⟨o, marker, -, rfl⟩ := step_launch hp h
    obtain rfl := Option.some.inj hp'
    exact ⟨fun _ => ⟨rfl, rfl⟩, fun _ => ⟨rfl, rfl, rfl, rfl⟩, nofun, fun hc => absurd rfl hc⟩
  | some p =>
    have htracked := hs p hp
    rcases stepProcess_process hp (step_running hp h) with
      ⟨_, _, w, -, hphase, hnew⟩ | ⟨-, hphase, rfl⟩ | ⟨granted, _, _, w, -, hphase, hnew⟩ |
      ⟨-, hkept⟩
    · rw [hnew] at hp'
      obtain rfl := Option.some.inj hp'
      exact (htracked.begun hphase s.sessions).worker w
    · obtain rfl := Option.some.inj hp'
      have hunready := htracked.unready (by rw [hphase]; decide)
      exact ⟨fun _ => hunready, htracked.waiting, htracked.done, fun _ => by simp⟩
    · rw [hnew] at hp'
      obtain rfl := Option.some.inj hp'
      exact (htracked.consenting hphase s.sessions granted).worker w
    · obtain ⟨w, rfl⟩ := hkept p' hp'
      exact htracked.worker w

end Tombstone.Launches
