import Tombstone.Captures
import Tombstone.DeviceIdentity
import Tombstone.FilledBodies
import Tombstone.Launches
import Tombstone.NativeReport
import Tombstone.RevokedTrail

/- Every body that a client builds (`client.cpp`, `client_reports.cpp`, `tombstone_api.cpp`).

   A client goes through calls of the host, beats, and the acks of beats, one after the other
   (`perform`). It keeps every body that it builds, those of events and metrics with what it has
   tracked: an envelope only adds a stamp to the bodies in it. A run starts with `tombstone_init`,
   which may report the previous launch, and with the calls that were buffered before (`run`). -/
namespace Tombstone.FilledRuns
open CaptureClient RevokedTrail NativeReport
open Launches (SessionMarkerData)
open NativeDump (NativeCrashDump)

/-! ## A client -/

/-- The frame statistics of an interval (`FrameAccumulator::consume`, which clamps them). -/
structure Frames where
  fpsAvg : Double
  slowFramePct : Double
  hitchCount : Int
  worstFrameMs : Int
  fpsAvg_finite : fpsAvg.isFinite = true
  slowFramePct_finite : slowFramePct.isFinite = true

/-- What the environment supplies to a step. -/
structure Input where
  /-- `now_iso8601_utc_ms`, and the steady clock. -/
  stamp : Bytes := []
  now : Nat := 0
  roll : Double → Bool := fun _ => true
  /-- `random_session_id`. -/
  matchId : Bytes := List.replicate 32 (ch '0')
  matchId_length : matchId.length = 32 := by rfl
  frames : Option Frames := none

/-- What the calls, the heartbeats and their acks read and write. -/
structure State where
  captures : CaptureClient
  identity : Session.Identity
  metadata : Session.Metadata := {}
  context : Session.Context
  device : Session.Device := {}
  gate : StartGate
  dedupe : DedupeWindow := {}
  sessionLogEnabled : Bool
  storageAvailable : Bool
  uncleanDetectionEnabled : Bool
  sessionTrackingStarted : Bool := false
  previousMarker : Option SessionMarkerData
  previousNativeDump : Option NativeCrashDump
  hasRestoredCrash : Bool
  hadPreviousLog : Bool
  /-- Proof-only: the bodies that were built, but for those that are put in a batch. -/
  bodies : List Bytes := []

/-- One call of the host, one beat, or the ack of one. -/
inductive Call
  | setConsent (granted : Bool)
  | startSession
  | setUser (userId steamId : CString)
  | setUserMetadata (entries : Option (List (CString × CString)))
  | setEnvironment (environment : CString)
  | setServerInfo (region hostname : CString)
  | markDedicatedServer (serverId region hostname : CString)
  | setMatchContext (serverId matchId : CString)
  | startMatch (outCap : Nat)
  | endMatch
  | setDevice (device : Option DeviceSpecs)
  | setSampleRates (sampler : Sampler)
  | capture (call : CaptureCall)
  | logLine (level : Int) (line : CString)
  | setLevel (name : CString)
  | reportCrash (signature stackHint stackTrace : CString) (attachLog : Bool)
  | reportBug (category message : CString) (attachLog : Bool)
  | requestPlayerLogs (targetType targetValue reason : CString)
  | heartbeat
  | ack (body : Bytes)

variable (printed : Double → Bytes)

namespace State

variable (s : State) (i : Input)

/-- What a capture reads of the rest of the client. -/
def captureInput : CaptureInput :=
  { stamp := i.stamp, now := i.now, roll := i.roll, printed, userId := s.identity.effective, role := s.context.role
    serverId := s.context.serverId, matchId := s.context.matchId, environment := s.context.environment }

/-- `record_breadcrumb`. -/
def record (level message : Bytes) : State :=
  { s with captures := { s.captures with breadcrumbs := s.captures.breadcrumbs.add level message i.stamp 0 } }

def enqueue (body : Bytes) : State := { s with bodies := s.bodies ++ [body] }

/-- What the reports of the previous launch have in common. -/
def previousPayload (previous : SessionMarkerData) (signature stackHint : Bytes) : CrashPayload :=
  { occurredAtIso := i.stamp
    buildVersion := if previous.buildVersion.isEmpty then s.captures.buildVersion else previous.buildVersion
    os := if previous.os.isEmpty then s.captures.os else previous.os
    arch := if previous.arch.isEmpty then s.captures.arch else previous.arch
    signature, stackHint
    userId := s.identity.effective
    steamId := s.identity.steamId
    environment := s.context.environment
    device := s.device.device
    log := s.sessionLogEnabled && s.hadPreviousLog }

/-- `report_native_crash`. -/
def nativePayload (previous : SessionMarkerData) (dump : NativeCrashDump) : CrashPayload :=
  let native := reportNativeCrash dump
  { s.previousPayload i previous native.signature native.stackHint with
    stackTrace := native.stackTrace, crashType := native.crashType, osSignal := native.osSignal.toInt }

/-- The constants of `client.cpp`. -/
def uncleanPayload (previous : SessionMarkerData) : CrashPayload :=
  s.previousPayload i previous (lit "unclean-shutdown")
    (lit "Previous session ended without a clean shutdown (hard crash, OOM kill, or force quit)")

/-- `report_unclean_shutdown`. -/
def reportUncleanShutdown (previous : SessionMarkerData) : State :=
  if s.hasRestoredCrash then { s with previousNativeDump := none }
  else match s.previousNativeDump with
    | some dump =>
      { s with previousNativeDump := none }.enqueue (buildCrashJson printed (s.nativePayload i previous dump))
    | none => s.enqueue (buildCrashJson printed (s.uncleanPayload i previous))

/-- `start_session_tracking`. -/
def startSessionTracking : State :=
  if s.sessionTrackingStarted || !s.uncleanDetectionEnabled || !s.storageAvailable then s
  else match s.previousMarker with
    | none => { s with sessionTrackingStarted := true }
    | some previous =>
      { s with sessionTrackingStarted := true, previousMarker := none }.reportUncleanShutdown printed i previous

/-- The payload of `report_crash`. -/
def crashPayload (signature hint trace : Bytes) (wantLog : Bool) : CrashPayload :=
  { occurredAtIso := i.stamp, buildVersion := s.captures.buildVersion, os := s.captures.os, arch := s.captures.arch
    signature, stackHint := hint, stackTrace := trace, breadcrumbs := s.captures.breadcrumbs.snapshot
    userId := s.identity.effective, priorUserId := s.identity.pendingPriorUserId, steamId := s.identity.steamId
    log := wantLog, role := s.context.role, serverId := s.context.serverId, matchId := s.context.matchId
    sessionId := s.captures.sessionId, environment := s.context.environment, device := s.device.device }

/-- `report_crash`. -/
def reportCrash (signature stackHint stackTrace : CString) (attachLog : Bool) : State :=
  if !s.captures.captureAllowed then s
  else
    let hint := crashHint stackHint
    let trace := stackTrace.getD []
    let effective := if CString.blank signature then Signature.computeCrashSignature hint trace else signature.getD []
    let decision := (s.dedupe.check effective i.now).1
    let s := { s with dedupe := (s.dedupe.check effective i.now).2 }
    if !decision.allowed then s.record i (lit "Error") (suppressedMessage decision.suppressedCount hint)
    else
      let wantLog := attachLog && s.sessionLogEnabled && s.storageAvailable
      s.enqueue (buildCrashJson printed (s.crashPayload i effective hint trace wantLog))

/-- The payload of `report_bug`. -/
def bugPayload (category message : Bytes) (wantLog : Bool) : BugReportPayload :=
  { occurredAtIso := i.stamp, buildVersion := s.captures.buildVersion, os := s.captures.os, arch := s.captures.arch
    category, message, userId := s.identity.effective, priorUserId := s.identity.pendingPriorUserId
    steamId := s.identity.steamId, breadcrumbs := s.captures.breadcrumbs.snapshot, log := wantLog
    role := s.context.role, serverId := s.context.serverId, matchId := s.context.matchId
    sessionId := s.captures.sessionId, environment := s.context.environment, device := s.device.device }

/-- `report_bug`. -/
def reportBug (category message : CString) (attachLog : Bool) : State :=
  if CString.blank message || !s.captures.captureAllowed then s
  else
    let wantLog := attachLog && s.sessionLogEnabled && s.storageAvailable
    s.enqueue (buildBugReportJson printed (s.bugPayload i (category.getD []) (message.getD []) wantLog))

/-- Whether the beat carries the device. -/
def carriesDevice : Bool := !s.device.sentOnHeartbeat && deviceHasContent s.device.device

/-- The payload of a beat. -/
def beatPayload : HeartbeatPayload :=
  { sessionId := s.captures.sessionId, occurredAtIso := i.stamp, buildVersion := s.captures.buildVersion
    os := s.captures.os, arch := s.captures.arch
    userId := s.identity.effective, priorUserId := s.identity.pendingPriorUserId
    metadataJson := s.metadata.changed
    frameStats := i.frames.map fun f => (f.fpsAvg, f.slowFramePct, f.hitchCount, f.worstFrameMs)
    role := if s.context.role.isEmpty then lit "client" else s.context.role
    serverId := s.context.serverId, matchId := s.context.matchId
    region := s.context.region, hostname := s.context.hostname, environment := s.context.environment
    device := if s.carriesDevice then s.device.device else {} }

/-- One turn of `heartbeat_loop`. -/
def heartbeat : State :=
  if s.captures.captureAllowed && s.gate.opened then
    { s with
      identity := s.identity.carry
      metadata := s.metadata.carry
      device := { s.device with carryInFlight := s.carriesDevice || s.device.carryInFlight }
    }.enqueue (buildHeartbeatJson printed (s.beatPayload i))
  else s

/-- The requests of an ack that are fulfilled. -/
def fulfilled (body : Bytes) : List JsonScan.PendingPullRequest :=
  (JsonScan.findPendingRequests body).filter fun request =>
    !request.requestId.isEmpty && pullRequestTargetsClient request.targetType request.targetValue
      s.identity.effective s.captures.sessionId s.context.matchId s.context.serverId

def fulfilBody (request : JsonScan.PendingPullRequest) : Bytes :=
  buildPullFulfillJson s.identity.effective s.captures.sessionId s.context.matchId s.context.serverId
    request.fulfillNonce request.nonceExpiry

/-- The commits of `handle_heartbeat_ack`. -/
def commit : State :=
  { s with
    device := { s.device with
      sentOnHeartbeat := s.device.carryInFlight || s.device.sentOnHeartbeat, carryInFlight := false }
    identity := s.identity.commit
    metadata := s.metadata.commit (0, []) }

/-- `handle_heartbeat_ack`. -/
def ack (body : Bytes) : State :=
  let s := s.commit
  if !s.captures.captureAllowed || body.isEmpty then s
  else { s with bodies := s.bodies ++ (s.fulfilled body).map s.fulfilBody }

end State

/-- One step of a client that is initialised. -/
def perform (s : State) (i : Input) : Call → State
  | .setConsent granted =>
    let s := { s with captures := s.captures.setConsent granted }
    if granted && s.captures.initialized then s.startSessionTracking printed i else s
  | .startSession => { s with gate := s.gate.set.1 }
  | .setUser userId steamId =>
    let next := clamped userId limits.userId
    { s with
      identity := s.identity.setUser userId steamId
      metadata := if next != s.identity.userId then s.metadata.changeUser s.identity.userId next else s.metadata }
  | .setUserMetadata entries => { s with metadata := s.metadata.set entries s.identity.userId }
  | .setEnvironment environment => { s with context := s.context.setEnvironment environment }
  | .setServerInfo region hostname => { s with context := s.context.setServerInfo region hostname }
  | .markDedicatedServer serverId region hostname =>
    { s with context := s.context.markDedicatedServer serverId region hostname }
  | .setMatchContext serverId matchId => { s with context := s.context.setMatchContext serverId matchId }
  | .startMatch outCap =>
    if outCap < i.matchId.length + 1 then s
    else { s with context := { s.context with role := lit "server", matchId := i.matchId } }
  | .endMatch => { s with context := { s.context with matchId := [] } }
  | .setDevice device =>
    { s with device :=
        { s.device with device := .ofSpecs device, sentOnHeartbeat := false, carryInFlight := false } }
  | .setSampleRates sampler => { s with captures := { s.captures with sampler } }
  | .capture call => { s with captures := (s.captures.capture 0 (s.captureInput printed i) call).1 }
  | .logLine level line =>
    if CString.blank line || !s.captures.captureAllowed then s
    else s.record i (levelLabel level) (line.getD [])
  | .setLevel name =>
    if CString.blank name || !s.captures.captureAllowed then s
    else s.record i (lit "Info") (lit "[scene] level: " ++ clamped name BreadcrumbRing.maxMessageBytes)
  | .reportCrash signature stackHint stackTrace attachLog =>
    s.reportCrash printed i signature stackHint stackTrace attachLog
  | .reportBug category message attachLog => s.reportBug printed i category message attachLog
  | .requestPlayerLogs targetType targetValue reason =>
    if !s.captures.initialized || CString.blank targetType || CString.blank targetValue || CString.blank reason then s
    else s.enqueue (buildPullRequestJson (targetType.getD []) (targetValue.getD []) (reason.getD []))
  | .heartbeat => s.heartbeat printed i
  | .ack body => s.ack body

/-! ## Runs -/

/-- One `tombstone_init`: its options, what it finds, and the calls before it. -/
structure Launch where
  environment : CString := none
  buildVersion : Bytes
  os : Bytes
  arch : Bytes
  consentGranted : Bool := true
  autoStartSession : Bool := true
  sessionLogEnabled : Bool := true
  uncleanDetectionEnabled : Bool := true
  storageAvailable : Bool := true
  previousMarker : Option SessionMarkerData := none
  previousNativeDump : Option NativeCrashDump := none
  hasRestoredCrash : Bool := false
  hadPreviousLog : Bool := false
  /-- `acquire_device_identity`. -/
  provisionalUserId : Bytes
  provisional_valid : DeviceIdentity.isValid provisionalUserId = true
  /-- `random_session_id`. -/
  sessionId : Bytes := List.replicate 32 (ch '0')
  sessionId_length : sessionId.length = 32 := by rfl
  early : List EarlyCall := []

/-- The client when `Client::init` has set it up. -/
def initialized (l : Launch) : State :=
  { captures := .afterInit l.consentGranted l.buildVersion l.os l.arch l.sessionId
    identity := { provisionalUserId := l.provisionalUserId }
    context := Session.Context.setEnvironment {} l.environment
    gate := StartGate.arm {} l.autoStartSession
    dedupe := { recent := [], keys := List.nodup_nil, bounded := Nat.zero_le _ }
    sessionLogEnabled := l.sessionLogEnabled, storageAvailable := l.storageAvailable
    uncleanDetectionEnabled := l.uncleanDetectionEnabled
    previousMarker := l.previousMarker, previousNativeDump := l.previousNativeDump
    hasRestoredCrash := l.hasRestoredCrash, hadPreviousLog := l.hadPreviousLog }

/-- `replay_preinit`. -/
def replay (store : EarlyStore) : List Call :=
  store.state.consent.toList.map .setConsent ++
    store.state.user.toList.map (fun u => .setUser (some u.1) (some u.2)) ++
    store.state.environment.toList.map (fun e => .setEnvironment (some e)) ++
    store.state.userMetadata.toList.map (fun m =>
      .setUserMetadata (some (m.map fun entry => (some entry.1, some entry.2)))) ++
    store.breadcrumbs.map (fun crumb => .capture crumb.call) ++
    store.tracks.map (fun track => .capture track.call) ++
    (if store.state.startSessionRequested then [.startSession] else [])

/-- `tombstone_init`: with consent, the session is tracked at once. -/
def init (l : Launch) (i : Input) : State :=
  if l.consentGranted then (initialized l).startSessionTracking printed i else initialized l

/-- A run: the buffered calls are replayed, then the host calls. `input` supplies what each step needs. -/
def run (l : Launch) (input : Nat → Input) (calls : List Call) : State :=
  ((replay (.ofCalls l.early) ++ calls).zipIdx 1).foldl (fun s c => perform printed s (input c.2) c.1)
    (init printed l (input 0))

end Tombstone.FilledRuns
