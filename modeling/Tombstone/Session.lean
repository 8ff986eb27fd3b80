import Tombstone.Interleave
import Tombstone.PreInit
import Tombstone.StartGate

/- Whom a client speaks of, and what it has told the server: the state behind
   `user_mutex_`, `metadata_mutex_` and `match_mutex_`, the device flags, and the threads
   that read and write them from the start of the worker on (`client.cpp`,
   `client_reports.cpp`, `tombstone_api.cpp`).

   Thread 0 is the thread that runs `tombstone_init`, thread 1 the heartbeat thread, thread 2
   the worker's; the others belong to the host. One action is one critical section of the
   source, or one access to an atomic flag; a payload is built by the actions that read its
   parts, one after the other. `set_user` also changes the metadata under `metadata_mutex_`
   before it releases `user_mutex_`; no one can see the user in between, so it is one action.

   The queue holds the beats in order. The environment chooses which beats are lost, by the
   transport or by the queue's bound, and the rest of what the code does not decide. -/
namespace Tombstone.Session

/-! ## State -/

/-- The state behind `user_mutex_`. -/
structure Identity where
  userId : Bytes := []
  steamId : Bytes := []
  provisionalUserId : Bytes := []
  pendingPriorUserId : Bytes := []
  priorInFlight : Bytes := []
  /-- Proof-only: the number of logouts; every stamping of the marker, with the number of
  logouts before it and the id that logged in; and the markers that the beats built since the
  last handled ack carry. -/
  episode : Nat := 0
  stampings : List (Nat × Bytes) := []
  carriedSinceAck : List Bytes := []
  deriving DecidableEq, Repr

/-- The state behind `metadata_mutex_`. -/
structure Metadata where
  userMetadata : UserMetadataEntries := []
  lastAckedJson : Bytes := lit "\x7b\x7d"
  epoch : Int := 0
  inFlightJson : Bytes := []
  inFlightEpoch : Int := -1
  /-- Proof-only: who was set when the map was, and who logged in with it; the epochs and
  objects of the beats whose acks were handled, and of those built since the last one. -/
  mapUser : Bytes := []
  mapLogin : Option Bytes := none
  acked : List (Int × Bytes) := []
  builtSinceAck : List (Int × Bytes) := []
  deriving DecidableEq, Repr

/-- The correlation context and the labels behind `match_mutex_`. -/
structure Context where
  role : Bytes := []
  serverId : Bytes := []
  matchId : Bytes := []
  environment : Bytes := []
  region : Bytes := []
  hostname : Bytes := []
  deriving DecidableEq, Repr

/-- The cached device, and the two flags of its delivery. -/
structure Device where
  device : DevicePayload := {}
  sentOnHeartbeat : Bool := false
  carryInFlight : Bool := false
  /-- Proof-only: how often a device was stored, and the devices that beats carried which were
  answered with a 2xx. -/
  version : Nat := 0
  delivered : List DevicePayload := []
  deriving DecidableEq, Repr

/-- A heartbeat under construction or queued. -/
structure Beat where
  payload : HeartbeatPayload
  carryingDevice : Bool := false
  /-- Proof-only: the state of the marker, the device and the map when they were read; `stamp`
  is the number of stampings. -/
  stamp : Nat := 0
  stamper : Bytes := []
  episode : Nat := 0
  deviceVersion : Nat := 0
  epoch : Int := 0
  mapUser : Bytes := []
  mapLogin : Option Bytes := none
  deriving DecidableEq, Repr

inductive ReportKind where
  | crash
  | bug
  | uncleanShutdown
  | nativeCrash
  deriving DecidableEq, Repr

/-- Whom a crash or bug body speaks of. -/
structure Report where
  kind : ReportKind
  userId : Bytes := []
  priorUserId : Bytes := []
  steamId : Bytes := []
  role : Bytes := []
  serverId : Bytes := []
  matchId : Bytes := []
  environment : Bytes := []
  device : DevicePayload := {}
  /-- Proof-only: the state of the marker when it was read. -/
  stamper : Bytes := []
  episode : Nat := 0
  deriving DecidableEq, Repr

/-- The shared state of a client. -/
structure State where
  sessionId : Bytes := []
  buildVersion : Bytes := []
  os : Bytes := []
  arch : Bytes := []
  uncleanDetectionEnabled : Bool := true
  storageAvailable : Bool := true
  consent : Bool := true
  gate : StartGate := {}
  sessionTrackingStarted : Bool := false
  previousMarker : Bool := false
  previousNativeDump : Bool := false
  hasRestoredCrash : Bool := false
  heartbeatThread : Bool := false
  published : Bool := false
  identity : Identity := {}
  metadata : Metadata := {}
  context : Context := {}
  device : Device := {}
  queue : List Beat := []
  /-- Proof-only: every body that was enqueued, and whether the host has called `set_user` or
  `set_environment` since `tombstone_init` returned. -/
  beats : List Beat := []
  reports : List Report := []
  userOverridden : Bool := false
  environmentOverridden : Bool := false
  deriving DecidableEq, Repr

/-- What the environment supplies to one action. -/
structure Input where
  /-- `now_iso8601_utc_ms`. -/
  stamp : Bytes := []
  frameStats : Option (Double × Double × Int × Int) := none
  /-- `random_session_id`. -/
  matchId : Bytes := []
  /-- Whether the beat the worker sends is answered with a 2xx. -/
  delivered : Bool := true
  deriving DecidableEq, Repr

inductive Act where
  -- `Client::init`
  | startHeartbeat (enabled : Bool)
  | trackIfConsented
  | publish
  -- the host's calls, and what `replay_preinit` replays
  | setConsent (granted : Bool)
  | startSessionTracking
  | startSession
  | setUser (userId steamId : CString)
  | setUserMetadata (entries : Option (List (CString × CString)))
  | setEnvironment (environment : CString)
  | setServerInfo (region hostname : CString)
  | markDedicatedServer (serverId region hostname : CString)
  | setMatchContext (serverId matchId : CString)
  | startMatch
  | endMatch
  | storeDevice (device : Option DeviceSpecs)
  | lowerSent
  | lowerCarry
  | report (kind : ReportKind)
  -- the reads of a report
  | reportUser (r : Report)
  | reportPrior (r : Report)
  | reportSteam (r : Report)
  | reportContext (r : Report)
  | reportDevice (r : Report)
  | enqueueReport (r : Report)
  -- the heartbeat thread's loop, and the reads of a beat
  | heartbeat
  | beatUser (b : Beat)
  | beatContext (b : Beat)
  | beatServerInfo (b : Beat)
  | beatSent (b : Beat)
  | beatDevice (b : Beat)
  | beatMetadata (b : Beat)
  | raiseCarry (b : Beat)
  | enqueueBeat (b : Beat)
  -- the worker thread's loop, and `handle_heartbeat_ack`
  | send
  | ackDevice (b : Beat)
  | storeSent (b : Beat)
  | ackUser (b : Beat)
  | ackMetadata (b : Beat)
  deriving DecidableEq, Repr

/-! ## The critical sections -/

namespace Identity

/-- `current_user_id`: the provisional id stands in for an unset user. -/
def effective (u : Identity) : Bytes :=
  if u.userId.isEmpty then u.provisionalUserId else u.userId

/-- Who stamped the marker last; proof-only. -/
def stamper (u : Identity) : Bytes := (u.stampings.getLast?.map Prod.snd).getD []

/-- Whether a login under `next` stamps the marker. -/
def stampsOn (u : Identity) (next : Bytes) : Bool :=
  !u.provisionalUserId.isEmpty && next != u.provisionalUserId &&
    u.effective == u.provisionalUserId

/-- `Client::set_user`, behind `user_mutex_`. -/
def setUser (u : Identity) (userId steamId : CString) : Identity :=
  let next := clamped userId limits.userId
  let marked :=
    if next.isEmpty then { u with pendingPriorUserId := [], episode := u.episode + 1 }
    else if u.stampsOn next then
      { u with
        pendingPriorUserId := u.provisionalUserId
        stampings := u.stampings ++ [(u.episode, next)] }
    else u
  { marked with userId := next, steamId := clamped steamId limits.steamId }

/-- The identity snapshot of a beat. -/
def carry (u : Identity) : Identity :=
  { u with
    priorInFlight := if u.pendingPriorUserId.isEmpty then u.priorInFlight else u.pendingPriorUserId
    carriedSinceAck := u.carriedSinceAck ++ [u.pendingPriorUserId] }

/-- The commit of the marker when an ack is handled. -/
def commit (u : Identity) : Identity :=
  { u with
    pendingPriorUserId :=
      if !u.priorInFlight.isEmpty && u.priorInFlight == u.pendingPriorUserId then []
      else u.pendingPriorUserId
    priorInFlight := []
    carriedSinceAck := [] }

end Identity

namespace Metadata

/-- What an identity change does to the metadata: the map is dropped when a user leaves. -/
def changeUser (m : Metadata) (old next : Bytes) : Metadata :=
  { m with
    userMetadata := if old.isEmpty then m.userMetadata else []
    lastAckedJson := lit "\x7b\x7d"
    epoch := m.epoch + 1
    mapLogin := if old.isEmpty then some next else m.mapLogin }

/-- `Client::set_user_metadata`; `user` is proof-only. -/
def set (m : Metadata) (entries : Option (List (CString × CString))) (user : Bytes) : Metadata :=
  { m with userMetadata := clampUserMetadata entries, mapUser := user, mapLogin := none }

/-- The object a beat carries now: empty when the map is the one last acked. -/
def changed (m : Metadata) : Bytes :=
  if buildUserMetadataJson m.userMetadata != m.lastAckedJson then buildUserMetadataJson m.userMetadata
  else []

/-- The metadata snapshot of a beat. -/
def carry (m : Metadata) : Metadata :=
  let current := buildUserMetadataJson m.userMetadata
  { m with
    inFlightJson := if current != m.lastAckedJson then current else m.inFlightJson
    inFlightEpoch := if current != m.lastAckedJson then m.epoch else m.inFlightEpoch
    builtSinceAck := m.builtSinceAck ++ [(m.epoch, m.changed)] }

/-- The commit of the metadata when the ack of a beat is handled; `beat` is proof-only. -/
def commit (m : Metadata) (beat : Int × Bytes) : Metadata :=
  { m with
    lastAckedJson :=
      if m.inFlightEpoch == m.epoch && !m.inFlightJson.isEmpty then m.inFlightJson else m.lastAckedJson
    inFlightJson := []
    inFlightEpoch := -1
    acked := m.acked ++ [beat]
    builtSinceAck := [] }

end Metadata

namespace Context

/-- `Client::set_environment`: a null or empty name is refused. -/
def setEnvironment (c : Context) : CString → Context
  | none | some [] => c
  | some (b :: bs) => { c with environment := utf8SafeTruncate (b :: bs) limits.environment }

/-- `Client::set_server_info`: a null label is kept. -/
def setServerInfo (c : Context) (region hostname : CString) : Context :=
  { c with
    region := (region.map fun v => utf8SafeTruncate v limits.region).getD c.region
    hostname := (hostname.map fun v => utf8SafeTruncate v limits.hostname).getD c.hostname }

/-- A label that a null or empty argument keeps. -/
def keep (old : Bytes) (value : CString) (maxBytes : Nat) : Bytes :=
  match value with
  | none | some [] => old
  | some (b :: bs) => utf8SafeTruncate (b :: bs) maxBytes

/-- `Client::mark_dedicated_server`. -/
def markDedicatedServer (c : Context) (serverId region hostname : CString) : Context :=
  { c with
    role := lit "server"
    serverId := keep c.serverId serverId limits.serverId
    region := keep c.region region limits.region
    hostname := keep c.hostname hostname limits.hostname }

/-- `Client::set_match_context`. -/
def setMatchContext (c : Context) (serverId matchId : CString) : Context :=
  { c with
    serverId := clamped serverId limits.serverId
    matchId := clamped matchId limits.matchId }

end Context

/-! ## The reads of a body -/

/-- Whether a report is of this launch, and not of the previous one. -/
def ReportKind.live : ReportKind → Bool
  | .crash | .bug => true
  | .uncleanShutdown | .nativeCrash => false

namespace Report

def readUser (r : Report) (u : Identity) : Report := { r with userId := u.effective }

def readPrior (r : Report) (u : Identity) : Report :=
  { r with priorUserId := u.pendingPriorUserId, stamper := u.stamper, episode := u.episode }

/-- A report of the previous launch takes the environment only. -/
def readContext (r : Report) (c : Context) : Report :=
  let r := { r with environment := c.environment }
  if r.kind.live then { r with role := c.role, serverId := c.serverId, matchId := c.matchId } else r

@[simp] theorem readUser_kind (r : Report) (u : Identity) : (r.readUser u).kind = r.kind := rfl

@[simp] theorem readContext_kind (r : Report) (c : Context) : (r.readContext c).kind = r.kind := by
  simp only [readContext]
  split <;> rfl

end Report

namespace Beat

/-- The identity snapshot: one lock for the id and the marker. -/
def readUser (b : Beat) (u : Identity) : Beat :=
  { b with
    payload := { b.payload with userId := u.effective, priorUserId := u.pendingPriorUserId }
    stamp := u.stampings.length
    stamper := u.stamper
    episode := u.episode }

def readContext (b : Beat) (c : Context) : Beat :=
  { b with payload := { b.payload with
    role := if c.role.isEmpty then lit "client" else c.role
    serverId := c.serverId
    matchId := c.matchId
    environment := c.environment } }

def readServerInfo (b : Beat) (c : Context) : Beat :=
  { b with payload := { b.payload with region := c.region, hostname := c.hostname } }

def readDevice (b : Beat) (d : Device) : Beat :=
  if deviceHasContent d.device then
    { b with
      payload := { b.payload with device := d.device }
      carryingDevice := true
      deviceVersion := d.version }
  else b

/-- The metadata snapshot; the frame statistics are drained after it. -/
def readMetadata (b : Beat) (m : Metadata) (frameStats : Option (Double × Double × Int × Int)) :
    Beat :=
  { b with
    payload := { b.payload with metadataJson := m.changed, frameStats }
    epoch := m.epoch
    mapUser := m.mapUser
    mapLogin := m.mapLogin }

@[simp] theorem readMetadata_carryingDevice (b : Beat) (m : Metadata)
    (frameStats : Option (Double × Double × Int × Int)) :
    (b.readMetadata m frameStats).carryingDevice = b.carryingDevice := rfl

end Beat

/-- `start_session_tracking`, up to the reads of the report it makes. -/
def startSessionTracking (s : State) : State × List Act :=
  if s.sessionTrackingStarted || !s.uncleanDetectionEnabled || !s.storageAvailable then (s, [])
  else if !s.previousMarker then ({ s with sessionTrackingStarted := true }, [])
  else
    let s := { s with sessionTrackingStarted := true, previousMarker := false }
    if s.hasRestoredCrash then ({ s with previousNativeDump := false }, [])
    else
      ({ s with previousNativeDump := false },
        [.reportUser { kind := if s.previousNativeDump then .nativeCrash else .uncleanShutdown }])

/-- The empty beat of one iteration of the heartbeat loop. -/
def newBeat (s : State) (i : Input) : Beat :=
  { payload := { sessionId := s.sessionId, occurredAtIso := i.stamp, buildVersion := s.buildVersion
                 os := s.os, arch := s.arch } }

/-- One action of a thread. -/
def perform (s : State) (a : Act) (i : Input) : Option (State × List Act) :=
  match a with
  | .startHeartbeat enabled => some ({ s with heartbeatThread := enabled }, [])
  | .trackIfConsented => some (s, if s.consent then [.startSessionTracking] else [])
  | .publish => some ({ s with published := true }, [])
  | .setConsent granted =>
    some ({ s with consent := granted }, if granted then [.startSessionTracking] else [])
  | .startSessionTracking => some (startSessionTracking s)
  | .startSession => some ({ s with gate := s.gate.set.1 }, [])
  | .setUser userId steamId =>
    let next := clamped userId limits.userId
    some ({ s with
      identity := s.identity.setUser userId steamId
      metadata :=
        if next != s.identity.userId then s.metadata.changeUser s.identity.userId next
        else s.metadata }, [])
  | .setUserMetadata entries =>
    some ({ s with metadata := s.metadata.set entries s.identity.userId }, [])
  | .setEnvironment environment =>
    some ({ s with context := s.context.setEnvironment environment }, [])
  | .setServerInfo region hostname =>
    some ({ s with context := s.context.setServerInfo region hostname }, [])
  | .markDedicatedServer serverId region hostname =>
    some ({ s with context := s.context.markDedicatedServer serverId region hostname }, [])
  | .setMatchContext serverId matchId =>
    some ({ s with context := s.context.setMatchContext serverId matchId }, [])
  | .startMatch =>
    some ({ s with context := { s.context with role := lit "server", matchId := i.matchId } }, [])
  | .endMatch => some ({ s with context := { s.context with matchId := [] } }, [])
  | .storeDevice device =>
    some ({ s with device :=
      { s.device with device := .ofSpecs device, version := s.device.version + 1 } },
      [.lowerSent, .lowerCarry])
  | .lowerSent => some ({ s with device := { s.device with sentOnHeartbeat := false } }, [])
  | .lowerCarry => some ({ s with device := { s.device with carryInFlight := false } }, [])
  | .report kind => some (s, if s.consent then [.reportUser { kind }] else [])
  | .reportUser r =>
    let r := r.readUser s.identity
    some (s, [if r.kind.live then .reportPrior r else .reportSteam r])
  | .reportPrior r => some (s, [.reportSteam (r.readPrior s.identity)])
  | .reportSteam r => some (s, [.reportContext { r with steamId := s.identity.steamId }])
  | .reportContext r => some (s, [.reportDevice (r.readContext s.context)])
  | .reportDevice r => some (s, [.enqueueReport { r with device := s.device.device }])
  | .enqueueReport r => some ({ s with reports := s.reports ++ [r] }, [])
  | .heartbeat =>
    if !s.heartbeatThread then none
    else some (s, (if s.consent && s.gate.opened then [.beatUser (newBeat s i)] else []) ++
      [.heartbeat])
  | .beatUser b =>
    some ({ s with identity := s.identity.carry }, [.beatContext (b.readUser s.identity)])
  | .beatContext b => some (s, [.beatServerInfo (b.readContext s.context)])
  | .beatServerInfo b => some (s, [.beatSent (b.readServerInfo s.context)])
  | .beatSent b => some (s, [if s.device.sentOnHeartbeat then .beatMetadata b else .beatDevice b])
  | .beatDevice b => some (s, [.beatMetadata (b.readDevice s.device)])
  | .beatMetadata b =>
    let b := b.readMetadata s.metadata i.frameStats
    some ({ s with metadata := s.metadata.carry },
      [if b.carryingDevice then .raiseCarry b else .enqueueBeat b])
  | .raiseCarry b =>
    some ({ s with device := { s.device with carryInFlight := true } }, [.enqueueBeat b])
  | .enqueueBeat b => some ({ s with queue := s.queue ++ [b], beats := s.beats ++ [b] }, [])
  | .send =>
    match s.queue with
    | [] => none
    | b :: rest =>
      if i.delivered then
        some ({ s with
          queue := rest
          device := if b.carryingDevice then
              { s.device with delivered := s.device.delivered ++ [b.payload.device] }
            else s.device },
          [.ackDevice b, .ackUser b, .ackMetadata b, .send])
      else some ({ s with queue := rest }, [.send])
  | .ackDevice b =>
    some ({ s with device := { s.device with carryInFlight := false } },
      if s.device.carryInFlight then [.storeSent b] else [])
  | .storeSent _ => some ({ s with device := { s.device with sentOnHeartbeat := true } }, [])
  | .ackUser _ => some ({ s with identity := s.identity.commit }, [])
  | .ackMetadata b =>
    some ({ s with metadata := s.metadata.commit (b.epoch, b.payload.metadataJson) }, [])

/-! ## Calls, and `tombstone_init` -/

/-- The host's entry points. A report that the dedupe window suppresses is no call here. -/
inductive Call where
  | setConsent (granted : Bool)
  | startSession
  | setUser (userId steamId : CString)
  | setUserMetadata (entries : Option (List (CString × CString)))
  | setEnvironment (environment : CString)
  | setServerInfo (region hostname : CString)
  | markDedicatedServer (serverId region hostname : CString)
  | setMatchContext (serverId matchId : CString)
  | startMatch
  | endMatch
  | setDevice (device : Option DeviceSpecs)
  | reportCrash
  | reportBug
  deriving DecidableEq, Repr

def Call.acts : Call → List Act
  | .setConsent granted => [.setConsent granted]
  | .startSession => [.startSession]
  | .setUser userId steamId => [.setUser userId steamId]
  | .setUserMetadata entries => [.setUserMetadata entries]
  | .setEnvironment environment => [.setEnvironment environment]
  | .setServerInfo region hostname => [.setServerInfo region hostname]
  | .markDedicatedServer serverId region hostname => [.markDedicatedServer serverId region hostname]
  | .setMatchContext serverId matchId => [.setMatchContext serverId matchId]
  | .startMatch => [.startMatch]
  | .endMatch => [.endMatch]
  | .setDevice device => [.storeDevice device]
  | .reportCrash => [.report .crash]
  | .reportBug => [.report .bug]

/-- A call enters while the client is published, on a thread of the host. -/
def call (s : State) (t : Nat) (k : Call) : Option (State × List Act) :=
  if s.published && decide (t ≠ 1 ∧ t ≠ 2) then
    some ({ s with
      userOverridden := s.userOverridden || k matches .setUser _ _
      environmentOverridden := s.environmentOverridden || k matches .setEnvironment _ }, k.acts)
  else none

/-- One `tombstone_init`: its options, what the disk holds, the calls that were made before,
and how many threads of the host may call. -/
structure Launch where
  environment : CString := none
  consentGranted : Bool := true
  autoStartSession : Bool := true
  enableHeartbeats : Bool := true
  uncleanDetection : Bool := true
  storageAvailable : Bool := true
  previousMarker : Bool := false
  previousNativeDump : Bool := false
  hasRestoredCrash : Bool := false
  /-- `acquire_device_identity`. -/
  provisionalUserId : Bytes := []
  sessionId : Bytes := []
  buildVersion : Bytes := []
  os : Bytes := []
  arch : Bytes := []
  preInit : List PreInitCall := []
  hostThreads : Nat := 1
  deriving DecidableEq, Repr

/-- `replay_preinit`: what it replays of the state. -/
def replayPreInit (store : PreInitStore) : List Act :=
  store.consent.toList.map .setConsent ++
    store.user.toList.map (fun u => .setUser (some u.1) (some u.2)) ++
    store.environment.toList.map (fun e => .setEnvironment (some e)) ++
    store.userMetadata.toList.map (fun m =>
      .setUserMetadata (some (m.map fun entry => (some entry.1, some entry.2)))) ++
    (if store.startSessionRequested then [.startSession] else [])

/-- The rest of `tombstone_init` once the worker runs. -/
def initProgram (o : Launch) : List Act :=
  [.startHeartbeat o.enableHeartbeats, .trackIfConsented] ++
    replayPreInit (.ofCalls o.preInit) ++ [.publish]

/-- The client when `Client::init` has started the worker. -/
def initialized (o : Launch) : State :=
  { sessionId := o.sessionId, buildVersion := o.buildVersion, os := o.os, arch := o.arch
    uncleanDetectionEnabled := o.uncleanDetection, storageAvailable := o.storageAvailable
    consent := o.consentGranted, gate := StartGate.arm {} o.autoStartSession
    previousMarker := o.previousMarker, previousNativeDump := o.previousNativeDump
    hasRestoredCrash := o.hasRestoredCrash
    identity := { provisionalUserId := o.provisionalUserId }
    context := Context.setEnvironment {} o.environment }

def machine : Interleave.Machine State Act Input Call Empty :=
  { perform, call, env := fun _ e => e.elim }

abbrev Config := Interleave.Config State Act
abbrev Label := Interleave.Label Input Call Empty

def step : Config → Label → Option Config := Interleave.step machine

/-- Where a session starts. -/
def start (o : Launch) : Config :=
  ⟨initialized o, initProgram o :: [.heartbeat] :: [.send] :: List.replicate o.hostThreads []⟩

/-- A session starts with some `tombstone_init`. -/
def Starts (c : Config) : Prop := ∃ o, c = start o

abbrev Reachable (c : Config) : Prop := Run.Reachable step Starts c

end Tombstone.Session
