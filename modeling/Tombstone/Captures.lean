import Tombstone.Batch
import Tombstone.BreadcrumbRing
import Tombstone.Buffers
import Tombstone.PreInit
import Tombstone.WireBodies

/- The three captures that can be buffered before `tombstone_init`: a breadcrumb, an event, a
   metric. What a live client does with them (`client_reports.cpp`), what the store keeps of
   them (`preinit.cpp`), and the replay (`replay_preinit`).

   Every call has a serial number, its place in the history of calls. It is proof-only: no
   operation reads it, and it lets a statement find the call that left a record. -/
namespace Tombstone

/-- The result codes of a capture. -/
inductive CaptureResult where
  | ok
  | disabled
  | invalidArgument
  deriving DecidableEq, Repr

/-- A call that captures something. A level is a `tombstone_level`; `none` stands for null
attribute arrays with a positive count. -/
inductive CaptureCall where
  | addBreadcrumb (level : Int) (message : CString)
  | trackEvent (name : CString) (attributes : Option (List (CString × CString)))
  | trackMetric (name : CString) (value : Double) (unit : CString)
  deriving DecidableEq, Repr

/-- `value == nullptr || value[0] == '\0'`. -/
def CString.blank (value : CString) : Bool := (value.getD []).isEmpty

/-- `level_label`. -/
def levelLabel (level : Int) : Bytes :=
  if level = 0 then lit "Debug"
  else if level = 2 then lit "Warning"
  else if level = 3 then lit "Error"
  else lit "Info"

/-- The attributes that `track_event` keeps: an entry without a key is skipped, and a null value
is empty. -/
def usableAttributes (attributes : List (CString × CString)) : List (Bytes × Bytes) :=
  (attributes.filter fun a => !CString.blank a.1).map fun a => (a.1.getD [], a.2.getD [])

/-! ## A live client -/

/-- The keep rates by name (`sampler.h`); a name without a rate is always kept. -/
structure Sampler where
  rates : List (Bytes × Double) := []
  deriving DecidableEq, Repr

/-- `Sampler::should_keep`; `roll` decides for a rate. -/
def Sampler.shouldKeep (s : Sampler) (name : Bytes) (roll : Double → Bool) : Bool :=
  match s.rates.lookup name with
  | none => true
  | some rate => roll rate

/-- What the rest of the client and the environment supply to one capture. -/
structure CaptureInput where
  /-- `now_iso8601_utc_ms`, and the steady clock. -/
  stamp : Bytes := []
  now : Nat := 0
  roll : Double → Bool := fun _ => true
  /-- How `number_field` prints a double. -/
  printed : Double → Bytes := fun _ => []
  /-- `current_user_id` and `current_match_context`. -/
  userId : Bytes := []
  role : Bytes := []
  serverId : Bytes := []
  matchId : Bytes := []
  environment : Bytes := []

/-- The part of a client that captures read and write. -/
structure CaptureClient where
  initialized : Bool := true
  consent : Bool := true
  breadcrumbs : BreadcrumbRing := .ofCapacity BreadcrumbRing.defaultCapacity
  eventBatch : Batch := {}
  metricBatch : Batch := {}
  sampler : Sampler := {}
  buildVersion : Bytes := []
  os : Bytes := []
  arch : Bytes := []
  sessionId : Bytes := []
  /-- Proof-only: the events and metrics that were ever put in a batch. -/
  tracked : List Item := []
  deriving DecidableEq

namespace CaptureClient

variable (c : CaptureClient) (serial : Nat) (i : CaptureInput)

/-- The client that a successful `Client::init` leaves. -/
def afterInit (consentGranted : Bool) (buildVersion os arch sessionId : Bytes) : CaptureClient :=
  { consent := consentGranted, buildVersion, os, arch, sessionId }

def captureAllowed : Bool := c.initialized && c.consent

/-- `Client::add_breadcrumb`. -/
def addBreadcrumb (level : Int) (message : CString) : CaptureClient × CaptureResult :=
  if CString.blank message then (c, .invalidArgument)
  else if !c.captureAllowed then (c, .disabled)
  else
    ({ c with breadcrumbs := c.breadcrumbs.add (levelLabel level) (message.getD []) i.stamp serial },
      .ok)

/-- The body of an event. -/
def eventJson (name : Bytes) (attributes : List (Bytes × Bytes)) : Bytes :=
  buildEventJson
    { occurredAtIso := i.stamp, buildVersion := c.buildVersion, os := c.os, arch := c.arch, name
      userId := i.userId, attributes, role := i.role, serverId := i.serverId
      matchId := i.matchId, sessionId := c.sessionId, environment := i.environment }

/-- The body of a metric. -/
def metricJson (name : Bytes) (value : Double) (unit : Bytes) : Bytes :=
  buildMetricJson i.printed
    { name, value, unit, occurredAtIso := i.stamp, buildVersion := c.buildVersion, os := c.os
      arch := c.arch, userId := i.userId, role := i.role, serverId := i.serverId
      matchId := i.matchId, sessionId := c.sessionId, environment := i.environment }

/-- `Client::track_event`. -/
def trackEvent (name : CString) (attributes : Option (List (CString × CString))) :
    CaptureClient × CaptureResult :=
  if CString.blank name then (c, .invalidArgument)
  else
    match attributes with
    | none => (c, .invalidArgument)
    | some attributes =>
      if !c.captureAllowed then (c, .disabled)
      else if !c.sampler.shouldKeep (name.getD []) i.roll then (c, .ok)
      else
        let item : Item := ⟨c.eventJson i (name.getD []) (usableAttributes attributes), serial⟩
        ({ c with
            eventBatch := (c.eventBatch.add i.now item).1
            tracked := c.tracked ++ [item] }, .ok)

/-- `Client::track_metric`. -/
def trackMetric (name : CString) (value : Double) (unit : CString) :
    CaptureClient × CaptureResult :=
  if CString.blank name then (c, .invalidArgument)
  else if !value.isFinite then (c, .invalidArgument)
  else if !c.captureAllowed then (c, .disabled)
  else if !c.sampler.shouldKeep (name.getD []) i.roll then (c, .ok)
  else
    let item : Item := ⟨c.metricJson i (name.getD []) value (unit.getD []), serial⟩
    ({ c with
        metricBatch := (c.metricBatch.add i.now item).1
        tracked := c.tracked ++ [item] }, .ok)

def capture : CaptureCall → CaptureClient × CaptureResult
  | .addBreadcrumb level message => c.addBreadcrumb serial i level message
  | .trackEvent name attributes => c.trackEvent serial i name attributes
  | .trackMetric name value unit => c.trackMetric serial i name value unit

/-- `Client::set_consent`: a revoke clears the trail. -/
def setConsent (granted : Bool) : CaptureClient :=
  { c with
    consent := granted
    breadcrumbs := if !granted && c.consent then c.breadcrumbs.clear else c.breadcrumbs }

end CaptureClient

/-! ## The store -/

namespace PreInitStore

def maxBreadcrumbs : Nat := 64
def maxTracks : Nat := 128

/-- One buffered breadcrumb; `serial` is proof-only. -/
structure Crumb where
  level : Int
  message : Bytes
  serial : Nat
  deriving DecidableEq, Repr

/-- One buffered event or metric; `serial` is proof-only. -/
structure Track where
  isMetric : Bool := false
  name : Bytes
  attributes : List (Bytes × Bytes) := []
  value : Double := {}
  unit : Bytes := []
  serial : Nat
  deriving DecidableEq, Repr

end PreInitStore

open PreInitStore (Crumb Track maxBreadcrumbs maxTracks)

/-- A call before `tombstone_init`. -/
inductive EarlyCall where
  | state (call : PreInitCall)
  | capture (call : CaptureCall)
  deriving DecidableEq, Repr

/-- Everything that is buffered before `tombstone_init`. -/
structure EarlyStore where
  state : PreInitStore := {}
  breadcrumbs : List Crumb := []
  tracks : List Track := []
  deriving DecidableEq, Repr

namespace EarlyStore

variable (p : EarlyStore)

/-- `PreInitStore::add_breadcrumb`: the oldest is dropped at capacity. -/
def addBreadcrumb (crumb : Crumb) : EarlyStore :=
  { p with breadcrumbs := Buffers.pushDroppingOldest maxBreadcrumbs p.breadcrumbs crumb }

/-- `PreInitStore::add_event` and `PreInitStore::add_metric`: the newest is dropped at the
shared capacity. -/
def addTrack (track : Track) : EarlyStore :=
  { p with tracks := Buffers.pushUnlessFull maxTracks p.tracks track }

/-- A capture before `tombstone_init` (`tombstone_api.cpp`). -/
def capture (serial : Nat) : CaptureCall → EarlyStore × CaptureResult
  | .addBreadcrumb level message =>
    if CString.blank message then (p, .invalidArgument)
    else (p.addBreadcrumb { level, message := message.getD [], serial }, .ok)
  | .trackEvent name attributes =>
    if CString.blank name then (p, .invalidArgument)
    else
      match attributes with
      | none => (p, .invalidArgument)
      | some attributes =>
        (p.addTrack { name := name.getD [], attributes := usableAttributes attributes, serial }, .ok)
  | .trackMetric name value unit =>
    if CString.blank name || !value.isFinite then (p, .invalidArgument)
    else (p.addTrack { isMetric := true, name := name.getD [], value, unit := unit.getD [], serial },
      .ok)

def apply (call : EarlyCall × Nat) : EarlyStore :=
  match call.1 with
  | .state s => { p with state := p.state.apply s }
  | .capture k => (p.capture call.2 k).1

/-- The store after a history of calls. -/
def ofCalls (calls : List EarlyCall) : EarlyStore := calls.zipIdx.foldl apply {}

end EarlyStore

/-! ## The replay -/

/-- A buffered breadcrumb as the call it is replayed as. -/
def PreInitStore.Crumb.call (crumb : Crumb) : CaptureCall :=
  .addBreadcrumb crumb.level (some crumb.message)

/-- A buffered event or metric as the call it is replayed as. -/
def PreInitStore.Track.call (track : Track) : CaptureCall :=
  if track.isMetric then .trackMetric (some track.name) track.value (some track.unit)
  else .trackEvent (some track.name)
    (some (track.attributes.map fun a => (some a.1, some a.2)))

namespace CaptureClient

/-- A sequence of captures; `input` supplies what each needs. -/
def captureAll (input : Nat → CaptureInput) (c : CaptureClient)
    (calls : List (CaptureCall × Nat)) : CaptureClient :=
  calls.foldl (fun c call => (c.capture call.2 (input call.2) call.1).1) c

/-- The replay of a buffered consent. -/
def replayConsent (c : CaptureClient) : Option Bool → CaptureClient
  | none => c
  | some granted => c.setConsent granted

/-- `replay_preinit`: consent first, then breadcrumbs, then events and metrics. The rest of the
state does not concern captures. -/
def replayPreinit (input : Nat → CaptureInput) (c : CaptureClient) (p : EarlyStore) :
    CaptureClient :=
  let c := c.replayConsent p.state.consent
  (c.captureAll input (p.breadcrumbs.map fun crumb => (crumb.call, crumb.serial))).captureAll input
    (p.tracks.map fun track => (track.call, track.serial))

/-- One of the calls on a live client. -/
def callLive (input : Nat → CaptureInput) (c : CaptureClient) (call : EarlyCall × Nat) :
    CaptureClient :=
  match call.1 with
  | .state (.setConsent granted) => c.setConsent granted
  | .state _ => c
  | .capture k => (c.capture call.2 (input call.2) k).1

/-- The calls on a client that was initialized first. -/
def live (input : Nat → CaptureInput) (c : CaptureClient) (calls : List EarlyCall) :
    CaptureClient :=
  calls.zipIdx.foldl (callLive input) c

end CaptureClient

end Tombstone
