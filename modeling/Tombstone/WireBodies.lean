import Tombstone.BreadcrumbRing
import Tombstone.Payloads

/- The bodies of crashes, bug reports, events, metrics and heartbeats (`payloads.cpp`).

   How `number_field` prints a double (`%.17g`, with the locale's decimal separator replaced)
   is a parameter, `printed`. -/
namespace Tombstone

namespace limits

def buildVersion : Nat := 64
def signature : Nat := 128
def stackHint : Nat := 512
def stackTrace : Nat := 8192
def bugCategory : Nat := 32
def bugMessage : Nat := 4000
def eventName : Nat := 64
def eventAttributes : Nat := 32
def eventAttributeKey : Nat := 64
def eventAttributeValue : Nat := 512
def role : Nat := 16
def metricName : Nat := 64
def metricUnit : Nat := 16

end limits

/-- `std::isfinite`: the exponent is not all ones. -/
def Double.isFinite (d : Double) : Bool := d.bits &&& 0x7FF0000000000000 != 0x7FF0000000000000

theorem Double.isFinite_of_finitePositive {d : Double} (h : d.finitePositive = true) :
    d.isFinite = true := by
  have hlt : d.bits < 0x7FF0000000000000 := (of_decide_eq_true h).2
  rw [isFinite, bne_iff_ne]
  intro hmask
  have hle : (d.bits &&& 0x7FF0000000000000).toNat ≤ d.bits.toNat := by
    rw [UInt64.toNat_and]
    exact Nat.and_le_left
  rw [hmask] at hle
  exact absurd hlt (Nat.not_lt.2 hle)

/-! ## Payload records -/

structure CrashPayload where
  occurredAtIso : Bytes
  buildVersion : Bytes
  os : Bytes
  arch : Bytes
  signature : Bytes
  stackHint : Bytes
  stackTrace : Bytes := []
  breadcrumbs : List Breadcrumb := []
  userId : Bytes := []
  priorUserId : Bytes := []
  steamId : Bytes := []
  log : Bool := false
  role : Bytes := []
  serverId : Bytes := []
  matchId : Bytes := []
  sessionId : Bytes := []
  environment : Bytes := []
  device : DevicePayload := {}
  crashType : Bytes := []
  osSignal : Int := 0
  deriving DecidableEq, Repr

structure BugReportPayload where
  occurredAtIso : Bytes
  buildVersion : Bytes
  os : Bytes
  arch : Bytes
  category : Bytes := []
  message : Bytes
  userId : Bytes := []
  priorUserId : Bytes := []
  steamId : Bytes := []
  breadcrumbs : List Breadcrumb := []
  log : Bool := false
  role : Bytes := []
  serverId : Bytes := []
  matchId : Bytes := []
  sessionId : Bytes := []
  environment : Bytes := []
  device : DevicePayload := {}
  deriving DecidableEq, Repr

structure EventPayload where
  occurredAtIso : Bytes
  buildVersion : Bytes
  os : Bytes
  arch : Bytes
  name : Bytes
  userId : Bytes := []
  attributes : List (Bytes × Bytes) := []
  role : Bytes := []
  serverId : Bytes := []
  matchId : Bytes := []
  sessionId : Bytes := []
  environment : Bytes := []
  deriving DecidableEq, Repr

structure MetricPayload where
  name : Bytes
  value : Double := {}
  unit : Bytes := []
  occurredAtIso : Bytes
  buildVersion : Bytes
  os : Bytes
  arch : Bytes
  userId : Bytes := []
  role : Bytes := []
  serverId : Bytes := []
  matchId : Bytes := []
  sessionId : Bytes := []
  environment : Bytes := []
  deriving DecidableEq, Repr

/-! ## Shared parts of the bodies -/

namespace JsonWriter

variable (printed : Double → Bytes)

def numberField (w : JsonWriter) (name : Bytes) (value : Double) : JsonWriter :=
  (w.namePrefix name).emit (printed value)

/-- `optional_int_field`. -/
def optionalIntField (w : JsonWriter) (name : Bytes) (value : Int) : JsonWriter :=
  if 0 < value then w.intField name value else w

/-- `optional_number_field`. -/
def optionalNumberField (w : JsonWriter) (name : Bytes) (value : Double) : JsonWriter :=
  if value.finitePositive then w.numberField printed name value else w

/-- One element of `breadcrumbs_field`. -/
def crumbElement (w : JsonWriter) (crumb : Breadcrumb) : JsonWriter :=
  let opened := w.beginObject
  let stamped := if crumb.tsIso.isEmpty then opened else opened.stringField (lit "tsIso") crumb.tsIso
  ((stamped.clampedField (lit "level") crumb.level BreadcrumbRing.maxLevelBytes
    ).clampedField (lit "message") crumb.message BreadcrumbRing.maxMessageBytes).endObject

/-- `breadcrumbs_field`. -/
def breadcrumbsField (w : JsonWriter) (breadcrumbs : List Breadcrumb) : JsonWriter :=
  if breadcrumbs.isEmpty then w
  else (breadcrumbs.foldl crumbElement (w.beginArray (lit "breadcrumbs"))).endArray

/-- `common_context`. -/
def commonContext (w : JsonWriter) (occurredAtIso buildVersion os arch : Bytes) : JsonWriter :=
  (((w.stringField (lit "occurredAtIso") occurredAtIso
    ).clampedField (lit "buildVersion") buildVersion limits.buildVersion
    ).stringField (lit "os") os).stringField (lit "arch") arch

/-- `correlation_fields`. -/
def correlationFields (w : JsonWriter) (role serverId matchId sessionId : Bytes) : JsonWriter :=
  (((w.optionalField (lit "role") role limits.role
    ).optionalField (lit "serverId") serverId limits.serverId
    ).optionalField (lit "matchId") matchId limits.matchId
    ).optionalField (lit "sessionId") sessionId limits.sessionId

/-- `device_object`. -/
def deviceObject (w : JsonWriter) (d : DevicePayload) : JsonWriter :=
  if !deviceHasContent d then w
  else
    let w := w.beginObjectField (lit "device")
    let w := w.optionalField (lit "model") d.model limits.deviceModel
    let w := w.optionalField (lit "type") d.type limits.deviceType
    let w := w.optionalField (lit "os") d.os limits.deviceOs
    let w := w.optionalField (lit "osFamily") d.osFamily limits.deviceOsFamily
    let w := w.optionalField (lit "cpu") d.cpu limits.deviceCpu
    let w := w.optionalIntField (lit "cpuCount") d.cpuCount
    let w := w.optionalIntField (lit "ramMB") d.ramMb
    let w := w.optionalField (lit "gpu") d.gpu limits.deviceGpu
    let w := w.optionalField (lit "gpuVendor") d.gpuVendor limits.deviceGpuVendor
    let w := w.optionalField (lit "gpuVersion") d.gpuVersion limits.deviceGpuVersion
    let w := w.optionalField (lit "gpuApi") d.gpuApi limits.deviceGpuApi
    let w := w.optionalIntField (lit "vramMB") d.vramMb
    let w := w.optionalField (lit "screen") d.screen limits.deviceScreen
    let w := w.optionalNumberField printed (lit "screenDpi") d.screenDpi
    let w := w.optionalNumberField printed (lit "refreshRate") d.refreshRate
    let w := w.optionalField (lit "orientation") d.orientation limits.deviceOrientation
    let w := if d.fullscreen then w.boolField (lit "fullscreen") true else w
    let w := w.optionalField (lit "language") d.language limits.deviceLanguage
    let w := w.optionalField (lit "engine") d.engine limits.deviceEngine
    let w := w.optionalField (lit "scriptingBackend") d.scriptingBackend
      limits.deviceScriptingBackend
    let w := w.optionalField (lit "platform") d.platform limits.devicePlatform
    w.endObject

/-- The loop of `build_event_json` over the attributes; `written` counts what it wrote. -/
def attributeFields (w : JsonWriter) (written : Nat) : List (Bytes × Bytes) → JsonWriter
  | [] => w
  | (key, value) :: rest =>
    if limits.eventAttributes ≤ written then w
    else if key.isEmpty then w.attributeFields written rest
    else
      (w.stringField (utf8SafeTruncate key limits.eventAttributeKey)
        (utf8SafeTruncate value limits.eventAttributeValue)).attributeFields (written + 1) rest

end JsonWriter

/-! ## The builders -/

variable (printed : Double → Bytes)

/-- `build_crash_json`. -/
def buildCrashJson (p : CrashPayload) : Bytes :=
  let w := JsonWriter.beginObject {}
  let w := w.commonContext p.occurredAtIso p.buildVersion p.os p.arch
  let w := w.clampedField (lit "signature") p.signature limits.signature
  let w := w.clampedField (lit "stackHint") p.stackHint limits.stackHint
  let w := w.optionalField (lit "stackTrace") p.stackTrace limits.stackTrace
  let w := w.breadcrumbsField p.breadcrumbs
  let w := w.optionalField (lit "userId") p.userId limits.userId
  let w := w.optionalField (lit "priorUserId") p.priorUserId limits.userId
  let w := w.optionalField (lit "steamId") p.steamId limits.steamId
  let w := w.boolField (lit "log") p.log
  let w := w.correlationFields p.role p.serverId p.matchId p.sessionId
  let w := w.optionalField (lit "environment") p.environment limits.environment
  let w := w.deviceObject printed p.device
  let w := w.optionalField (lit "crashType") p.crashType limits.signature
  let w := w.optionalIntField (lit "osSignal") p.osSignal
  w.endObject.out

/-- `build_bug_report_json`. -/
def buildBugReportJson (p : BugReportPayload) : Bytes :=
  let w := JsonWriter.beginObject {}
  let w := w.commonContext p.occurredAtIso p.buildVersion p.os p.arch
  let w := w.optionalField (lit "category") p.category limits.bugCategory
  let w := w.clampedField (lit "message") p.message limits.bugMessage
  let w := w.optionalField (lit "userId") p.userId limits.userId
  let w := w.optionalField (lit "priorUserId") p.priorUserId limits.userId
  let w := w.optionalField (lit "steamId") p.steamId limits.steamId
  let w := w.breadcrumbsField p.breadcrumbs
  let w := w.boolField (lit "log") p.log
  let w := w.correlationFields p.role p.serverId p.matchId p.sessionId
  let w := w.optionalField (lit "environment") p.environment limits.environment
  let w := w.deviceObject printed p.device
  w.endObject.out

/-- `build_event_json`. -/
def buildEventJson (p : EventPayload) : Bytes :=
  let w := JsonWriter.beginObject {}
  let w := w.commonContext p.occurredAtIso p.buildVersion p.os p.arch
  let w := w.clampedField (lit "name") p.name limits.eventName
  let w := w.optionalField (lit "userId") p.userId limits.userId
  let w := if p.attributes.isEmpty then w
    else ((w.beginObjectField (lit "attributes")).attributeFields 0 p.attributes).endObject
  let w := w.correlationFields p.role p.serverId p.matchId p.sessionId
  let w := w.optionalField (lit "environment") p.environment limits.environment
  w.endObject.out

/-- `build_metric_json`. -/
def buildMetricJson (p : MetricPayload) : Bytes :=
  let w := JsonWriter.beginObject {}
  let w := w.clampedField (lit "name") p.name limits.metricName
  let w := w.numberField printed (lit "value") p.value
  let w := w.optionalField (lit "unit") p.unit limits.metricUnit
  let w := w.stringField (lit "occurredAtIso") p.occurredAtIso
  let w := w.clampedField (lit "buildVersion") p.buildVersion limits.buildVersion
  let w := w.stringField (lit "os") p.os
  let w := w.stringField (lit "arch") p.arch
  let w := w.optionalField (lit "userId") p.userId limits.userId
  let w := w.correlationFields p.role p.serverId p.matchId p.sessionId
  let w := w.optionalField (lit "environment") p.environment limits.environment
  w.endObject.out

/-- `build_heartbeat_json`. -/
def buildHeartbeatJson (p : HeartbeatPayload) : Bytes :=
  let w := JsonWriter.beginObject {}
  let w := w.clampedField (lit "sessionId") p.sessionId limits.sessionId
  let w := w.stringField (lit "occurredAtIso") p.occurredAtIso
  let w := w.clampedField (lit "buildVersion") p.buildVersion limits.buildVersion
  let w := w.stringField (lit "os") p.os
  let w := w.stringField (lit "arch") p.arch
  let w := w.optionalField (lit "userId") p.userId limits.userId
  let w := w.optionalField (lit "priorUserId") p.priorUserId limits.userId
  let w := if p.metadataJson.isEmpty then w else w.rawField (lit "metadata") p.metadataJson
  let w := match p.frameStats with
    | none => w
    | some (fpsAvg, slowFramePct, hitchCount, worstFrameMs) =>
      (((w.numberField printed (lit "fpsAvg") fpsAvg
        ).numberField printed (lit "slowFramePct") slowFramePct
        ).intField (lit "hitchCount") hitchCount).intField (lit "worstFrameMs") worstFrameMs
  let w := w.optionalField (lit "role") p.role limits.role
  let w := w.optionalField (lit "serverId") p.serverId limits.serverId
  let w := w.optionalField (lit "matchId") p.matchId limits.matchId
  let w := w.optionalField (lit "region") p.region limits.region
  let w := w.optionalField (lit "hostname") p.hostname limits.hostname
  let w := w.optionalField (lit "environment") p.environment limits.environment
  let w := w.deviceObject printed p.device
  w.endObject.out

end Tombstone
