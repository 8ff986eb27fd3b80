import Tombstone.Json
import Tombstone.WireBodies

/- What the wire bodies are to say: the members of every body as a table, in the order of
   the schema, each with its value where it is present.

   Strings are cut to the longest valid prefix within their limit; the operating system, the
   architecture and the time stamps are not cut. The payloads are those with valid UTF-8 in
   every string (`Valid`). -/
namespace Tombstone
open Json (Rows present)

/-! ## Values -/

/-- A string within its limit. -/
noncomputable def clipped (limit : Nat) (value : Bytes) : Json := .str (Utf8.longestPrefix limit value)

/-- A string that is absent when it is empty. -/
noncomputable def optional (limit : Nat) (value : Bytes) : Option Json :=
  if value = [] then none else some (clipped limit value)

/-- An integer that is absent unless it is positive. -/
def positive (n : Int) : Option Json := if 0 < n then some (.num (intText n)) else none

variable (printed : Double → Bytes)

/-- A number that is absent unless it is positive and finite. -/
def positiveNumber (d : Double) : Option Json :=
  if d.finitePositive then some (.num (printed d)) else none

/-! ## Parts of the bodies -/

structure Breadcrumb.Valid (crumb : Breadcrumb) : Prop where
  tsIso : Utf8.Valid crumb.tsIso
  level : Utf8.Valid crumb.level
  message : Utf8.Valid crumb.message

noncomputable def Breadcrumb.rows (crumb : Breadcrumb) : Rows :=
  [(lit "tsIso", if crumb.tsIso = [] then none else some (.str crumb.tsIso)),
    (lit "level", some (clipped BreadcrumbRing.maxLevelBytes crumb.level)),
    (lit "message", some (clipped BreadcrumbRing.maxMessageBytes crumb.message))]

/-- The trail, oldest entry first. -/
noncomputable def breadcrumbsValue (breadcrumbs : List Breadcrumb) : Option Json :=
  if breadcrumbs = [] then none
  else some (.arr (breadcrumbs.map fun crumb => .obj (present crumb.rows)))

structure DevicePayload.Valid (d : DevicePayload) : Prop where
  model : Utf8.Valid d.model
  type : Utf8.Valid d.type
  os : Utf8.Valid d.os
  osFamily : Utf8.Valid d.osFamily
  cpu : Utf8.Valid d.cpu
  gpu : Utf8.Valid d.gpu
  gpuVendor : Utf8.Valid d.gpuVendor
  gpuVersion : Utf8.Valid d.gpuVersion
  gpuApi : Utf8.Valid d.gpuApi
  screen : Utf8.Valid d.screen
  orientation : Utf8.Valid d.orientation
  language : Utf8.Valid d.language
  engine : Utf8.Valid d.engine
  scriptingBackend : Utf8.Valid d.scriptingBackend
  platform : Utf8.Valid d.platform

noncomputable def DevicePayload.rows (d : DevicePayload) : Rows :=
  [(lit "model", optional limits.deviceModel d.model),
    (lit "type", optional limits.deviceType d.type),
    (lit "os", optional limits.deviceOs d.os),
    (lit "osFamily", optional limits.deviceOsFamily d.osFamily),
    (lit "cpu", optional limits.deviceCpu d.cpu),
    (lit "cpuCount", positive d.cpuCount),
    (lit "ramMB", positive d.ramMb),
    (lit "gpu", optional limits.deviceGpu d.gpu),
    (lit "gpuVendor", optional limits.deviceGpuVendor d.gpuVendor),
    (lit "gpuVersion", optional limits.deviceGpuVersion d.gpuVersion),
    (lit "gpuApi", optional limits.deviceGpuApi d.gpuApi),
    (lit "vramMB", positive d.vramMb),
    (lit "screen", optional limits.deviceScreen d.screen),
    (lit "screenDpi", positiveNumber printed d.screenDpi),
    (lit "refreshRate", positiveNumber printed d.refreshRate),
    (lit "orientation", optional limits.deviceOrientation d.orientation),
    (lit "fullscreen", if d.fullscreen then some (.bool true) else none),
    (lit "language", optional limits.deviceLanguage d.language),
    (lit "engine", optional limits.deviceEngine d.engine),
    (lit "scriptingBackend", optional limits.deviceScriptingBackend d.scriptingBackend),
    (lit "platform", optional limits.devicePlatform d.platform)]

/-- The device object is there when one of its members is. -/
noncomputable def deviceValue (d : DevicePayload) : Option Json :=
  if deviceHasContent d then some (.obj (present (d.rows printed))) else none

/-- The attributes that are sent: the first ones with a key. -/
noncomputable def attributeRows (attributes : List (Bytes × Bytes)) : Rows :=
  ((attributes.filter fun a => !a.1.isEmpty).take limits.eventAttributes).map fun a =>
    (Utf8.longestPrefix limits.eventAttributeKey a.1,
      some (clipped limits.eventAttributeValue a.2))

noncomputable def attributesValue (attributes : List (Bytes × Bytes)) : Option Json :=
  if attributes = [] then none else some (.obj (present (attributeRows attributes)))

/-- The entries of the per-user map. -/
noncomputable def metadataRows (entries : UserMetadataEntries) : Rows :=
  entries.map fun entry => (Utf8.longestPrefix limits.userMetadataKey entry.1,
    some (clipped limits.userMetadataValue entry.2))

/-- Pairs of valid strings. -/
def ValidPairs (pairs : List (Bytes × Bytes)) : Prop :=
  ∀ pair ∈ pairs, Utf8.Valid pair.1 ∧ Utf8.Valid pair.2

/-! ## The bodies -/

structure CrashPayload.Valid (p : CrashPayload) : Prop where
  occurredAtIso : Utf8.Valid p.occurredAtIso
  buildVersion : Utf8.Valid p.buildVersion
  os : Utf8.Valid p.os
  arch : Utf8.Valid p.arch
  signature : Utf8.Valid p.signature
  stackHint : Utf8.Valid p.stackHint
  stackTrace : Utf8.Valid p.stackTrace
  breadcrumbs : ∀ crumb ∈ p.breadcrumbs, crumb.Valid
  userId : Utf8.Valid p.userId
  priorUserId : Utf8.Valid p.priorUserId
  steamId : Utf8.Valid p.steamId
  role : Utf8.Valid p.role
  serverId : Utf8.Valid p.serverId
  matchId : Utf8.Valid p.matchId
  sessionId : Utf8.Valid p.sessionId
  environment : Utf8.Valid p.environment
  device : p.device.Valid
  crashType : Utf8.Valid p.crashType

noncomputable def CrashPayload.rows (p : CrashPayload) : Rows :=
  [(lit "occurredAtIso", some (.str p.occurredAtIso)),
    (lit "buildVersion", some (clipped limits.buildVersion p.buildVersion)),
    (lit "os", some (.str p.os)),
    (lit "arch", some (.str p.arch)),
    (lit "signature", some (clipped limits.signature p.signature)),
    (lit "stackHint", some (clipped limits.stackHint p.stackHint)),
    (lit "stackTrace", optional limits.stackTrace p.stackTrace),
    (lit "breadcrumbs", breadcrumbsValue p.breadcrumbs),
    (lit "userId", optional limits.userId p.userId),
    (lit "priorUserId", optional limits.userId p.priorUserId),
    (lit "steamId", optional limits.steamId p.steamId),
    (lit "log", some (.bool p.log)),
    (lit "role", optional limits.role p.role),
    (lit "serverId", optional limits.serverId p.serverId),
    (lit "matchId", optional limits.matchId p.matchId),
    (lit "sessionId", optional limits.sessionId p.sessionId),
    (lit "environment", optional limits.environment p.environment),
    (lit "device", deviceValue printed p.device),
    (lit "crashType", optional limits.signature p.crashType),
    (lit "osSignal", positive p.osSignal)]

structure BugReportPayload.Valid (p : BugReportPayload) : Prop where
  occurredAtIso : Utf8.Valid p.occurredAtIso
  buildVersion : Utf8.Valid p.buildVersion
  os : Utf8.Valid p.os
  arch : Utf8.Valid p.arch
  category : Utf8.Valid p.category
  message : Utf8.Valid p.message
  userId : Utf8.Valid p.userId
  priorUserId : Utf8.Valid p.priorUserId
  steamId : Utf8.Valid p.steamId
  breadcrumbs : ∀ crumb ∈ p.breadcrumbs, crumb.Valid
  role : Utf8.Valid p.role
  serverId : Utf8.Valid p.serverId
  matchId : Utf8.Valid p.matchId
  sessionId : Utf8.Valid p.sessionId
  environment : Utf8.Valid p.environment
  device : p.device.Valid

noncomputable def BugReportPayload.rows (p : BugReportPayload) : Rows :=
  [(lit "occurredAtIso", some (.str p.occurredAtIso)),
    (lit "buildVersion", some (clipped limits.buildVersion p.buildVersion)),
    (lit "os", some (.str p.os)),
    (lit "arch", some (.str p.arch)),
    (lit "category", optional limits.bugCategory p.category),
    (lit "message", some (clipped limits.bugMessage p.message)),
    (lit "userId", optional limits.userId p.userId),
    (lit "priorUserId", optional limits.userId p.priorUserId),
    (lit "steamId", optional limits.steamId p.steamId),
    (lit "breadcrumbs", breadcrumbsValue p.breadcrumbs),
    (lit "log", some (.bool p.log)),
    (lit "role", optional limits.role p.role),
    (lit "serverId", optional limits.serverId p.serverId),
    (lit "matchId", optional limits.matchId p.matchId),
    (lit "sessionId", optional limits.sessionId p.sessionId),
    (lit "environment", optional limits.environment p.environment),
    (lit "device", deviceValue printed p.device)]

structure EventPayload.Valid (p : EventPayload) : Prop where
  occurredAtIso : Utf8.Valid p.occurredAtIso
  buildVersion : Utf8.Valid p.buildVersion
  os : Utf8.Valid p.os
  arch : Utf8.Valid p.arch
  name : Utf8.Valid p.name
  userId : Utf8.Valid p.userId
  attributes : ValidPairs p.attributes
  role : Utf8.Valid p.role
  serverId : Utf8.Valid p.serverId
  matchId : Utf8.Valid p.matchId
  sessionId : Utf8.Valid p.sessionId
  environment : Utf8.Valid p.environment

noncomputable def EventPayload.rows (p : EventPayload) : Rows :=
  [(lit "occurredAtIso", some (.str p.occurredAtIso)),
    (lit "buildVersion", some (clipped limits.buildVersion p.buildVersion)),
    (lit "os", some (.str p.os)),
    (lit "arch", some (.str p.arch)),
    (lit "name", some (clipped limits.eventName p.name)),
    (lit "userId", optional limits.userId p.userId),
    (lit "attributes", attributesValue p.attributes),
    (lit "role", optional limits.role p.role),
    (lit "serverId", optional limits.serverId p.serverId),
    (lit "matchId", optional limits.matchId p.matchId),
    (lit "sessionId", optional limits.sessionId p.sessionId),
    (lit "environment", optional limits.environment p.environment)]

/-- The value of a metric is finite. -/
structure MetricPayload.Valid (p : MetricPayload) : Prop where
  name : Utf8.Valid p.name
  value : p.value.isFinite = true
  unit : Utf8.Valid p.unit
  occurredAtIso : Utf8.Valid p.occurredAtIso
  buildVersion : Utf8.Valid p.buildVersion
  os : Utf8.Valid p.os
  arch : Utf8.Valid p.arch
  userId : Utf8.Valid p.userId
  role : Utf8.Valid p.role
  serverId : Utf8.Valid p.serverId
  matchId : Utf8.Valid p.matchId
  sessionId : Utf8.Valid p.sessionId
  environment : Utf8.Valid p.environment

noncomputable def MetricPayload.rows (p : MetricPayload) : Rows :=
  [(lit "name", some (clipped limits.metricName p.name)),
    (lit "value", some (.num (printed p.value))),
    (lit "unit", optional limits.metricUnit p.unit),
    (lit "occurredAtIso", some (.str p.occurredAtIso)),
    (lit "buildVersion", some (clipped limits.buildVersion p.buildVersion)),
    (lit "os", some (.str p.os)),
    (lit "arch", some (.str p.arch)),
    (lit "userId", optional limits.userId p.userId),
    (lit "role", optional limits.role p.role),
    (lit "serverId", optional limits.serverId p.serverId),
    (lit "matchId", optional limits.matchId p.matchId),
    (lit "sessionId", optional limits.sessionId p.sessionId),
    (lit "environment", optional limits.environment p.environment)]

/-- The metadata text is empty, or that of a map of valid strings; sampled rates are finite. -/
structure HeartbeatPayload.Valid (p : HeartbeatPayload) (metadata : Option UserMetadataEntries) :
    Prop where
  sessionId : Utf8.Valid p.sessionId
  occurredAtIso : Utf8.Valid p.occurredAtIso
  buildVersion : Utf8.Valid p.buildVersion
  os : Utf8.Valid p.os
  arch : Utf8.Valid p.arch
  userId : Utf8.Valid p.userId
  priorUserId : Utf8.Valid p.priorUserId
  metadataJson : p.metadataJson = (metadata.map buildUserMetadataJson).getD []
  metadata : ∀ entries ∈ metadata, ValidPairs entries
  frameStats : ∀ stats ∈ p.frameStats, stats.1.isFinite = true ∧ stats.2.1.isFinite = true
  role : Utf8.Valid p.role
  serverId : Utf8.Valid p.serverId
  matchId : Utf8.Valid p.matchId
  region : Utf8.Valid p.region
  hostname : Utf8.Valid p.hostname
  environment : Utf8.Valid p.environment
  device : p.device.Valid

noncomputable def HeartbeatPayload.rows (p : HeartbeatPayload)
    (metadata : Option UserMetadataEntries) : Rows :=
  [(lit "sessionId", some (clipped limits.sessionId p.sessionId)),
    (lit "occurredAtIso", some (.str p.occurredAtIso)),
    (lit "buildVersion", some (clipped limits.buildVersion p.buildVersion)),
    (lit "os", some (.str p.os)),
    (lit "arch", some (.str p.arch)),
    (lit "userId", optional limits.userId p.userId),
    (lit "priorUserId", optional limits.userId p.priorUserId),
    (lit "metadata", metadata.map fun entries => .obj (present (metadataRows entries))),
    (lit "fpsAvg", p.frameStats.map fun stats => .num (printed stats.1)),
    (lit "slowFramePct", p.frameStats.map fun stats => .num (printed stats.2.1)),
    (lit "hitchCount", p.frameStats.map fun stats => .num (intText stats.2.2.1)),
    (lit "worstFrameMs", p.frameStats.map fun stats => .num (intText stats.2.2.2)),
    (lit "role", optional limits.role p.role),
    (lit "serverId", optional limits.serverId p.serverId),
    (lit "matchId", optional limits.matchId p.matchId),
    (lit "region", optional limits.region p.region),
    (lit "hostname", optional limits.hostname p.hostname),
    (lit "environment", optional limits.environment p.environment),
    (lit "device", deviceValue printed p.device)]

end Tombstone
