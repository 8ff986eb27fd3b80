import Tombstone.JsonWriter

/- What goes into the wire bodies (`payloads.h`, `payloads.cpp`): the schema maxima, the
   payload records, the per-user metadata map, and the bodies the worker and the ack
   handler build themselves. -/
namespace Tombstone

namespace limits

def userId : Nat := 128
def steamId : Nat := 32
def sessionId : Nat := 64
def serverId : Nat := 128
def matchId : Nat := 128
def pullNonce : Nat := 256
def environment : Nat := 64
def region : Nat := 64
def hostname : Nat := 255
def userMetadataKeys : Nat := 16
def userMetadataKey : Nat := 64
def userMetadataValue : Nat := 512
def deviceModel : Nat := 256
def deviceType : Nat := 32
def deviceOs : Nat := 256
def deviceOsFamily : Nat := 48
def deviceCpu : Nat := 256
def deviceGpu : Nat := 256
def deviceGpuVendor : Nat := 256
def deviceGpuVersion : Nat := 256
def deviceGpuApi : Nat := 64
def deviceScreen : Nat := 32
def deviceOrientation : Nat := 32
def deviceLanguage : Nat := 48
def deviceEngine : Nat := 48
def deviceScriptingBackend : Nat := 32
def devicePlatform : Nat := 48

end limits

/-- An IEEE-754 double, by its bits. -/
structure Double where
  bits : UInt64 := 0
  deriving DecidableEq, Repr

/-- `std::isfinite(d) && d > 0.0`: the sign bit is clear, and the value is neither zero nor
infinite nor a NaN. -/
def Double.finitePositive (d : Double) : Bool :=
  decide (0 < d.bits ∧ d.bits < 0x7FF0000000000000)

/-- The device specs as they are cached (`DevicePayload`). -/
structure DevicePayload where
  model : Bytes := []
  type : Bytes := []
  os : Bytes := []
  osFamily : Bytes := []
  cpu : Bytes := []
  cpuCount : Int := 0
  ramMb : Int := 0
  gpu : Bytes := []
  gpuVendor : Bytes := []
  gpuVersion : Bytes := []
  gpuApi : Bytes := []
  vramMb : Int := 0
  screen : Bytes := []
  screenDpi : Double := {}
  refreshRate : Double := {}
  orientation : Bytes := []
  fullscreen : Bool := false
  language : Bytes := []
  engine : Bytes := []
  scriptingBackend : Bytes := []
  platform : Bytes := []
  deriving DecidableEq, Repr

/-- `device_has_content`. -/
def deviceHasContent (d : DevicePayload) : Bool :=
  !d.model.isEmpty || !d.type.isEmpty || !d.os.isEmpty || !d.osFamily.isEmpty ||
    !d.cpu.isEmpty || decide (0 < d.cpuCount) || decide (0 < d.ramMb) || !d.gpu.isEmpty ||
    !d.gpuVendor.isEmpty || !d.gpuVersion.isEmpty || !d.gpuApi.isEmpty ||
    decide (0 < d.vramMb) || !d.screen.isEmpty || d.screenDpi.finitePositive ||
    d.refreshRate.finitePositive || !d.orientation.isEmpty || d.fullscreen ||
    !d.language.isEmpty || !d.engine.isEmpty || !d.scriptingBackend.isEmpty ||
    !d.platform.isEmpty

/-- The caller's specs (`tombstone_device_t`): null strings are unset. -/
structure DeviceSpecs where
  model : CString := none
  type : CString := none
  os : CString := none
  osFamily : CString := none
  cpu : CString := none
  cpuCount : Int := 0
  ramMb : Int := 0
  gpu : CString := none
  gpuVendor : CString := none
  gpuVersion : CString := none
  gpuApi : CString := none
  vramMb : Int := 0
  screen : CString := none
  screenDpi : Double := {}
  refreshRate : Double := {}
  orientation : CString := none
  fullscreen : Int := 0
  language : CString := none
  engine : CString := none
  scriptingBackend : CString := none
  platform : CString := none
  deriving DecidableEq, Repr

/-- The copy `Client::set_device` makes: a null device clears the cache. -/
def DevicePayload.ofSpecs : Option DeviceSpecs → DevicePayload
  | none => {}
  | some d =>
    { model := clamped d.model limits.deviceModel
      type := clamped d.type limits.deviceType
      os := clamped d.os limits.deviceOs
      osFamily := clamped d.osFamily limits.deviceOsFamily
      cpu := clamped d.cpu limits.deviceCpu
      cpuCount := d.cpuCount
      ramMb := d.ramMb
      gpu := clamped d.gpu limits.deviceGpu
      gpuVendor := clamped d.gpuVendor limits.deviceGpuVendor
      gpuVersion := clamped d.gpuVersion limits.deviceGpuVersion
      gpuApi := clamped d.gpuApi limits.deviceGpuApi
      vramMb := d.vramMb
      screen := clamped d.screen limits.deviceScreen
      screenDpi := d.screenDpi
      refreshRate := d.refreshRate
      orientation := clamped d.orientation limits.deviceOrientation
      fullscreen := decide (d.fullscreen ≠ 0)
      language := clamped d.language limits.deviceLanguage
      engine := clamped d.engine limits.deviceEngine
      scriptingBackend := clamped d.scriptingBackend limits.deviceScriptingBackend
      platform := clamped d.platform limits.devicePlatform }

/-! ## The metadata map -/

/-- Per-user metadata in insertion order (`UserMetadataEntries`). -/
abbrev UserMetadataEntries := List (Bytes × Bytes)

/-- The duplicate scan of `clamp_user_metadata`: the first entry under `key` takes the new
value, or none has that key. -/
def replaceValue (key value : Bytes) : UserMetadataEntries → Option UserMetadataEntries
  | [] => none
  | entry :: rest =>
    if entry.1 = key then some ((key, value) :: rest)
    else (replaceValue key value rest).map (entry :: ·)

/-- The loop of `clamp_user_metadata` over the pairs of the two arrays. -/
def clampEntries : UserMetadataEntries → List (CString × CString) → UserMetadataEntries
  | out, [] => out
  | out, (key, value) :: rest =>
    match key, value with
    | some (k :: ks), some (v :: vs) =>
      let key := utf8SafeTruncate (k :: ks) limits.userMetadataKey
      let value := utf8SafeTruncate (v :: vs) limits.userMetadataValue
      match replaceValue key value out with
      | some out' => clampEntries out' rest
      | none =>
        if limits.userMetadataKeys ≤ out.length then out
        else clampEntries (out ++ [(key, value)]) rest
    | _, _ => clampEntries out rest

/-- `clamp_user_metadata`: `none` stands for a call with null arrays or no entries. -/
def clampUserMetadata (entries : Option (List (CString × CString))) : UserMetadataEntries :=
  clampEntries [] (entries.getD [])

/-- `build_user_metadata_json`: the canonical text of the map. -/
def buildUserMetadataJson (entries : UserMetadataEntries) : Bytes :=
  let body := entries.foldl (fun (w : JsonWriter) entry =>
    w.stringField (utf8SafeTruncate entry.1 limits.userMetadataKey)
      (utf8SafeTruncate entry.2 limits.userMetadataValue)) (JsonWriter.beginObject {})
  body.endObject.out

@[simp] theorem buildUserMetadataJson_nil : buildUserMetadataJson [] = lit "\x7b\x7d" := by
  decide

theorem buildUserMetadataJson_ne_nil (entries : UserMetadataEntries) :
    buildUserMetadataJson entries ≠ [] := by
  simp [buildUserMetadataJson, JsonWriter.endObject, JsonWriter.emit, JsonWriter.popScope]

/-! ## Bodies built by the delivery side -/

/-- `build_batch_envelope`. -/
def buildBatchEnvelope (sentAtIso : Bytes) (items : List Bytes) : Bytes :=
  let head := ((JsonWriter.beginObject {}).stringField (lit "sentAtIso") sentAtIso).beginArray
    (lit "items")
  (items.foldl JsonWriter.rawElement head).endArray.endObject.out

/-- `build_pull_fulfill_json`. -/
def buildPullFulfillJson (userId sessionId matchId serverId nonce : Bytes) (nonceExpiry : Int) :
    Bytes :=
  let ids := ((((JsonWriter.beginObject {}).optionalField (lit "userId") userId limits.userId
    ).optionalField (lit "sessionId") sessionId limits.sessionId
    ).optionalField (lit "matchId") matchId limits.matchId
    ).optionalField (lit "serverId") serverId limits.serverId
  let credentials := if nonce.isEmpty then ids
    else (ids.clampedField (lit "nonce") nonce limits.pullNonce).intField (lit "nonceExpiry") nonceExpiry
  credentials.endObject.out

/-- `pull_request_targets_client`. -/
def pullRequestTargetsClient (targetType targetValue userId sessionId matchId serverId : Bytes) :
    Bool :=
  if targetValue.isEmpty then false
  else if targetType = lit "userId" then !userId.isEmpty && userId == targetValue
  else if targetType = lit "sessionId" then !sessionId.isEmpty && sessionId == targetValue
  else if targetType = lit "matchId" then !matchId.isEmpty && matchId == targetValue
  else if targetType = lit "server" then !serverId.isEmpty && serverId == targetValue
  else false

/-! ## Payload records -/

/-- What one heartbeat body is built from (`HeartbeatPayload`). An empty `metadataJson` is
an omitted member; the frame statistics are `none` when no frame was sampled. -/
structure HeartbeatPayload where
  sessionId : Bytes
  occurredAtIso : Bytes
  buildVersion : Bytes
  os : Bytes
  arch : Bytes
  userId : Bytes := []
  priorUserId : Bytes := []
  metadataJson : Bytes := []
  frameStats : Option (Double × Double × Int × Int) := none
  role : Bytes := []
  serverId : Bytes := []
  matchId : Bytes := []
  region : Bytes := []
  hostname : Bytes := []
  environment : Bytes := []
  device : DevicePayload := {}
  deriving DecidableEq, Repr

end Tombstone
