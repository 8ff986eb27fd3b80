import Tombstone.JsonFields

/- The wire bodies decode to their contract.

   Part by part and then body by body, what a builder writes is the table of its members
   (`deviceObject_rows`, `breadcrumbsField_rows`, `attributeFields_rows`, ...), so that every
   body is UTF-8 and reads back as exactly the members that are to be present
   (`bodies_decode`), and the device object has members wherever it is written
   (`deviceHasContent_iff`). -/
namespace Tombstone.BodiesDecode
open Json (Rows present)
open JsonFields

variable {base w : JsonWriter} {rows : Rows} {printed : Double → Bytes}

/-! ## The parts -/

theorem commonContext_rows (h : InObject base rows w) {occurredAtIso buildVersion os arch : Bytes}
    (hstamp : Utf8.Valid occurredAtIso) (hversion : Utf8.Valid buildVersion) (hos : Utf8.Valid os)
    (harch : Utf8.Valid arch) :
    InObject base (rows ++ [(lit "occurredAtIso", some (.str occurredAtIso))]
        ++ [(lit "buildVersion", some (clipped limits.buildVersion buildVersion))]
        ++ [(lit "os", some (.str os))] ++ [(lit "arch", some (.str arch))])
      (w.commonContext occurredAtIso buildVersion os arch) := by
  have h := h.stringField (lit "occurredAtIso") hstamp
  have h := h.clampedField (lit "buildVersion") limits.buildVersion hversion
  have h := h.stringField (lit "os") hos
  exact h.stringField (lit "arch") harch

theorem correlationFields_rows (h : InObject base rows w) {role serverId matchId sessionId : Bytes}
    (hrole : Utf8.Valid role) (hserver : Utf8.Valid serverId) (hmatch : Utf8.Valid matchId)
    (hsession : Utf8.Valid sessionId) :
    InObject base (rows ++ [(lit "role", optional limits.role role)]
        ++ [(lit "serverId", optional limits.serverId serverId)]
        ++ [(lit "matchId", optional limits.matchId matchId)]
        ++ [(lit "sessionId", optional limits.sessionId sessionId)])
      (w.correlationFields role serverId matchId sessionId) := by
  have h := h.optionalField (lit "role") limits.role hrole
  have h := h.optionalField (lit "serverId") limits.serverId hserver
  have h := h.optionalField (lit "matchId") limits.matchId hmatch
  exact h.optionalField (lit "sessionId") limits.sessionId hsession

/-- **One crumb** is an object of up to three members. -/
theorem crumbElement_rows {elements : List Json} (h : InArray base elements w) {crumb : Breadcrumb}
    (hcrumb : crumb.Valid) :
    InArray base (elements ++ [.obj (present crumb.rows)]) (w.crumbElement crumb) := by
  have hopened := InObject.opened w.elementPrefix
  have hstamped : InObject w.elementPrefix
      ([] ++ [(lit "tsIso", if crumb.tsIso = [] then none else some (.str crumb.tsIso))])
      (if crumb.tsIso.isEmpty then w.beginObject else w.beginObject.stringField (lit "tsIso") crumb.tsIso) := by
    cases htsIso : crumb.tsIso with
    | nil => exact hopened.absent _
    | cons c cs => exact hopened.stringField (lit "tsIso") (htsIso ▸ hcrumb.tsIso)
  have hlevel := hstamped.clampedField (lit "level") BreadcrumbRing.maxLevelBytes hcrumb.level
  have hmessage := hlevel.clampedField (lit "message") BreadcrumbRing.maxMessageBytes hcrumb.message
  exact h.object hmessage

theorem crumbElements_rows {elements : List Json} {breadcrumbs : List Breadcrumb}
    (hcrumbs : ∀ crumb ∈ breadcrumbs, crumb.Valid) (h : InArray base elements w) :
    InArray base (elements ++ breadcrumbs.map fun crumb => .obj (present crumb.rows))
      (breadcrumbs.foldl JsonWriter.crumbElement w) := by
  induction breadcrumbs generalizing elements w with
  | nil => rwa [List.map_nil, List.append_nil]
  | cons crumb crumbs ih =>
    have hfirst := crumbElement_rows h (hcrumbs crumb List.mem_cons_self)
    have hrest := ih (fun c hc => hcrumbs c (List.mem_cons_of_mem crumb hc)) hfirst
    rwa [List.append_assoc] at hrest

theorem breadcrumbsField_rows (h : InObject base rows w) {breadcrumbs : List Breadcrumb}
    (hcrumbs : ∀ crumb ∈ breadcrumbs, crumb.Valid) :
    InObject base (rows ++ [(lit "breadcrumbs", breadcrumbsValue breadcrumbs)])
      (w.breadcrumbsField breadcrumbs) := by
  cases breadcrumbs with
  | nil => exact h.absent _
  | cons crumb crumbs =>
    have hopened := InArray.opened (w.namePrefix (lit "breadcrumbs"))
    exact h.array (lit "breadcrumbs") (crumbElements_rows hcrumbs hopened)

/-- **The device object** is written with the members it has. -/
theorem deviceObject_rows (h : InObject base rows w) (hprinted : PrintsNumbers printed)
    {d : DevicePayload} (hd : d.Valid) :
    InObject base (rows ++ [(lit "device", deviceValue printed d)]) (w.deviceObject printed d) := by
  unfold deviceValue JsonWriter.deviceObject
  cases deviceHasContent d with
  | false => exact h.absent _
  | true =>
    have hin := InObject.opened (w.namePrefix (lit "device"))
    have hin := hin.optionalField (lit "model") limits.deviceModel hd.model
    have hin := hin.optionalField (lit "type") limits.deviceType hd.type
    have hin := hin.optionalField (lit "os") limits.deviceOs hd.os
    have hin := hin.optionalField (lit "osFamily") limits.deviceOsFamily hd.osFamily
    have hin := hin.optionalField (lit "cpu") limits.deviceCpu hd.cpu
    have hin := hin.optionalIntField (lit "cpuCount") d.cpuCount
    have hin := hin.optionalIntField (lit "ramMB") d.ramMb
    have hin := hin.optionalField (lit "gpu") limits.deviceGpu hd.gpu
    have hin := hin.optionalField (lit "gpuVendor") limits.deviceGpuVendor hd.gpuVendor
    have hin := hin.optionalField (lit "gpuVersion") limits.deviceGpuVersion hd.gpuVersion
    have hin := hin.optionalField (lit "gpuApi") limits.deviceGpuApi hd.gpuApi
    have hin := hin.optionalIntField (lit "vramMB") d.vramMb
    have hin := hin.optionalField (lit "screen") limits.deviceScreen hd.screen
    have hin := hin.optionalNumberField hprinted (lit "screenDpi") d.screenDpi
    have hin := hin.optionalNumberField hprinted (lit "refreshRate") d.refreshRate
    have hin := hin.optionalField (lit "orientation") limits.deviceOrientation hd.orientation
    have hin := hin.flagField (lit "fullscreen") d.fullscreen
    have hin := hin.optionalField (lit "language") limits.deviceLanguage hd.language
    have hin := hin.optionalField (lit "engine") limits.deviceEngine hd.engine
    have hin := hin.optionalField (lit "scriptingBackend") limits.deviceScriptingBackend
      hd.scriptingBackend
    have hin := hin.optionalField (lit "platform") limits.devicePlatform hd.platform
    simp only [List.nil_append, List.cons_append] at hin
    exact h.object (lit "device") hin

/-- The loop over the attributes, `written` of them already written. -/
theorem attributeFields_rows {attributes : List (Bytes × Bytes)} (hvalid : ValidPairs attributes)
    (h : InObject base rows w) (written : Nat) :
    InObject base (rows ++ ((attributes.filter fun a => !a.1.isEmpty).take
        (limits.eventAttributes - written)).map fun a =>
          (Utf8.longestPrefix limits.eventAttributeKey a.1,
            some (clipped limits.eventAttributeValue a.2)))
      (w.attributeFields written attributes) := by
  induction attributes generalizing rows w written with
  | nil => simpa [JsonWriter.attributeFields] using h
  | cons a attributes ih =>
    obtain ⟨key, value⟩ := a
    obtain ⟨hkey, hvalue⟩ := hvalid (key, value) List.mem_cons_self
    have hrest : ValidPairs attributes := fun a ha => hvalid a (List.mem_cons_of_mem _ ha)
    rw [JsonWriter.attributeFields]
    split
    · -- the loop stops at the limit
      rename_i hfull
      rw [Nat.sub_eq_zero_of_le hfull, List.take_zero, List.map_nil, List.append_nil]
      exact h
    · rename_i hroom
      obtain ⟨room, hroom⟩ : ∃ room, limits.eventAttributes - written = room + 1 :=
        ⟨limits.eventAttributes - written - 1, by omega⟩
      -- a pair without a key is passed over, and does not count
      cases hempty : key.isEmpty with
      | true =>
        rw [List.filter_cons_of_neg (by simp [hempty])]
        exact ih hrest h written
      | false =>
        have hone := h.stringField (utf8SafeTruncate key limits.eventAttributeKey)
          (utf8SafeTruncate_valid hvalue limits.eventAttributeValue)
          (utf8SafeTruncate_valid hkey limits.eventAttributeKey)
        rw [utf8SafeTruncate_eq hkey, ← clipped_eq hvalue] at hone
        have hmore := ih hrest hone (written + 1)
        rw [List.filter_cons_of_pos (by simp [hempty]), hroom, List.take_succ_cons, List.map_cons]
        rw [List.append_assoc, Nat.sub_add_eq, hroom] at hmore
        rw [← utf8SafeTruncate_eq hkey] at hmore ⊢
        exact hmore

theorem attributes_rows (h : InObject base rows w) {attributes : List (Bytes × Bytes)}
    (hvalid : ValidPairs attributes) :
    InObject base (rows ++ [(lit "attributes", attributesValue attributes)])
      (if attributes.isEmpty then w
      else ((w.beginObjectField (lit "attributes")).attributeFields 0 attributes).endObject) := by
  cases attributes with
  | nil => exact h.absent _
  | cons a attributes =>
    have hopened := InObject.opened (w.namePrefix (lit "attributes"))
    exact h.object (lit "attributes") (attributeFields_rows hvalid hopened 0)

theorem metadataFields_rows {entries : UserMetadataEntries} (hvalid : ValidPairs entries)
    (h : InObject base rows w) :
    InObject base (rows ++ metadataRows entries) (entries.foldl (fun (w : JsonWriter) entry =>
      w.stringField (utf8SafeTruncate entry.1 limits.userMetadataKey)
        (utf8SafeTruncate entry.2 limits.userMetadataValue)) w) := by
  induction entries generalizing rows w with
  | nil => rwa [metadataRows, List.map_nil, List.append_nil]
  | cons entry entries ih =>
    obtain ⟨hkey, hvalue⟩ := hvalid entry List.mem_cons_self
    have hone := h.stringField (utf8SafeTruncate entry.1 limits.userMetadataKey)
      (utf8SafeTruncate_valid hvalue limits.userMetadataValue)
      (utf8SafeTruncate_valid hkey limits.userMetadataKey)
    have hmore := ih (fun e he => hvalid e (List.mem_cons_of_mem _ he)) hone
    rw [List.append_assoc, ← clipped_eq hvalue] at hmore
    rw [utf8SafeTruncate_eq hkey] at hmore
    rw [List.foldl_cons, utf8SafeTruncate_eq hkey]
    exact hmore

/-- The text of the map is that of an object of its entries. -/
theorem buildUserMetadataJson_rows {entries : UserMetadataEntries} (hvalid : ValidPairs entries) :
    buildUserMetadataJson entries = Json.render escaping (.obj (present (metadataRows entries))) ∧
      (Json.obj (present (metadataRows entries))).Wf := by
  have hbody := metadataFields_rows hvalid (InObject.opened {})
  rw [List.nil_append] at hbody
  refine ⟨?_, hbody.wf⟩
  exact congrArg JsonWriter.out hbody.close

theorem metadata_rows (h : InObject base rows w) {metadataJson : Bytes}
    {metadata : Option UserMetadataEntries}
    (htext : metadataJson = (metadata.map buildUserMetadataJson).getD [])
    (hvalid : ∀ entries ∈ metadata, ValidPairs entries) :
    InObject base (rows ++ [(lit "metadata", metadata.map fun entries =>
        .obj (present (metadataRows entries)))])
      (if metadataJson.isEmpty then w else w.rawField (lit "metadata") metadataJson) := by
  subst htext
  cases metadata with
  | none => exact h.absent _
  | some entries =>
    obtain ⟨hbuilt, hwf⟩ := buildUserMetadataJson_rows (hvalid entries rfl)
    have hne : (buildUserMetadataJson entries).isEmpty = false := by
      simpa using buildUserMetadataJson_ne_nil entries
    have hname : Utf8.Valid (lit "metadata") := Utf8.valid_literal rfl
    have hrow := h.row hname hwf
    rw [← hbuilt] at hrow
    show InObject base _ (if (buildUserMetadataJson entries).isEmpty then w else _)
    rw [hne]
    exact hrow

theorem frameStats_rows (h : InObject base rows w) (hprinted : PrintsNumbers printed)
    {frameStats : Option (Double × Double × Int × Int)} :
    (∀ stats ∈ frameStats, stats.1.isFinite = true ∧ stats.2.1.isFinite = true) →
    InObject base (rows ++ [(lit "fpsAvg", frameStats.map fun stats => .num (printed stats.1))]
        ++ [(lit "slowFramePct", frameStats.map fun stats => .num (printed stats.2.1))]
        ++ [(lit "hitchCount", frameStats.map fun stats => .num (intText stats.2.2.1))]
        ++ [(lit "worstFrameMs", frameStats.map fun stats => .num (intText stats.2.2.2))])
      (match frameStats with
      | none => w
      | some (fpsAvg, slowFramePct, hitchCount, worstFrameMs) =>
        (((w.numberField printed (lit "fpsAvg") fpsAvg
          ).numberField printed (lit "slowFramePct") slowFramePct
          ).intField (lit "hitchCount") hitchCount).intField (lit "worstFrameMs") worstFrameMs) := by
  intro hfinite
  cases frameStats with
  | none => exact (((h.absent _).absent _).absent _).absent _
  | some stats =>
    obtain ⟨hfps, hslow⟩ := hfinite stats rfl
    have h := h.numberField hprinted (lit "fpsAvg") hfps
    have h := h.numberField hprinted (lit "slowFramePct") hslow
    have h := h.intField (lit "hitchCount") stats.2.2.1
    exact h.intField (lit "worstFrameMs") stats.2.2.2

/-! ## What makes the device object empty -/

theorem present_eq_nil : present rows = [] ↔ ∀ r ∈ rows, r.2 = none := by
  simp [present]

theorem optional_eq_none {limit : Nat} {value : Bytes} :
    optional limit value = none ↔ value.isEmpty = true := by
  simp [optional]

theorem positive_eq_none {n : Int} : positive n = none ↔ decide (0 < n) = false := by
  simp [positive]

theorem positiveNumber_eq_none {d : Double} :
    positiveNumber printed d = none ↔ d.finitePositive = false := by
  simp [positiveNumber]

theorem flag_eq_none {b : Bool} : (if b then some (Json.bool true) else none) = none ↔ b = false := by
  simp

/-- **`device_has_content`** says whether a member of the device object is present. -/
theorem deviceHasContent_iff (printed : Double → Bytes) (d : DevicePayload) :
    deviceHasContent d = true ↔ present (d.rows printed) ≠ [] := by
  have habsent : deviceHasContent d = false ↔ present (d.rows printed) = [] := by
    rw [present_eq_nil, DevicePayload.rows]
    simp only [List.forall_mem_cons, List.not_mem_nil, false_imp_iff, implies_true, and_true,
      optional_eq_none, positive_eq_none, positiveNumber_eq_none, flag_eq_none]
    -- the condition list of the function, one disjunct for each member
    simp only [deviceHasContent, Bool.or_eq_false_iff, Bool.not_eq_false', and_assoc]
  rw [← Bool.not_eq_false, not_iff_not]
  exact habsent

/-! ## The bodies -/

theorem buildCrashJson_decodes (hprinted : PrintsNumbers printed) {p : CrashPayload} (hp : p.Valid) :
    Json.Decodes (buildCrashJson printed p) (.obj (present (p.rows printed))) := by
  have h := commonContext_rows (InObject.opened {}) hp.occurredAtIso hp.buildVersion hp.os hp.arch
  have h := h.clampedField (lit "signature") limits.signature hp.signature
  have h := h.clampedField (lit "stackHint") limits.stackHint hp.stackHint
  have h := h.optionalField (lit "stackTrace") limits.stackTrace hp.stackTrace
  have h := breadcrumbsField_rows h hp.breadcrumbs
  have h := h.optionalField (lit "userId") limits.userId hp.userId
  have h := h.optionalField (lit "priorUserId") limits.userId hp.priorUserId
  have h := h.optionalField (lit "steamId") limits.steamId hp.steamId
  have h := h.boolField (lit "log") p.log
  have h := correlationFields_rows h hp.role hp.serverId hp.matchId hp.sessionId
  have h := h.optionalField (lit "environment") limits.environment hp.environment
  have h := deviceObject_rows h hprinted hp.device
  have h := h.optionalField (lit "crashType") limits.signature hp.crashType
  have h := h.optionalIntField (lit "osSignal") p.osSignal
  simp only [List.nil_append, List.cons_append] at h
  exact h.decodes

theorem buildBugReportJson_decodes (hprinted : PrintsNumbers printed) {p : BugReportPayload}
    (hp : p.Valid) :
    Json.Decodes (buildBugReportJson printed p) (.obj (present (p.rows printed))) := by
  have h := commonContext_rows (InObject.opened {}) hp.occurredAtIso hp.buildVersion hp.os hp.arch
  have h := h.optionalField (lit "category") limits.bugCategory hp.category
  have h := h.clampedField (lit "message") limits.bugMessage hp.message
  have h := h.optionalField (lit "userId") limits.userId hp.userId
  have h := h.optionalField (lit "priorUserId") limits.userId hp.priorUserId
  have h := h.optionalField (lit "steamId") limits.steamId hp.steamId
  have h := breadcrumbsField_rows h hp.breadcrumbs
  have h := h.boolField (lit "log") p.log
  have h := correlationFields_rows h hp.role hp.serverId hp.matchId hp.sessionId
  have h := h.optionalField (lit "environment") limits.environment hp.environment
  have h := deviceObject_rows h hprinted hp.device
  simp only [List.nil_append, List.cons_append] at h
  exact h.decodes

theorem buildEventJson_decodes {p : EventPayload} (hp : p.Valid) :
    Json.Decodes (buildEventJson p) (.obj (present p.rows)) := by
  have h := commonContext_rows (InObject.opened {}) hp.occurredAtIso hp.buildVersion hp.os hp.arch
  have h := h.clampedField (lit "name") limits.eventName hp.name
  have h := h.optionalField (lit "userId") limits.userId hp.userId
  have h := attributes_rows h hp.attributes
  have h := correlationFields_rows h hp.role hp.serverId hp.matchId hp.sessionId
  have h := h.optionalField (lit "environment") limits.environment hp.environment
  simp only [List.nil_append, List.cons_append] at h
  exact h.decodes

theorem buildMetricJson_decodes (hprinted : PrintsNumbers printed) {p : MetricPayload}
    (hp : p.Valid) : Json.Decodes (buildMetricJson printed p) (.obj (present (p.rows printed))) := by
  have h := InObject.opened {}
  have h := h.clampedField (lit "name") limits.metricName hp.name
  have h := h.numberField hprinted (lit "value") hp.value
  have h := h.optionalField (lit "unit") limits.metricUnit hp.unit
  have h := h.stringField (lit "occurredAtIso") hp.occurredAtIso
  have h := h.clampedField (lit "buildVersion") limits.buildVersion hp.buildVersion
  have h := h.stringField (lit "os") hp.os
  have h := h.stringField (lit "arch") hp.arch
  have h := h.optionalField (lit "userId") limits.userId hp.userId
  have h := correlationFields_rows h hp.role hp.serverId hp.matchId hp.sessionId
  have h := h.optionalField (lit "environment") limits.environment hp.environment
  simp only [List.nil_append, List.cons_append] at h
  exact h.decodes

theorem buildHeartbeatJson_decodes (hprinted : PrintsNumbers printed) {p : HeartbeatPayload}
    {metadata : Option UserMetadataEntries} (hp : p.Valid metadata) :
    Json.Decodes (buildHeartbeatJson printed p) (.obj (present (p.rows printed metadata))) := by
  have h := InObject.opened {}
  have h := h.clampedField (lit "sessionId") limits.sessionId hp.sessionId
  have h := h.stringField (lit "occurredAtIso") hp.occurredAtIso
  have h := h.clampedField (lit "buildVersion") limits.buildVersion hp.buildVersion
  have h := h.stringField (lit "os") hp.os
  have h := h.stringField (lit "arch") hp.arch
  have h := h.optionalField (lit "userId") limits.userId hp.userId
  have h := h.optionalField (lit "priorUserId") limits.userId hp.priorUserId
  have h := metadata_rows h hp.metadataJson hp.metadata
  have h := frameStats_rows h hprinted hp.frameStats
  have h := h.optionalField (lit "role") limits.role hp.role
  have h := h.optionalField (lit "serverId") limits.serverId hp.serverId
  have h := h.optionalField (lit "matchId") limits.matchId hp.matchId
  have h := h.optionalField (lit "region") limits.region hp.region
  have h := h.optionalField (lit "hostname") limits.hostname hp.hostname
  have h := h.optionalField (lit "environment") limits.environment hp.environment
  have h := deviceObject_rows h hprinted hp.device
  simp only [List.nil_append, List.cons_append] at h
  exact h.decodes

/-- **The wire bodies decode to their contract**: every builder writes one UTF-8 text of an object
that has exactly the members of its table, and the device object, where it is one of them, is not
empty. -/
theorem bodies_decode (printed : Double → Bytes) (hprinted : PrintsNumbers printed) :
    (∀ p : CrashPayload, p.Valid →
      Json.Decodes (buildCrashJson printed p) (.obj (present (p.rows printed)))) ∧
    (∀ p : BugReportPayload, p.Valid →
      Json.Decodes (buildBugReportJson printed p) (.obj (present (p.rows printed)))) ∧
    (∀ p : EventPayload, p.Valid → Json.Decodes (buildEventJson p) (.obj (present p.rows))) ∧
    (∀ p : MetricPayload, p.Valid →
      Json.Decodes (buildMetricJson printed p) (.obj (present (p.rows printed)))) ∧
    (∀ (p : HeartbeatPayload) (metadata : Option UserMetadataEntries), p.Valid metadata →
      Json.Decodes (buildHeartbeatJson printed p) (.obj (present (p.rows printed metadata)))) ∧
    ∀ d : DevicePayload, deviceHasContent d = true ↔ present (d.rows printed) ≠ [] :=
  ⟨fun _ hp => buildCrashJson_decodes hprinted hp,
    fun _ hp => buildBugReportJson_decodes hprinted hp,
    fun _ hp => buildEventJson_decodes hp,
    fun _ hp => buildMetricJson_decodes hprinted hp,
    fun _ _ hp => buildHeartbeatJson_decodes hprinted hp,
    deviceHasContent_iff printed⟩

/-! One payload of each kind; every double in them is 0, which is printed as `0`. -/

def plainCrash : CrashPayload where
  occurredAtIso := lit "2026-01-01T00:00:00Z"
  buildVersion := lit "1.0"
  os := lit "linux"
  arch := lit "x64"
  signature := lit "abort"
  stackHint := lit "main"
  breadcrumbs := [{ level := lit "Info", message := lit "start" }]
  device := { model := lit "desk", cpuCount := 8 }

def plainBugReport : BugReportPayload where
  occurredAtIso := lit "2026-01-01T00:00:00Z"
  buildVersion := lit "1.0"
  os := lit "linux"
  arch := lit "x64"
  message := lit "stuck"

def plainEvent : EventPayload where
  occurredAtIso := lit "2026-01-01T00:00:00Z"
  buildVersion := lit "1.0"
  os := lit "linux"
  arch := lit "x64"
  name := lit "level"
  attributes := [([], lit "x"), (lit "map", lit "a")]

def plainMetric : MetricPayload where
  name := lit "load"
  occurredAtIso := lit "2026-01-01T00:00:00Z"
  buildVersion := lit "1.0"
  os := lit "linux"
  arch := lit "x64"

def plainHeartbeat : HeartbeatPayload where
  sessionId := lit "s"
  occurredAtIso := lit "2026-01-01T00:00:00Z"
  buildVersion := lit "1.0"
  os := lit "linux"
  arch := lit "x64"
  metadataJson := buildUserMetadataJson [(lit "clan", lit "red")]
  frameStats := some ({}, {}, 0, 16)

theorem plain_bodies_decode :
    Json.Decodes (buildCrashJson (fun _ => lit "0") plainCrash)
      (.obj (present (plainCrash.rows fun _ => lit "0"))) ∧
    Json.Decodes (buildBugReportJson (fun _ => lit "0") plainBugReport)
      (.obj (present (plainBugReport.rows fun _ => lit "0"))) ∧
    Json.Decodes (buildEventJson plainEvent) (.obj (present plainEvent.rows)) ∧
    Json.Decodes (buildMetricJson (fun _ => lit "0") plainMetric)
      (.obj (present (plainMetric.rows fun _ => lit "0"))) ∧
    Json.Decodes (buildHeartbeatJson (fun _ => lit "0") plainHeartbeat)
      (.obj (present (plainHeartbeat.rows (fun _ => lit "0") (some [(lit "clan", lit "red")])))) := by
  have hzero : PrintsNumbers fun _ => lit "0" := fun _ _ => (by decide : Json.IsNumber (lit "0"))
  have hdevice : DevicePayload.Valid {} := by
    constructor
    all_goals exact Utf8.Valid.nil
  obtain ⟨hcrash, hbug, hevent, hmetric, hheartbeat, -⟩ := bodies_decode (fun _ => lit "0") hzero
  refine ⟨hcrash plainCrash ?_, hbug plainBugReport ?_, hevent plainEvent ?_, hmetric plainMetric ?_,
    hheartbeat plainHeartbeat _ ?_⟩
  · constructor
    case breadcrumbs =>
      intro crumb hcrumb
      rw [List.mem_singleton.1 hcrumb]
      constructor
      all_goals exact Utf8.valid_literal rfl
    case device =>
      constructor
      all_goals exact Utf8.valid_literal rfl
    all_goals exact Utf8.valid_literal rfl
  · constructor
    case breadcrumbs => exact fun _ hcrumb => absurd hcrumb List.not_mem_nil
    case device => exact hdevice
    all_goals exact Utf8.valid_literal rfl
  · constructor
    case attributes =>
      intro a ha
      simp only [plainEvent, List.mem_cons, List.not_mem_nil, or_false] at ha
      rcases ha with rfl | rfl
      all_goals exact ⟨Utf8.valid_literal rfl, Utf8.valid_literal rfl⟩
    all_goals exact Utf8.valid_literal rfl
  · constructor
    case value => decide
    all_goals exact Utf8.valid_literal rfl
  · constructor
    case metadataJson => rfl
    case metadata =>
      rintro _ ⟨⟩
      intro entry he
      rw [List.mem_singleton.1 he]
      exact ⟨Utf8.valid_literal rfl, Utf8.valid_literal rfl⟩
    case frameStats =>
      rintro _ ⟨⟩
      exact ⟨by decide, by decide⟩
    case device => exact hdevice
    all_goals exact Utf8.valid_literal rfl

end Tombstone.BodiesDecode
