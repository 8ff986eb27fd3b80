import Tombstone.MetadataText

/- Empty strings in a body.

   The builders leave a member out where its text is empty, and clamp the text behind that test. The
   clamp backs off over continuation bytes without a bound, so it may leave nothing of a text
   (`Blanked`). A body has no empty string, but for the members that may have one, where no text in
   it is blanked (`buildCrashJson_filled` and the others). -/
namespace Tombstone
open Json (Rows present Numeric)
open JsonFields

/-! ## What the clamp empties -/

/-- The text is over its limit, and every byte that it could be cut before is a continuation byte. -/
def Blanked (limit : Nat) (text : Bytes) : Prop :=
  limit < text.length ∧ ∀ j < limit, isContinuation (text.getD (j + 1) 0) = true

instance (limit : Nat) (text : Bytes) : Decidable (Blanked limit text) :=
  inferInstanceAs (Decidable (_ ∧ _))

variable {limit : Nat} {text : Bytes}

theorem backOff_eq_zero (text : Bytes) (n : Nat) :
    backOff text n = 0 ↔ ∀ j < n, isContinuation (text.getD (j + 1) 0) = true := by
  obtain ⟨hle, hstop, hskipped⟩ := backOff_spec text n
  constructor
  · intro hzero j hj
    exact hskipped (j + 1) (by omega) (by omega)
  · intro hall
    rcases hstop with hzero | hfirst
    · exact hzero
    · refine Nat.eq_zero_of_not_pos fun hpos => ?_
      have htail := hall (backOff text n - 1) (by omega)
      rw [Nat.sub_add_cancel hpos, hfirst] at htail
      cases htail

/-- **What is left of a text is empty** where the text is, or is blanked. -/
theorem utf8SafeTruncate_eq_nil : utf8SafeTruncate text limit = [] ↔ text = [] ∨ Blanked limit text := by
  unfold utf8SafeTruncate Blanked
  split
  · next hfits =>
    have hnot : ¬ limit < text.length := by omega
    simp [hnot]
  · next hlong =>
    have hne : text ≠ [] := by
      rintro rfl
      exact hlong (Nat.zero_le _)
    rw [List.take_eq_nil_iff, backOff_eq_zero]
    simp [hne, Nat.not_le.mp hlong]

theorem not_blanked_of_le (h : text.length ≤ limit) : ¬ Blanked limit text :=
  fun hblanked => absurd hblanked.1 (Nat.not_lt.mpr h)

theorem not_blanked_nil (limit : Nat) : ¬ Blanked limit [] := not_blanked_of_le (Nat.zero_le limit)

/-- A text whose second byte starts a character is not blanked. -/
theorem not_blanked_cons {a b : UInt8} {rest : Bytes} (hlimit : 0 < limit)
    (h : isContinuation b = false) : ¬ Blanked limit (a :: b :: rest) := by
  intro hblanked
  have hsecond := hblanked.2 0 hlimit
  rw [Nat.zero_add, List.getD_cons_succ, List.getD_cons_zero, h] at hsecond
  cases hsecond

/-- A text that is there, and stays. -/
def Stays (limit : Nat) (text : Bytes) : Prop := text ≠ [] ∧ ¬ Blanked limit text

theorem Stays.truncate (h : Stays limit text) : utf8SafeTruncate text limit ≠ [] := by
  rw [Ne, utf8SafeTruncate_eq_nil, not_or]
  exact h

/-- What is clamped where it is stored stays when it is clamped again. -/
theorem Stays.clamped (h : Stays limit text) : Stays limit (utf8SafeTruncate text limit) :=
  ⟨h.truncate, not_blanked_of_le (utf8SafeTruncate_length text limit)⟩

theorem stays_of_le (hne : text ≠ []) (hle : text.length ≤ limit) : Stays limit text :=
  ⟨hne, not_blanked_of_le hle⟩

/-! ## Values without an empty string -/

/-- No string in the value is empty. -/
inductive Json.Filled : Json → Prop
  | null : Filled null
  | bool (b : Bool) : Filled (bool b)
  | num (literal : Bytes) : Filled (num literal)
  | str {text : Bytes} : text ≠ [] → Filled (str text)
  | arr {elements : List Json} : (∀ j ∈ elements, Filled j) → Filled (arr elements)
  | obj {members : List (Bytes × Json)} : (∀ m ∈ members, Filled m.2) → Filled (obj members)

/-- The members whose text is written even where it is empty. The schema has no minimum for
them, and the values of the attributes are the caller's. -/
def exempt : List Bytes :=
  [lit "occurredAtIso", lit "buildVersion", lit "os", lit "arch", lit "attributes"]

/-- The body reads as an object, and no string in it is empty but for the exempt members. -/
def FilledBody (body : Bytes) : Prop :=
  ∃ members, Json.parse body = some (.obj members) ∧ ∀ m ∈ members, m.1 ∉ exempt → m.2.Filled

/-! ## Member by member -/

variable {free free' : Bytes → Prop} {base w w' : JsonWriter} {rows : Rows} {name value : Bytes}
variable {printed : Double → Bytes}

/-- `w` is in an object that was opened at `base`; no string in it is empty, but in the members that
are `free`. -/
def Filling (free : Bytes → Prop) (base w : JsonWriter) : Prop :=
  ∃ rows, InMembers base rows w ∧ ∀ m ∈ present rows, m.2.Numeric ∧ (¬ free m.1 → m.2.Filled)

theorem Filling.opened (free : Bytes → Prop) (base : JsonWriter) :
    Filling free base (base.emit [ch '\x7b']).pushScope :=
  ⟨[], .opened _ base, fun _ hm => absurd hm List.not_mem_nil⟩

/-- A member more. -/
theorem Filling.row (h : Filling free base w) (name : Bytes) {j : Json} (hj : j.Numeric)
    (hfilled : ¬ free name → j.Filled) :
    Filling free base ((w.namePrefix name).emit (Json.render escaping j)) := by
  obtain ⟨rows, hrows, hall⟩ := h
  refine ⟨_, hrows.row name j, ?_⟩
  have hpresent : present (rows ++ [(name, some j)]) = present rows ++ [(name, j)] :=
    present_append ..
  rw [hpresent]
  refine List.forall_mem_append.mpr ⟨hall, fun m hm => ?_⟩
  rw [List.mem_singleton.mp hm]
  exact ⟨hj, hfilled⟩

/-- The object, once it is closed. -/
theorem Filling.close (h : Filling free base w) : ∃ members,
    w.endObject = base.emit (Json.render escaping (.obj members)) ∧ (Json.obj members).Numeric ∧
      ∀ m ∈ members, ¬ free m.1 → m.2.Filled := by
  obtain ⟨rows, hrows, hall⟩ := h
  exact ⟨present rows, hrows.close, .obj fun m hm => (hall m hm).1, fun m hm => (hall m hm).2⟩

theorem Filling.object (h : Filling free base w) (name : Bytes)
    (hinner : Filling free' (w.namePrefix name) w') (hfree : ¬ free name → ∀ inner, ¬ free' inner) :
    Filling free base w'.endObject := by
  obtain ⟨members, hclose, hnumeric, hall⟩ := hinner.close
  rw [hclose]
  exact h.row name hnumeric fun hname => .obj fun m hm => hall m hm (hfree hname m.1)

/-- **The body.** -/
theorem Filling.body (h : Filling (· ∈ exempt) {} w) : FilledBody w.endObject.out := by
  obtain ⟨members, hclose, hnumeric, hall⟩ := h.close
  have hout : w.endObject.out = Json.render escaping (.obj members) := by
    rw [hclose]
    rfl
  rw [hout]
  exact ⟨members, Json.parse_render hnumeric, hall⟩

theorem Filling.stringField (h : Filling free base w) (name : Bytes) (hvalue : ¬ free name → value ≠ []) :
    Filling free base (w.stringField name value) := by
  rw [stringField_eq]
  exact h.row name (.str value) fun hname => .str (hvalue hname)

/-- A member whose text may be empty. -/
theorem Filling.exemptField (h : Filling (· ∈ exempt) base w) (name value : Bytes)
    (hname : name ∈ exempt := by decide) : Filling (· ∈ exempt) base (w.stringField name value) :=
  h.stringField name fun hnot => absurd hname hnot

theorem Filling.clampedField (h : Filling free base w) (name : Bytes)
    (hvalue : ¬ free name → Stays limit value) : Filling free base (w.clampedField name value limit) :=
  h.stringField name fun hname => (hvalue hname).truncate

theorem Filling.optionalField (h : Filling free base w) (name : Bytes) (hvalue : ¬ Blanked limit value) :
    Filling free base (w.optionalField name value limit) := by
  unfold JsonWriter.optionalField
  split
  · exact h
  · next hne =>
    exact h.clampedField name fun _ => ⟨by simpa using hne, hvalue⟩

theorem Filling.boolField (h : Filling free base w) (name : Bytes) (b : Bool) :
    Filling free base (w.boolField name b) := by
  rw [boolField_eq]
  exact h.row name (.bool b) fun _ => .bool b

theorem Filling.intField (h : Filling free base w) (name : Bytes) (n : Int) :
    Filling free base (w.intField name n) := by
  rw [intField_eq]
  exact h.row name (.num (isNumber_intText n)) fun _ => .num _

theorem Filling.numberField (h : Filling free base w) (hprinted : PrintsNumbers printed) (name : Bytes)
    {d : Double} (hd : d.isFinite = true) : Filling free base (w.numberField printed name d) := by
  rw [numberField_eq]
  exact h.row name (.num (hprinted d hd)) fun _ => .num _

theorem Filling.optionalIntField (h : Filling free base w) (name : Bytes) (n : Int) :
    Filling free base (w.optionalIntField name n) := by
  unfold JsonWriter.optionalIntField
  split
  · exact h.intField name n
  · exact h

theorem Filling.optionalNumberField (h : Filling free base w) (hprinted : PrintsNumbers printed)
    (name : Bytes) (d : Double) : Filling free base (w.optionalNumberField printed name d) := by
  unfold JsonWriter.optionalNumberField
  split
  · next hd =>
    exact h.numberField hprinted name (Double.isFinite_of_finitePositive hd)
  · exact h

/-- A flag that is written where it is up. -/
theorem Filling.flagField (h : Filling free base w) (name : Bytes) (b : Bool) :
    Filling free base (if b then w.boolField name true else w) := by
  split
  · exact h.boolField name true
  · exact h

/-! ## The parts of a body -/

/-- A crumb whose texts stay. -/
structure Breadcrumb.Kept (crumb : Breadcrumb) : Prop where
  level : Stays BreadcrumbRing.maxLevelBytes crumb.level
  message : Stays BreadcrumbRing.maxMessageBytes crumb.message

/-- `w` is in an array that was opened at `base`, with no empty string in it. -/
def FillingArray (base w : JsonWriter) : Prop :=
  ∃ elements : List Json, InScope (ch '[') base (elements.map (Json.render escaping)) w ∧
    ∀ j ∈ elements, j.Numeric ∧ j.Filled

theorem FillingArray.crumb (h : FillingArray base w) {crumb : Breadcrumb} (hcrumb : crumb.Kept) :
    FillingArray base (w.crumbElement crumb) := by
  obtain ⟨elements, hscope, hall⟩ := h
  have hopened : Filling (fun _ => False) w.elementPrefix w.beginObject := .opened _ _
  have hstamped : Filling (fun _ => False) w.elementPrefix (if crumb.tsIso.isEmpty then w.beginObject
      else w.beginObject.stringField (lit "tsIso") crumb.tsIso) := by
    split
    · exact hopened
    · next hne => exact hopened.stringField _ fun _ => by simpa using hne
  have hlevel := hstamped.clampedField (lit "level") fun _ => hcrumb.level
  obtain ⟨members, hclose, hnumeric, hfilled⟩ :=
    (hlevel.clampedField (lit "message") fun _ => hcrumb.message).close
  have hend : w.crumbElement crumb = w.elementPrefix.emit (Json.render escaping (.obj members)) := hclose
  refine ⟨elements ++ [.obj members], ?_, ?_⟩
  · rw [hend, List.map_append]
    exact hscope.next _
  · refine List.forall_mem_append.mpr ⟨hall, fun j hj => ?_⟩
    rw [List.mem_singleton.mp hj]
    exact ⟨hnumeric, .obj fun m hm => hfilled m hm not_false⟩

theorem FillingArray.crumbs (h : FillingArray base w) {breadcrumbs : List Breadcrumb}
    (hcrumbs : ∀ crumb ∈ breadcrumbs, crumb.Kept) :
    FillingArray base (breadcrumbs.foldl JsonWriter.crumbElement w) := by
  induction breadcrumbs generalizing w with
  | nil => exact h
  | cons crumb crumbs ih =>
    exact ih (h.crumb (hcrumbs crumb List.mem_cons_self)) fun c hc =>
      hcrumbs c (List.mem_cons_of_mem crumb hc)

theorem Filling.breadcrumbsField (h : Filling free base w) {breadcrumbs : List Breadcrumb}
    (hcrumbs : ∀ crumb ∈ breadcrumbs, crumb.Kept) : Filling free base (w.breadcrumbsField breadcrumbs) := by
  unfold JsonWriter.breadcrumbsField
  split
  · exact h
  · have hopened : FillingArray (w.namePrefix (lit "breadcrumbs")) (w.beginArray (lit "breadcrumbs")) :=
      ⟨[], .opened _ _, fun _ hj => absurd hj List.not_mem_nil⟩
    obtain ⟨elements, hscope, hall⟩ := hopened.crumbs hcrumbs
    have hrow := h.row (lit "breadcrumbs") (j := .arr elements) (.arr fun j hj => (hall j hj).1)
      fun _ => .arr fun j hj => (hall j hj).2
    rw [Json.render] at hrow
    rw [JsonWriter.endArray, hscope.close]
    exact hrow

/-- The texts of a device, with their limits. -/
def DevicePayload.texts (d : DevicePayload) : List (Nat × Bytes) :=
  [(limits.deviceModel, d.model), (limits.deviceType, d.type), (limits.deviceOs, d.os),
    (limits.deviceOsFamily, d.osFamily), (limits.deviceCpu, d.cpu), (limits.deviceGpu, d.gpu),
    (limits.deviceGpuVendor, d.gpuVendor), (limits.deviceGpuVersion, d.gpuVersion),
    (limits.deviceGpuApi, d.gpuApi), (limits.deviceScreen, d.screen),
    (limits.deviceOrientation, d.orientation), (limits.deviceLanguage, d.language),
    (limits.deviceEngine, d.engine), (limits.deviceScriptingBackend, d.scriptingBackend),
    (limits.devicePlatform, d.platform)]

def DevicePayload.Kept (d : DevicePayload) : Prop := ∀ t ∈ d.texts, ¬ Blanked t.1 t.2

theorem Filling.deviceObject (h : Filling free base w) (hprinted : PrintsNumbers printed)
    {d : DevicePayload} (hd : d.Kept) : Filling free base (w.deviceObject printed d) := by
  unfold JsonWriter.deviceObject
  split
  · exact h
  · simp only [DevicePayload.Kept, DevicePayload.texts, List.forall_mem_cons] at hd
    obtain ⟨hmodel, htype, hos, hfamily, hcpu, hgpu, hvendor, hversion, hapi, hscreen, horientation,
      hlanguage, hengine, hbackend, hplatform, -⟩ := hd
    have hin : Filling (fun _ => False) (w.namePrefix (lit "device")) (w.beginObjectField (lit "device")) :=
      .opened _ _
    have hin := hin.optionalField (lit "model") hmodel
    have hin := hin.optionalField (lit "type") htype
    have hin := hin.optionalField (lit "os") hos
    have hin := hin.optionalField (lit "osFamily") hfamily
    have hin := hin.optionalField (lit "cpu") hcpu
    have hin := hin.optionalIntField (lit "cpuCount") d.cpuCount
    have hin := hin.optionalIntField (lit "ramMB") d.ramMb
    have hin := hin.optionalField (lit "gpu") hgpu
    have hin := hin.optionalField (lit "gpuVendor") hvendor
    have hin := hin.optionalField (lit "gpuVersion") hversion
    have hin := hin.optionalField (lit "gpuApi") hapi
    have hin := hin.optionalIntField (lit "vramMB") d.vramMb
    have hin := hin.optionalField (lit "screen") hscreen
    have hin := hin.optionalNumberField hprinted (lit "screenDpi") d.screenDpi
    have hin := hin.optionalNumberField hprinted (lit "refreshRate") d.refreshRate
    have hin := hin.optionalField (lit "orientation") horientation
    have hin := hin.flagField (lit "fullscreen") d.fullscreen
    have hin := hin.optionalField (lit "language") hlanguage
    have hin := hin.optionalField (lit "engine") hengine
    have hin := hin.optionalField (lit "scriptingBackend") hbackend
    have hin := hin.optionalField (lit "platform") hplatform
    exact h.object (lit "device") hin fun _ _ => not_false

/-- Whom and what a body is about: the texts that the bodies have in common. -/
structure KeptContext (userId role serverId matchId sessionId environment : Bytes) : Prop where
  userId : ¬ Blanked limits.userId userId
  role : ¬ Blanked limits.role role
  serverId : ¬ Blanked limits.serverId serverId
  matchId : ¬ Blanked limits.matchId matchId
  sessionId : ¬ Blanked limits.sessionId sessionId
  environment : ¬ Blanked limits.environment environment

variable {userId role serverId matchId sessionId environment : Bytes}

theorem Filling.correlationFields (h : Filling free base w)
    (hcontext : KeptContext userId role serverId matchId sessionId environment) :
    Filling free base (w.correlationFields role serverId matchId sessionId) := by
  have h := h.optionalField (lit "role") hcontext.role
  have h := h.optionalField (lit "serverId") hcontext.serverId
  have h := h.optionalField (lit "matchId") hcontext.matchId
  exact h.optionalField (lit "sessionId") hcontext.sessionId

theorem Filling.commonContext (h : Filling (· ∈ exempt) base w) (occurredAtIso buildVersion os arch : Bytes) :
    Filling (· ∈ exempt) base (w.commonContext occurredAtIso buildVersion os arch) := by
  have h := h.exemptField (lit "occurredAtIso") occurredAtIso
  have h := h.exemptField (lit "buildVersion") (utf8SafeTruncate buildVersion limits.buildVersion)
  have h := h.exemptField (lit "os") os
  exact h.exemptField (lit "arch") arch

/-- The loop over the attributes; their values are the caller's. -/
theorem Filling.attributeFields (h : Filling (fun _ => True) base w) (written : Nat)
    (attributes : List (Bytes × Bytes)) :
    Filling (fun _ => True) base (w.attributeFields written attributes) := by
  induction attributes generalizing w written with
  | nil => exact h
  | cons entry attributes ih =>
    rw [JsonWriter.attributeFields]
    split
    · exact h
    · split
      · exact ih h written
      · exact ih (h.stringField _ fun hname => absurd trivial hname) (written + 1)

theorem Filling.attributesField (h : Filling (· ∈ exempt) base w) (attributes : List (Bytes × Bytes)) :
    Filling (· ∈ exempt) base (if attributes.isEmpty then w
      else ((w.beginObjectField (lit "attributes")).attributeFields 0 attributes).endObject) := by
  split
  · exact h
  · have hin : Filling (fun _ => True) (w.namePrefix (lit "attributes"))
        (w.beginObjectField (lit "attributes")) := .opened _ _
    exact h.object (lit "attributes") (hin.attributeFields 0 attributes) fun hname => absurd (by decide) hname

/-- What a beat may carry of a map: nothing, or its object. -/
def KeptMetadata (metadataJson : Bytes) : Prop :=
  metadataJson = [] ∨ ∃ entries : UserMetadataEntries,
    (∀ e ∈ entries, Stays limits.userMetadataValue e.2) ∧ metadataJson = buildUserMetadataJson entries

theorem Filling.metadataField (h : Filling free base w) {metadataJson : Bytes}
    (hmetadata : KeptMetadata metadataJson) :
    Filling free base (if metadataJson.isEmpty then w else w.rawField (lit "metadata") metadataJson) := by
  rcases hmetadata with rfl | ⟨entries, hentries, rfl⟩
  · exact h
  · split
    · exact h
    · rw [JsonWriter.rawField, buildUserMetadataJson_render]
      refine h.row (lit "metadata") (metadataMembers_numeric entries) fun _ => .obj fun m hm => ?_
      obtain ⟨e, he, rfl⟩ := List.mem_map.mp hm
      exact .str (hentries e he).truncate

theorem Filling.frameStatsFields (h : Filling free base w) (hprinted : PrintsNumbers printed)
    (frameStats : Option (Double × Double × Int × Int)) :
    (∀ f ∈ frameStats, f.1.isFinite = true ∧ f.2.1.isFinite = true) →
    Filling free base (match frameStats with
      | none => w
      | some (fpsAvg, slowFramePct, hitchCount, worstFrameMs) =>
        (((w.numberField printed (lit "fpsAvg") fpsAvg
          ).numberField printed (lit "slowFramePct") slowFramePct
          ).intField (lit "hitchCount") hitchCount).intField (lit "worstFrameMs") worstFrameMs) := by
  intro hfinite
  cases frameStats with
  | none => exact h
  | some f =>
    obtain ⟨hfps, hslow⟩ := hfinite f rfl
    have h := h.numberField hprinted (lit "fpsAvg") hfps
    have h := h.numberField hprinted (lit "slowFramePct") hslow
    have h := h.intField (lit "hitchCount") f.2.2.1
    exact h.intField (lit "worstFrameMs") f.2.2.2

/-! ## The bodies -/

structure CrashPayload.Kept (p : CrashPayload) : Prop where
  signature : Stays limits.signature p.signature
  stackHint : Stays limits.stackHint p.stackHint
  stackTrace : ¬ Blanked limits.stackTrace p.stackTrace
  breadcrumbs : ∀ crumb ∈ p.breadcrumbs, crumb.Kept
  priorUserId : ¬ Blanked limits.userId p.priorUserId
  steamId : ¬ Blanked limits.steamId p.steamId
  context : KeptContext p.userId p.role p.serverId p.matchId p.sessionId p.environment
  device : p.device.Kept
  crashType : ¬ Blanked limits.signature p.crashType

theorem buildCrashJson_filled (hprinted : PrintsNumbers printed) {p : CrashPayload} (hp : p.Kept) :
    FilledBody (buildCrashJson printed p) := by
  have h := (Filling.opened (· ∈ exempt) {}).commonContext p.occurredAtIso p.buildVersion p.os p.arch
  have h := h.clampedField (lit "signature") fun _ => hp.signature
  have h := h.clampedField (lit "stackHint") fun _ => hp.stackHint
  have h := h.optionalField (lit "stackTrace") hp.stackTrace
  have h := h.breadcrumbsField hp.breadcrumbs
  have h := h.optionalField (lit "userId") hp.context.userId
  have h := h.optionalField (lit "priorUserId") hp.priorUserId
  have h := h.optionalField (lit "steamId") hp.steamId
  have h := h.boolField (lit "log") p.log
  have h := h.correlationFields hp.context
  have h := h.optionalField (lit "environment") hp.context.environment
  have h := h.deviceObject hprinted hp.device
  have h := h.optionalField (lit "crashType") hp.crashType
  exact (h.optionalIntField (lit "osSignal") p.osSignal).body

structure BugReportPayload.Kept (p : BugReportPayload) : Prop where
  category : ¬ Blanked limits.bugCategory p.category
  message : Stays limits.bugMessage p.message
  priorUserId : ¬ Blanked limits.userId p.priorUserId
  steamId : ¬ Blanked limits.steamId p.steamId
  breadcrumbs : ∀ crumb ∈ p.breadcrumbs, crumb.Kept
  context : KeptContext p.userId p.role p.serverId p.matchId p.sessionId p.environment
  device : p.device.Kept

theorem buildBugReportJson_filled (hprinted : PrintsNumbers printed) {p : BugReportPayload} (hp : p.Kept) :
    FilledBody (buildBugReportJson printed p) := by
  have h := (Filling.opened (· ∈ exempt) {}).commonContext p.occurredAtIso p.buildVersion p.os p.arch
  have h := h.optionalField (lit "category") hp.category
  have h := h.clampedField (lit "message") fun _ => hp.message
  have h := h.optionalField (lit "userId") hp.context.userId
  have h := h.optionalField (lit "priorUserId") hp.priorUserId
  have h := h.optionalField (lit "steamId") hp.steamId
  have h := h.breadcrumbsField hp.breadcrumbs
  have h := h.boolField (lit "log") p.log
  have h := h.correlationFields hp.context
  have h := h.optionalField (lit "environment") hp.context.environment
  exact (h.deviceObject hprinted hp.device).body

structure EventPayload.Kept (p : EventPayload) : Prop where
  name : Stays limits.eventName p.name
  context : KeptContext p.userId p.role p.serverId p.matchId p.sessionId p.environment

theorem buildEventJson_filled {p : EventPayload} (hp : p.Kept) : FilledBody (buildEventJson p) := by
  have h := (Filling.opened (· ∈ exempt) {}).commonContext p.occurredAtIso p.buildVersion p.os p.arch
  have h := h.clampedField (lit "name") fun _ => hp.name
  have h := h.optionalField (lit "userId") hp.context.userId
  have h := h.attributesField p.attributes
  have h := h.correlationFields hp.context
  exact (h.optionalField (lit "environment") hp.context.environment).body

structure MetricPayload.Kept (p : MetricPayload) : Prop where
  name : Stays limits.metricName p.name
  value : p.value.isFinite = true
  unit : ¬ Blanked limits.metricUnit p.unit
  context : KeptContext p.userId p.role p.serverId p.matchId p.sessionId p.environment

theorem buildMetricJson_filled (hprinted : PrintsNumbers printed) {p : MetricPayload} (hp : p.Kept) :
    FilledBody (buildMetricJson printed p) := by
  have h := (Filling.opened (· ∈ exempt) {}).clampedField (lit "name") fun _ => hp.name
  have h := h.numberField hprinted (lit "value") hp.value
  have h := h.optionalField (lit "unit") hp.unit
  have h := h.commonContext p.occurredAtIso p.buildVersion p.os p.arch
  have h := h.optionalField (lit "userId") hp.context.userId
  have h := h.correlationFields hp.context
  exact (h.optionalField (lit "environment") hp.context.environment).body

structure HeartbeatPayload.Kept (p : HeartbeatPayload) : Prop where
  sessionId : Stays limits.sessionId p.sessionId
  priorUserId : ¬ Blanked limits.userId p.priorUserId
  metadata : KeptMetadata p.metadataJson
  frameStats : ∀ f ∈ p.frameStats, f.1.isFinite = true ∧ f.2.1.isFinite = true
  region : ¬ Blanked limits.region p.region
  hostname : ¬ Blanked limits.hostname p.hostname
  context : KeptContext p.userId p.role p.serverId p.matchId p.sessionId p.environment
  device : p.device.Kept

theorem buildHeartbeatJson_filled (hprinted : PrintsNumbers printed) {p : HeartbeatPayload} (hp : p.Kept) :
    FilledBody (buildHeartbeatJson printed p) := by
  have h := (Filling.opened (· ∈ exempt) {}).clampedField (lit "sessionId") fun _ => hp.sessionId
  have h := h.commonContext p.occurredAtIso p.buildVersion p.os p.arch
  have h := h.optionalField (lit "userId") hp.context.userId
  have h := h.optionalField (lit "priorUserId") hp.priorUserId
  have h := h.metadataField hp.metadata
  have h := h.frameStatsFields hprinted p.frameStats hp.frameStats
  have h := h.optionalField (lit "role") hp.context.role
  have h := h.optionalField (lit "serverId") hp.context.serverId
  have h := h.optionalField (lit "matchId") hp.context.matchId
  have h := h.optionalField (lit "region") hp.region
  have h := h.optionalField (lit "hostname") hp.hostname
  have h := h.optionalField (lit "environment") hp.context.environment
  exact (h.deviceObject hprinted hp.device).body

theorem buildPullFulfillJson_filled {nonce : Bytes} (nonceExpiry : Int)
    (hcontext : KeptContext userId role serverId matchId sessionId environment)
    (hnonce : ¬ Blanked limits.pullNonce nonce) :
    FilledBody (buildPullFulfillJson userId sessionId matchId serverId nonce nonceExpiry) := by
  have h := (Filling.opened (· ∈ exempt) {}).optionalField (lit "userId") hcontext.userId
  have h := h.optionalField (lit "sessionId") hcontext.sessionId
  have h := h.optionalField (lit "matchId") hcontext.matchId
  have h := h.optionalField (lit "serverId") hcontext.serverId
  unfold buildPullFulfillJson
  dsimp only
  split
  · exact h.body
  · next hne =>
    have hstays : Stays limits.pullNonce nonce := ⟨by simpa using hne, hnonce⟩
    have h := h.clampedField (lit "nonce") fun _ => hstays
    exact (h.intField (lit "nonceExpiry") nonceExpiry).body

namespace limits

def pullTargetType : Nat := 32
def pullTargetValue : Nat := 128
def pullReason : Nat := 280

end limits

/-- `build_pull_request_json`. -/
def buildPullRequestJson (targetType targetValue reason : Bytes) : Bytes :=
  ((((JsonWriter.beginObject {}).clampedField (lit "targetType") targetType limits.pullTargetType
    ).clampedField (lit "targetValue") targetValue limits.pullTargetValue
    ).clampedField (lit "reason") reason limits.pullReason).endObject.out

theorem buildPullRequestJson_filled {targetType targetValue reason : Bytes}
    (htype : Stays limits.pullTargetType targetType) (hvalue : Stays limits.pullTargetValue targetValue)
    (hreason : Stays limits.pullReason reason) :
    FilledBody (buildPullRequestJson targetType targetValue reason) := by
  have h := (Filling.opened (· ∈ exempt) {}).clampedField (lit "targetType") fun _ => htype
  have h := h.clampedField (lit "targetValue") fun _ => hvalue
  exact (h.clampedField (lit "reason") fun _ => hreason).body

end Tombstone
