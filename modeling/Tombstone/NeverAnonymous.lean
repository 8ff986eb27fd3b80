import Tombstone.DeviceIdentity
import Tombstone.FieldSearch
import Tombstone.JsonFields
import Tombstone.Session
import Tombstone.Truncation

/- No body is anonymous.

   `current_user_id` falls back to the provisional id, and the builders leave a user id out only
   if it is empty. An id that `set_user` stored is within the bound of the field, and so is a
   plausible provisional id; so the member `userId` is written, and with the whole id. -/
namespace Tombstone.FieldSearch
open DeviceIdentity JsonScan

/-- What a body is built from, its user id apart. -/
inductive Body where
  | heartbeat (p : HeartbeatPayload)
  | crash (p : CrashPayload)
  | bugReport (p : BugReportPayload)
  | event (p : EventPayload)
  | metric (p : MetricPayload)

/-- The text of a body under this user id. -/
def Body.text (printed : Double → Bytes) (userId : Bytes) : Body → Bytes
  | .heartbeat p => buildHeartbeatJson printed { p with userId }
  | .crash p => buildCrashJson printed { p with userId }
  | .bugReport p => buildBugReportJson printed { p with userId }
  | .event p => buildEventJson { p with userId }
  | .metric p => buildMetricJson printed { p with userId }

/-- `track_metric` takes finite values only. -/
def Body.Accepted : Body → Prop
  | .metric p => p.value.isFinite = true
  | _ => True

variable {w : JsonWriter} {userId : Bytes} {printed : Double → Bytes}

theorem wordKey_userId : WordKey (lit "userId") := by decide

theorem contextNames_userId : ∀ name ∈ contextNames, Other (lit "userId") name := by decide

theorem trailNames_userId : ∀ name ∈ trailNames, Other (lit "userId") name := by decide

/-- The user id as `optional_field` writes it. -/
theorem Passes.writeUser (h : Passes (lit "userId") [] w) (hne : userId ≠ [])
    (hlength : userId.length ≤ limits.userId) :
    Holds (lit "userId") (quote userId) (w.optionalField (lit "userId") userId limits.userId) := by
  have hwritten : w.optionalField (lit "userId") userId limits.userId =
      (w.namePrefix (lit "userId")).emit (quote userId) := by
    rw [JsonWriter.optionalField, if_neg (by rwa [List.isEmpty_iff]), JsonWriter.clampedField,
      utf8SafeTruncate_of_le hlength]
    rfl
  rw [hwritten]
  exact h.write (by decide) _

/-- The frame statistics of a beat. -/
theorem frameStats_extends (printed : Double → Bytes) (w : JsonWriter)
    (frameStats : Option (Double × Double × Int × Int)) :
    Extends w (match frameStats with
      | none => w
      | some (fpsAvg, slowFramePct, hitchCount, worstFrameMs) =>
        (((w.numberField printed (lit "fpsAvg") fpsAvg
          ).numberField printed (lit "slowFramePct") slowFramePct
          ).intField (lit "hitchCount") hitchCount).intField (lit "worstFrameMs") worstFrameMs) := by
  cases frameStats with
  | none => exact .refl w
  | some _ => exact ((((Extends.refl w).field _ _).field _ _).field _ _).field _ _

theorem metadata_extends (w : JsonWriter) (metadataJson : Bytes) :
    Extends w (if metadataJson.isEmpty then w else w.rawField (lit "metadata") metadataJson) := by
  split
  · exact .refl w
  · exact (Extends.refl w).field _ _

theorem attributes_extends (w : JsonWriter) (attributes : List (Bytes × Bytes)) :
    Extends w (if attributes.isEmpty then w
      else ((w.beginObjectField (lit "attributes")).attributeFields 0 attributes).endObject) := by
  split
  · exact .refl w
  · have hopened : Extends w (w.beginObjectField (lit "attributes")) := (Extends.refl w).field _ _
    exact (hopened.attributeFields 0 attributes).emit _

section Bodies

variable (hne : userId ≠ []) (hlength : userId.length ≤ limits.userId)
include hne hlength

theorem heartbeat_userId (p : HeartbeatPayload) :
    findStringField (buildHeartbeatJson printed { p with userId }) (lit "userId") = some userId := by
  have hkey := wordKey_userId
  have h := (Passes.root (lit "userId")).clampedField hkey (lit "sessionId") p.sessionId limits.sessionId
  have h := h.stringField hkey (lit "occurredAtIso") p.occurredAtIso
  have h := h.clampedField hkey (lit "buildVersion") p.buildVersion limits.buildVersion
  have h := h.stringField hkey (lit "os") p.os
  have h := h.stringField hkey (lit "arch") p.arch
  have h := h.writeUser hne hlength
  have h := h.extended ((Extends.refl _).optionalField (lit "priorUserId") p.priorUserId limits.userId)
  have h := h.extended (metadata_extends _ p.metadataJson)
  have h := h.extended (frameStats_extends printed _ p.frameStats)
  have h := h.extended ((Extends.refl _).optionalField (lit "role") p.role limits.role)
  have h := h.extended ((Extends.refl _).optionalField (lit "serverId") p.serverId limits.serverId)
  have h := h.extended ((Extends.refl _).optionalField (lit "matchId") p.matchId limits.matchId)
  have h := h.extended ((Extends.refl _).optionalField (lit "region") p.region limits.region)
  have h := h.extended ((Extends.refl _).optionalField (lit "hostname") p.hostname limits.hostname)
  have h := h.extended ((Extends.refl _).optionalField (lit "environment") p.environment
    limits.environment)
  have h := h.extended ((Extends.refl _).deviceObject printed p.device)
  exact (h.extended ((Extends.refl _).emit _)).string

theorem crash_userId (p : CrashPayload) :
    findStringField (buildCrashJson printed { p with userId }) (lit "userId") = some userId := by
  have hkey := wordKey_userId
  have h := (Passes.root (lit "userId")).commonContext hkey contextNames_userId p.occurredAtIso
    p.buildVersion p.os p.arch
  have h := h.clampedField hkey (lit "signature") p.signature limits.signature
  have h := h.clampedField hkey (lit "stackHint") p.stackHint limits.stackHint
  have h := h.optionalField hkey (lit "stackTrace") p.stackTrace limits.stackTrace
  have h := h.breadcrumbsField hkey trailNames_userId p.breadcrumbs
  have h := h.writeUser hne hlength
  have h := h.extended ((Extends.refl _).optionalField (lit "priorUserId") p.priorUserId limits.userId)
  have h := h.extended ((Extends.refl _).optionalField (lit "steamId") p.steamId limits.steamId)
  have h := h.extended ((Extends.refl _).field (lit "log") (if p.log then lit "true" else lit "false"))
  have h := h.extended ((Extends.refl _).correlationFields p.role p.serverId p.matchId p.sessionId)
  have h := h.extended ((Extends.refl _).optionalField (lit "environment") p.environment
    limits.environment)
  have h := h.extended ((Extends.refl _).deviceObject printed p.device)
  have h := h.extended ((Extends.refl _).optionalField (lit "crashType") p.crashType limits.signature)
  have h := h.extended ((Extends.refl _).optionalIntField (lit "osSignal") p.osSignal)
  exact (h.extended ((Extends.refl _).emit _)).string

theorem bugReport_userId (p : BugReportPayload) :
    findStringField (buildBugReportJson printed { p with userId }) (lit "userId") = some userId := by
  have hkey := wordKey_userId
  have h := (Passes.root (lit "userId")).commonContext hkey contextNames_userId p.occurredAtIso
    p.buildVersion p.os p.arch
  have h := h.optionalField hkey (lit "category") p.category limits.bugCategory
  have h := h.clampedField hkey (lit "message") p.message limits.bugMessage
  have h := h.writeUser hne hlength
  have h := h.extended ((Extends.refl _).optionalField (lit "priorUserId") p.priorUserId limits.userId)
  have h := h.extended ((Extends.refl _).optionalField (lit "steamId") p.steamId limits.steamId)
  have h := h.extended ((Extends.refl _).breadcrumbsField p.breadcrumbs)
  have h := h.extended ((Extends.refl _).field (lit "log") (if p.log then lit "true" else lit "false"))
  have h := h.extended ((Extends.refl _).correlationFields p.role p.serverId p.matchId p.sessionId)
  have h := h.extended ((Extends.refl _).optionalField (lit "environment") p.environment
    limits.environment)
  have h := h.extended ((Extends.refl _).deviceObject printed p.device)
  exact (h.extended ((Extends.refl _).emit _)).string

theorem event_userId (p : EventPayload) :
    findStringField (buildEventJson { p with userId }) (lit "userId") = some userId := by
  have hkey := wordKey_userId
  have h := (Passes.root (lit "userId")).commonContext hkey contextNames_userId p.occurredAtIso
    p.buildVersion p.os p.arch
  have h := h.clampedField hkey (lit "name") p.name limits.eventName
  have h := h.writeUser hne hlength
  have h := h.extended (attributes_extends _ p.attributes)
  have h := h.extended ((Extends.refl _).correlationFields p.role p.serverId p.matchId p.sessionId)
  have h := h.extended ((Extends.refl _).optionalField (lit "environment") p.environment
    limits.environment)
  exact (h.extended ((Extends.refl _).emit _)).string

/-- The value of a metric is in front of the user id; a number has no quote in it. -/
theorem metric_userId (hprinted : JsonFields.PrintsNumbers printed) (p : MetricPayload)
    (hvalue : p.value.isFinite = true) :
    findStringField (buildMetricJson printed { p with userId }) (lit "userId") = some userId := by
  have hkey := wordKey_userId
  have hnumber : ch '"' ∉ printed p.value := by
    intro hquote
    exact absurd ((hprinted p.value hvalue).bytes _ hquote) (by decide)
  have h := (Passes.root (lit "userId")).clampedField hkey (lit "name") p.name limits.metricName
  have h := h.bare hkey (lit "value") hnumber
  have h := h.optionalField hkey (lit "unit") p.unit limits.metricUnit
  have h := h.stringField hkey (lit "occurredAtIso") p.occurredAtIso
  have h := h.clampedField hkey (lit "buildVersion") p.buildVersion limits.buildVersion
  have h := h.stringField hkey (lit "os") p.os
  have h := h.stringField hkey (lit "arch") p.arch
  have h := h.writeUser hne hlength
  have h := h.extended ((Extends.refl _).correlationFields p.role p.serverId p.matchId p.sessionId)
  have h := h.extended ((Extends.refl _).optionalField (lit "environment") p.environment
    limits.environment)
  exact (h.extended ((Extends.refl _).emit _)).string

/-- **Every body carries the user id it was given**, if that is neither empty nor too long. -/
theorem body_userId (hprinted : JsonFields.PrintsNumbers printed) (body : Body) (hbody : body.Accepted) :
    findStringField (body.text printed userId) (lit "userId") = some userId := by
  cases body with
  | heartbeat p => exact heartbeat_userId hne hlength p
  | crash p => exact crash_userId hne hlength p
  | bugReport p => exact bugReport_userId hne hlength p
  | event p => exact event_userId hne hlength p
  | metric p => exact metric_userId hne hlength hprinted p hbody

end Bodies

/-! ## The client -/

/-- The identity of a client with this provisional id, after these calls to `set_user`. -/
def identityAfter (provisional : Bytes) (calls : List (CString × CString)) : Session.Identity :=
  calls.foldl (fun u c => u.setUser c.1 c.2) { provisionalUserId := provisional }

/-- The user id that the last of the calls asks for, clamped; none before the first. -/
def clampedUser (calls : List (CString × CString)) : Bytes :=
  match calls.getLast? with
  | none => []
  | some c => clamped c.1 limits.userId

theorem setUser_userId (u : Session.Identity) (userId steamId : CString) :
    (u.setUser userId steamId).userId = clamped userId limits.userId ∧
      (u.setUser userId steamId).provisionalUserId = u.provisionalUserId := by
  unfold Session.Identity.setUser
  constructor
  · rfl
  · dsimp only
    split
    · rfl
    · split
      · rfl
      · rfl

theorem identityAfter_users (provisional : Bytes) (calls : List (CString × CString)) :
    (identityAfter provisional calls).userId = clampedUser calls ∧
      (identityAfter provisional calls).provisionalUserId = provisional := by
  induction calls using List.reverseRecOn with
  | nil => exact ⟨rfl, rfl⟩
  | append_singleton calls c ih =>
    obtain ⟨huser, hprovisional⟩ := setUser_userId (identityAfter provisional calls) c.1 c.2
    unfold identityAfter at *
    rw [List.foldl_append, List.foldl_cons, List.foldl_nil]
    refine ⟨?_, hprovisional.trans ih.2⟩
    rw [huser, clampedUser, List.getLast?_concat]

theorem length_clampedUser (calls : List (CString × CString)) :
    (clampedUser calls).length ≤ limits.userId := by
  unfold clampedUser
  split
  · exact Nat.zero_le _
  · exact length_clamped _ _

/-- `current_user_id`. -/
theorem identityAfter_effective (provisional : Bytes) (calls : List (CString × CString)) :
    (identityAfter provisional calls).effective =
      if clampedUser calls = [] then provisional else clampedUser calls := by
  obtain ⟨huser, hprovisional⟩ := identityAfter_users provisional calls
  rw [Session.Identity.effective, huser, hprovisional]
  simp only [List.isEmpty_iff]

/-- The host may set the provisional id itself: then the body carries it though a user is set. -/
theorem provisional_user_set :
    ¬ ∀ (printed : Double → Bytes), JsonFields.PrintsNumbers printed →
      ∀ (file : Option Bytes) (launches : List Launch), ∀ id ∈ provisionalIds file launches,
      ∀ (calls : List (CString × CString)) (body : Body), body.Accepted →
        (findStringField (body.text printed (identityAfter id calls).effective) (lit "userId") = some id ↔
          clampedUser calls = []) := by
  intro h
  have hzero : JsonFields.PrintsNumbers fun _ => lit "0" :=
    fun _ _ => (by decide : Json.IsNumber (lit "0"))
  have heffective : (identityAfter (lit "dev_a") [(some (lit "dev_a"), none)]).effective = lit "dev_a" := by
    decide
  have hiff := h _ hzero (some (lit "dev_a")) [{ token := lit "tmb_a" }] (lit "dev_a") (by decide)
    [(some (lit "dev_a"), none)] (.event { occurredAtIso := [], buildVersion := [], os := [], arch := []
                                           name := [] }) trivial
  rw [heffective] at hiff
  exact absurd (hiff.1 (body_userId (by decide) (by decide) hzero _ trivial)) (by decide)

/-- **Never anonymous, and stable across launches.** Whatever the identity file held, each launch
has a plausible provisional id, from the second on that of the launch before; and after any
calls to `set_user` every body carries a user id that is not empty: the provisional id if the
clamped user id is empty, and else the clamped user id. -/
theorem never_anonymous (printed : Double → Bytes) (hprinted : JsonFields.PrintsNumbers printed)
    (file : Option Bytes) (launches : List Launch) :
    (∀ id ∈ provisionalIds file launches, isValid id = true) ∧
    (provisionalIds file launches).IsChain (fun id next => next = id) ∧
    ∀ id ∈ provisionalIds file launches, ∀ (calls : List (CString × CString)) (body : Body),
      body.Accepted →
      ∃ userId, findStringField (body.text printed (identityAfter id calls).effective) (lit "userId") =
          some userId ∧ userId ≠ [] ∧
        userId = if clampedUser calls = [] then id else clampedUser calls := by
  refine ⟨provisionalIds_valid file launches, provisionalIds_chain file launches, ?_⟩
  intro id hid calls body hbody
  have hvalid := provisionalIds_valid file launches id hid
  have hne : (if clampedUser calls = [] then id else clampedUser calls) ≠ [] := by
    split
    · exact ne_nil_of_isValid hvalid
    · assumption
  have hlength : (if clampedUser calls = [] then id else clampedUser calls).length ≤ limits.userId := by
    split
    · exact (length_of_isValid hvalid).trans (by decide)
    · exact length_clampedUser calls
  rw [identityAfter_effective]
  exact ⟨_, body_userId hne hlength hprinted body hbody, hne, rfl⟩

/-- A file with an id and a line end, two launches, a login and a logout. -/
theorem never_anonymous_logout :
    ∃ userId, findStringField ((Body.event { occurredAtIso := [], buildVersion := [], os := [], arch := []
                                             name := [] }).text (fun _ => lit "0")
      (identityAfter (lit "dev_a") [(some (lit "alice"), none), (none, none)]).effective)
        (lit "userId") = some userId ∧ userId ≠ [] ∧ userId = lit "dev_a" := by
  have hzero : JsonFields.PrintsNumbers fun _ => lit "0" :=
    fun _ _ => (by decide : Json.IsNumber (lit "0"))
  exact (never_anonymous _ hzero (some (lit "dev_a\r\n")) [{ token := lit "a" }, { token := lit "b" }]).2.2
    (lit "dev_a") (by decide) [(some (lit "alice"), none), (none, none)]
    (.event { occurredAtIso := [], buildVersion := [], os := [], arch := [], name := [] }) trivial

end Tombstone.FieldSearch
