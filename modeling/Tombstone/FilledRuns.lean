import Tombstone.BodyRuns

/- Whether a body of a run has an empty string.

   What the setters keep is clamped where it is stored, so it is there or is omitted. What a capture or
   a report takes is tested before it is clamped. A run whose texts are not blanked builds no body with
   an empty string in it, and an environment that is set stays set (`run_upheld`). The others may do
   both: a unit that is blanked is written as an empty string, and a name that is blanked unsets the
   environment (`blanked_texts`). -/
namespace Tombstone.FilledRuns
open CaptureClient RevokedTrail NativeReport
open JsonFields (PrintsNumbers)
open Launches (SessionMarkerData)
open NativeDump (NativeCrashDump)

/-! ## Calls whose texts are kept -/

/-- The text is not blanked. -/
def Spared (limit : Nat) (value : CString) : Prop := ¬ Blanked limit (value.getD [])

instance (limit : Nat) (value : CString) : Decidable (Spared limit value) := inferInstanceAs (Decidable (¬ _))

/-- No text of a capture is blanked. -/
def CaptureKept : CaptureCall → Prop
  | .addBreadcrumb _ message => Spared BreadcrumbRing.maxMessageBytes message
  | .trackEvent name _ => Spared limits.eventName name
  | .trackMetric name _ unit => Spared limits.metricName name ∧ Spared limits.metricUnit unit

/-- No value of the map is blanked. -/
def MapKept (entries : Option (List (CString × CString))) : Prop :=
  ∀ e ∈ entries.getD [], CString.blank e.1 = false → Spared limits.userMetadataValue e.2

/-- No text that the call hands on is blanked. -/
def Call.Kept : Call → Prop
  | .setUserMetadata entries => MapKept entries
  | .setEnvironment environment => Spared limits.environment environment
  | .capture call => CaptureKept call
  | .logLine _ line => Spared BreadcrumbRing.maxMessageBytes line
  | .reportCrash signature stackHint stackTrace _ =>
    Spared limits.signature signature ∧ Spared limits.stackHint stackHint ∧ Spared limits.stackTrace stackTrace
  | .reportBug category message _ => Spared limits.bugCategory category ∧ Spared limits.bugMessage message
  | .requestPlayerLogs targetType targetValue reason =>
    Spared limits.pullTargetType targetType ∧ Spared limits.pullTargetValue targetValue ∧
      Spared limits.pullReason reason
  | .ack body => ∀ request ∈ JsonScan.findPendingRequests body, ¬ Blanked limits.pullNonce request.fulfillNonce
  | _ => True

/-- The same, for a call that is buffered. -/
def EarlyKept : EarlyCall → Prop
  | .state (.setEnvironment environment) => Spared limits.environment environment
  | .state (.setUserMetadata entries) => MapKept entries
  | .state _ => True
  | .capture call => CaptureKept call

/-- No text that a launch starts with is blanked: the name in the options, the frames of the dump, and
what was buffered. -/
structure Launch.Kept (l : Launch) : Prop where
  environment : Spared limits.environment l.environment
  dump : ∀ dump ∈ l.previousNativeDump, ¬ Blanked limits.stackTrace (framesText dump.frames)
  early : ∀ c ∈ l.early, EarlyKept c

theorem Spared.stays {limit : Nat} {value : CString} (h : Spared limit value)
    (hvalue : CString.blank value = false) : Stays limit (value.getD []) := ⟨getD_ne_nil hvalue, h⟩

theorem not_blanked_clamped (value : CString) (limit : Nat) : ¬ Blanked limit (clamped value limit) :=
  not_blanked_of_le (length_clamped value limit)

/-! ## What a client keeps -/

section Fits

variable {u : Session.Identity} {m : Session.Metadata} {c : Session.Context}

/-- The ids are within their limits. -/
structure IdentityFits (u : Session.Identity) : Prop where
  userId : u.userId.length ≤ limits.userId
  steamId : u.steamId.length ≤ limits.steamId
  provisional : u.provisionalUserId.length ≤ limits.userId
  prior : u.pendingPriorUserId.length ≤ limits.userId

theorem IdentityFits.effective (h : IdentityFits u) : u.effective.length ≤ limits.userId := by
  unfold Session.Identity.effective
  split
  · exact h.provisional
  · exact h.userId

theorem IdentityFits.setUser (h : IdentityFits u) (userId steamId : CString) :
    IdentityFits (u.setUser userId steamId) := by
  have huser := length_clamped userId limits.userId
  have hsteam := length_clamped steamId limits.steamId
  unfold Session.Identity.setUser
  dsimp only
  split
  · exact ⟨huser, hsteam, h.provisional, Nat.zero_le _⟩
  · split
    · exact ⟨huser, hsteam, h.provisional, h.provisional⟩
    · exact ⟨huser, hsteam, h.provisional, h.prior⟩

theorem IdentityFits.commit (h : IdentityFits u) : IdentityFits u.commit := by
  refine ⟨h.userId, h.steamId, h.provisional, ?_⟩
  unfold Session.Identity.commit
  dsimp only
  split
  · exact Nat.zero_le _
  · exact h.prior

/-- Every value of the map is there, and stays. -/
def MetadataFits (m : Session.Metadata) : Prop := ∀ e ∈ m.userMetadata, Stays limits.userMetadataValue e.2

theorem replaceValue_values {P : Bytes → Prop} {key value : Bytes} {out out' : UserMetadataEntries}
    (h : replaceValue key value out = some out') (hvalue : P value) (hout : ∀ e ∈ out, P e.2) :
    ∀ e ∈ out', P e.2 := by
  intro e he
  rcases (replaceValue_keys h).2 e he with hold | rfl
  · exact hout e hold
  · exact hvalue

theorem clampEntries_values {out : UserMetadataEntries} {entries : List (CString × CString)}
    (hout : ∀ e ∈ out, Stays limits.userMetadataValue e.2)
    (h : ∀ e ∈ entries, CString.blank e.1 = false → Spared limits.userMetadataValue e.2) :
    ∀ e ∈ clampEntries out entries, Stays limits.userMetadataValue e.2 := by
  induction entries generalizing out with
  | nil => exact hout
  | cons entry entries ih =>
    obtain ⟨key, value⟩ := entry
    obtain ⟨hfirst, hmore⟩ := List.forall_mem_cons.mp h
    unfold clampEntries
    split
    · next k ks v vs =>
      -- the value is clamped as it is stored, under a key that is there or a new one
      have hstays : Stays limits.userMetadataValue (v :: vs) := (hfirst rfl).stays rfl
      have hclamped := hstays.clamped
      dsimp only
      split
      · next out' hout' => exact ih (replaceValue_values hout' hclamped hout) hmore
      · split
        · exact hout
        · refine ih (List.forall_mem_append.mpr ⟨hout, fun e he => ?_⟩) hmore
          rw [List.mem_singleton.mp he]
          exact hclamped
    · exact ih hout hmore

theorem MetadataFits.set {entries : Option (List (CString × CString))} (h : MapKept entries) (user : Bytes) :
    MetadataFits (m.set entries user) :=
  clampEntries_values (fun _ he => absurd he List.not_mem_nil) h

theorem MetadataFits.changeUser (h : MetadataFits m) (old next : Bytes) :
    MetadataFits (m.changeUser old next) := by
  unfold Session.Metadata.changeUser MetadataFits
  dsimp only
  split
  · exact h
  · exact fun _ he => absurd he List.not_mem_nil

theorem MetadataFits.changed (h : MetadataFits m) : KeptMetadata m.changed := by
  unfold Session.Metadata.changed
  split
  · exact .inr ⟨m.userMetadata, h, rfl⟩
  · exact .inl rfl

/-- The labels are within their limits. -/
structure ContextFits (c : Session.Context) : Prop where
  role : c.role.length ≤ limits.role
  serverId : c.serverId.length ≤ limits.serverId
  matchId : c.matchId.length ≤ limits.matchId
  environment : c.environment.length ≤ limits.environment
  region : c.region.length ≤ limits.region
  hostname : c.hostname.length ≤ limits.hostname

theorem ContextFits.setEnvironment (h : ContextFits c) (environment : CString) :
    ContextFits (c.setEnvironment environment) := by
  unfold Session.Context.setEnvironment
  split
  · exact h
  · exact h
  · exact { h with environment := utf8SafeTruncate_length _ _ }

theorem length_getD_map {old : Bytes} {limit : Nat} (h : old.length ≤ limit) (value : CString) :
    ((value.map fun v => utf8SafeTruncate v limit).getD old).length ≤ limit := by
  cases value with
  | none => exact h
  | some v => exact utf8SafeTruncate_length v limit

theorem length_keep {old : Bytes} {limit : Nat} (h : old.length ≤ limit) (value : CString) :
    (Session.Context.keep old value limit).length ≤ limit := by
  unfold Session.Context.keep
  split
  · exact h
  · exact h
  · exact utf8SafeTruncate_length _ _

theorem ContextFits.setServerInfo (h : ContextFits c) (region hostname : CString) :
    ContextFits (c.setServerInfo region hostname) :=
  { h with region := length_getD_map h.region region, hostname := length_getD_map h.hostname hostname }

theorem ContextFits.markDedicatedServer (h : ContextFits c) (serverId region hostname : CString) :
    ContextFits (c.markDedicatedServer serverId region hostname) :=
  { h with
    role := show (lit "server").length ≤ limits.role by decide
    serverId := length_keep h.serverId serverId
    region := length_keep h.region region
    hostname := length_keep h.hostname hostname }

theorem ContextFits.setMatchContext (h : ContextFits c) (serverId matchId : CString) :
    ContextFits (c.setMatchContext serverId matchId) :=
  { h with
    serverId := length_clamped serverId limits.serverId
    matchId := length_clamped matchId limits.matchId }

theorem device_kept (device : Option DeviceSpecs) : (DevicePayload.ofSpecs device).Kept := by
  unfold DevicePayload.Kept DevicePayload.texts DevicePayload.ofSpecs
  cases device with
  | none => simp [not_blanked_nil]
  | some d => simp [not_blanked_clamped]

end Fits

/-! ## What holds of a client -/

/-- What the client keeps is within its limits, and no body that it built has an empty string. -/
structure Within (s : State) : Prop where
  sessionId : Stays limits.sessionId s.captures.sessionId
  identity : IdentityFits s.identity
  metadata : MetadataFits s.metadata
  context : ContextFits s.context
  device : s.device.device.Kept
  trail : ∀ crumb ∈ s.captures.breadcrumbs.snapshot, crumb.Kept
  dump : ∀ dump ∈ s.previousNativeDump, ¬ Blanked limits.stackTrace (framesText dump.frames)
  batched : ∀ item ∈ s.captures.tracked, FilledBody item.text
  bodies : ∀ body ∈ s.bodies, FilledBody body

variable {printed : Double → Bytes} {s : State} {i : Input}

theorem Within.keptContext (h : Within s) : KeptContext s.identity.effective s.context.role s.context.serverId
    s.context.matchId s.captures.sessionId s.context.environment :=
  { userId := not_blanked_of_le h.identity.effective
    role := not_blanked_of_le h.context.role
    serverId := not_blanked_of_le h.context.serverId
    matchId := not_blanked_of_le h.context.matchId
    sessionId := h.sessionId.2
    environment := not_blanked_of_le h.context.environment }

theorem Within.enqueue (h : Within s) {body : Bytes} (hbody : FilledBody body) : Within (s.enqueue body) :=
  { h with bodies := List.forall_mem_append.mpr ⟨h.bodies, fun _ hb => List.mem_singleton.mp hb ▸ hbody⟩ }

theorem mem_trail {r : BreadcrumbRing} {level message stamp : Bytes} {serial : Nat} {P : Breadcrumb → Prop}
    (hmessage : message ≠ []) (hr : ∀ crumb ∈ r.snapshot, P crumb)
    (hnew : P (BreadcrumbRing.crumb level message stamp serial)) :
    ∀ crumb ∈ (r.add level message stamp serial).snapshot, P crumb := by
  rw [BreadcrumbRing.snapshot_add _ _ _ _ hmessage]
  exact List.forall_mem_append.mpr ⟨fun crumb hcrumb => hr crumb (List.mem_of_mem_drop hcrumb),
    fun crumb hcrumb => List.mem_singleton.mp hcrumb ▸ hnew⟩

/-- A crumb is kept as it is clamped in the ring. -/
theorem crumb_kept {level message : Bytes} (hlevel : Stays BreadcrumbRing.maxLevelBytes level)
    (hmessage : Stays BreadcrumbRing.maxMessageBytes message) (stamp : Bytes) (serial : Nat) :
    (BreadcrumbRing.crumb level message stamp serial).Kept := ⟨hlevel.clamped, hmessage.clamped⟩

theorem Within.record (h : Within s) (i : Input) {level message : Bytes}
    (hlevel : Stays BreadcrumbRing.maxLevelBytes level) (hmessage : Stays BreadcrumbRing.maxMessageBytes message) :
    Within (s.record i level message) :=
  { h with trail := mem_trail hmessage.1 h.trail (crumb_kept hlevel hmessage i.stamp 0) }

theorem levelLabel_stays (level : Int) : Stays BreadcrumbRing.maxLevelBytes (levelLabel level) := by
  unfold levelLabel
  split
  · exact stays_of_le (by decide) (by decide)
  · split
    · exact stays_of_le (by decide) (by decide)
    · split
      · exact stays_of_le (by decide) (by decide)
      · exact stays_of_le (by decide) (by decide)

/-! ## Captures -/

theorem Within.capture (h : Within s) (hprinted : PrintsNumbers printed) (i : Input) {call : CaptureCall}
    (hcall : CaptureKept call) :
    Within { s with captures := (s.captures.capture 0 (s.captureInput printed i) call).1 } := by
  have hput : ∀ (item : Item) (events metrics : Batch), FilledBody item.text →
      Within { s with captures := { s.captures with
        eventBatch := events, metricBatch := metrics, tracked := s.captures.tracked ++ [item] } } :=
    fun item _ _ hitem => { h with
      batched := List.forall_mem_append.mpr ⟨h.batched, fun t ht => List.mem_singleton.mp ht ▸ hitem⟩ }
  -- a text is tested for its emptiness first, so it is there where the capture is recorded
  cases call with
  | addBreadcrumb level message =>
    show Within { s with captures := (s.captures.addBreadcrumb 0 _ level message).1 }
    unfold CaptureClient.addBreadcrumb
    split
    · exact h
    · next hblank =>
      split
      · exact h
      · exact h.record i (levelLabel_stays level) (Spared.stays hcall (by simpa using hblank))
  | trackEvent name attributes =>
    show Within { s with captures := (s.captures.trackEvent 0 _ name attributes).1 }
    unfold CaptureClient.trackEvent
    split
    · exact h
    · next hblank =>
      split
      · exact h
      · split
        · exact h
        · split
          · exact h
          · exact hput _ _ _ (buildEventJson_filled
              ⟨Spared.stays hcall (by simpa using hblank), h.keptContext⟩)
  | trackMetric name value unit =>
    show Within { s with captures := (s.captures.trackMetric 0 _ name value unit).1 }
    unfold CaptureClient.trackMetric
    split
    · exact h
    · next hblank =>
      split
      · exact h
      · next hfinite =>
        split
        · exact h
        · split
          · exact h
          · exact hput _ _ _ (buildMetricJson_filled hprinted
              ⟨Spared.stays hcall.1 (by simpa using hblank), by simpa using hfinite, hcall.2, h.keptContext⟩)

/-! ## Reports -/

/-- What a fingerprint is made of: 32 digits. -/
theorem computeCrashSignature_stays (hint trace : Bytes) :
    Stays limits.signature (Signature.computeCrashSignature hint trace) := by
  have hle : (Signature.computeCrashSignature hint trace).length ≤ 32 := List.length_take_le ..
  refine stays_of_le (fun hnil => ?_) (Nat.le_trans hle (by decide))
  rcases List.take_eq_nil_iff.mp hnil with hzero | hhex
  · cases hzero
  · obtain ⟨b, bs, hraw⟩ := List.exists_cons_of_length_pos
      (l := Signature.sha256Raw (Signature.frameLoop trace 0 0 hint)) (by rw [Signature.sha256Raw_length]; decide)
    rw [Signature.sha256Hex, hraw, Signature.toHex, List.flatMap_cons] at hhex
    cases hhex

theorem crashHint_stays {stackHint : CString} (h : Spared limits.stackHint stackHint) :
    Stays limits.stackHint (crashHint stackHint) := by
  unfold crashHint
  split
  · exact stays_of_le (by decide) (by decide)
  · next hblank => exact h.stays (by simpa using hblank)

/-- A crumb of a report that is suppressed starts with a word. -/
theorem suppressedMessage_stays (count : Nat) (hint : Bytes) :
    Stays BreadcrumbRing.maxMessageBytes (suppressedMessage count hint) :=
  ⟨suppressedMessage_ne_nil count hint, not_blanked_cons (by decide) (by decide)⟩

theorem Within.crashPayload (h : Within s) (i : Input) {signature hint trace : Bytes} {wantLog : Bool}
    (hsignature : Stays limits.signature signature) (hhint : Stays limits.stackHint hint)
    (htrace : ¬ Blanked limits.stackTrace trace) : (s.crashPayload i signature hint trace wantLog).Kept :=
  { signature := hsignature
    stackHint := hhint
    stackTrace := htrace
    breadcrumbs := h.trail
    priorUserId := not_blanked_of_le h.identity.prior
    steamId := not_blanked_of_le h.identity.steamId
    context := h.keptContext
    device := h.device
    crashType := not_blanked_nil _ }

theorem Within.bugPayload (h : Within s) (i : Input) {category message : Bytes} {wantLog : Bool}
    (hcategory : ¬ Blanked limits.bugCategory category) (hmessage : Stays limits.bugMessage message) :
    (s.bugPayload i category message wantLog).Kept :=
  { category := hcategory
    message := hmessage
    priorUserId := not_blanked_of_le h.identity.prior
    steamId := not_blanked_of_le h.identity.steamId
    breadcrumbs := h.trail
    context := h.keptContext
    device := h.device }

theorem Within.previousPayload (h : Within s) (i : Input) (previous : SessionMarkerData) {signature hint : Bytes}
    (hsignature : Stays limits.signature signature) (hhint : Stays limits.stackHint hint) :
    (s.previousPayload i previous signature hint).Kept :=
  { signature := hsignature
    stackHint := hhint
    stackTrace := not_blanked_nil _
    breadcrumbs := fun _ hcrumb => absurd hcrumb List.not_mem_nil
    priorUserId := not_blanked_nil _
    steamId := not_blanked_of_le h.identity.steamId
    context := { h.keptContext with
      role := not_blanked_nil _
      serverId := not_blanked_nil _
      matchId := not_blanked_nil _
      sessionId := not_blanked_nil _ }
    device := h.device
    crashType := not_blanked_nil _ }

/-- The hint of a native crash starts with a word, and its fingerprint is computed. -/
theorem Within.nativePayload (h : Within s) (i : Input) (previous : SessionMarkerData) {dump : NativeCrashDump}
    (hdump : ¬ Blanked limits.stackTrace (framesText dump.frames)) : (s.nativePayload i previous dump).Kept := by
  have hhint : Stays limits.stackHint (reportNativeCrash dump).stackHint := by
    refine ⟨fun hnil => ?_, not_blanked_cons (by decide) (by decide)⟩
    cases hnil
  have htype : ¬ Blanked limits.signature (reportNativeCrash dump).crashType := by
    unfold reportNativeCrash
    dsimp only
    split
    · exact not_blanked_of_le (by decide)
    · exact not_blanked_of_le (by decide)
  exact { h.previousPayload i previous (computeCrashSignature_stays _ _) hhint with
    stackTrace := hdump
    crashType := htype }

theorem Within.reportUncleanShutdown (h : Within s) (hprinted : PrintsNumbers printed) (i : Input)
    (previous : SessionMarkerData) : Within (s.reportUncleanShutdown printed i previous) := by
  have hdropped : Within { s with previousNativeDump := none } :=
    { h with dump := fun _ hd => absurd hd (Option.not_mem_none _) }
  unfold State.reportUncleanShutdown
  split
  · exact hdropped
  · split
    · next dump hfound =>
      exact hdropped.enqueue (buildCrashJson_filled hprinted (h.nativePayload i previous (h.dump dump hfound)))
    · exact h.enqueue (buildCrashJson_filled hprinted (h.previousPayload i previous
        (stays_of_le (by decide) (by decide)) (stays_of_le (by decide) (by decide))))

theorem Within.startSessionTracking (h : Within s) (hprinted : PrintsNumbers printed) (i : Input) :
    Within (s.startSessionTracking printed i) := by
  unfold State.startSessionTracking
  split
  · exact h
  · split
    · exact { h with }
    · next previous hfound =>
      have hmarked : Within { s with sessionTrackingStarted := true, previousMarker := none } := { h with }
      exact hmarked.reportUncleanShutdown hprinted i previous

theorem Within.reportCrash (h : Within s) (hprinted : PrintsNumbers printed) (i : Input)
    {signature stackHint stackTrace : CString} {attachLog : Bool} (hsignature : Spared limits.signature signature)
    (hhint : Spared limits.stackHint stackHint) (htrace : Spared limits.stackTrace stackTrace) :
    Within (s.reportCrash printed i signature stackHint stackTrace attachLog) := by
  unfold State.reportCrash
  split
  · exact h
  · dsimp only
    generalize heffective : (if CString.blank signature then
      Signature.computeCrashSignature (crashHint stackHint) (stackTrace.getD [])
      else signature.getD []) = effective
    -- a fingerprint is made up where the host gave none
    have hstays : Stays limits.signature effective := by
      rw [← heffective]
      split
      · exact computeCrashSignature_stays _ _
      · next hblank => exact hsignature.stays (by simpa using hblank)
    have hdeduped : ∀ dedupe, Within { s with dedupe } := fun dedupe => { h with }
    split
    · exact (hdeduped _).record i (stays_of_le (by decide) (by decide)) (suppressedMessage_stays _ _)
    · exact (hdeduped _).enqueue (buildCrashJson_filled hprinted
        ((hdeduped _).crashPayload i hstays (crashHint_stays hhint) htrace))

theorem Within.reportBug (h : Within s) (hprinted : PrintsNumbers printed) (i : Input) {category message : CString}
    {attachLog : Bool} (hcategory : Spared limits.bugCategory category)
    (hmessage : Spared limits.bugMessage message) :
    Within (s.reportBug printed i category message attachLog) := by
  unfold State.reportBug
  split
  · exact h
  · next hgo =>
    have hblank := (Bool.or_eq_false_iff.mp (eq_false_of_ne_true hgo)).1
    exact h.enqueue (buildBugReportJson_filled hprinted (h.bugPayload i hcategory (hmessage.stays hblank)))

/-! ## Beats and acks -/

theorem Within.beatPayload (h : Within s) (i : Input) : (s.beatPayload i).Kept := by
  have hrole : ¬ Blanked limits.role (if s.context.role.isEmpty then lit "client" else s.context.role) := by
    split
    · exact not_blanked_of_le (by decide)
    · exact not_blanked_of_le h.context.role
  have hdevice : (if s.carriesDevice then s.device.device else {}).Kept := by
    split
    · exact h.device
    · exact device_kept none
  refine
    { sessionId := h.sessionId
      priorUserId := not_blanked_of_le h.identity.prior
      metadata := h.metadata.changed
      frameStats := fun f hf => ?_
      region := not_blanked_of_le h.context.region
      hostname := not_blanked_of_le h.context.hostname
      context := { h.keptContext with role := hrole }
      device := hdevice }
  obtain ⟨frames, -, rfl⟩ := Option.map_eq_some_iff.mp hf
  exact ⟨frames.fpsAvg_finite, frames.slowFramePct_finite⟩

theorem Within.heartbeat (h : Within s) (hprinted : PrintsNumbers printed) (i : Input) :
    Within (s.heartbeat printed i) := by
  unfold State.heartbeat
  split
  · have hcarried : Within { s with
        identity := s.identity.carry
        metadata := s.metadata.carry
        device := { s.device with carryInFlight := s.carriesDevice || s.device.carryInFlight } } :=
      { h with identity := { h.identity with } }
    exact hcarried.enqueue (buildHeartbeatJson_filled hprinted (h.beatPayload i))
  · exact h

theorem Within.commit (h : Within s) : Within s.commit := { h with identity := h.identity.commit }

theorem Within.ack (h : Within s) {body : Bytes}
    (hbody : ∀ request ∈ JsonScan.findPendingRequests body, ¬ Blanked limits.pullNonce request.fulfillNonce) :
    Within (s.ack body) := by
  have hcommitted := h.commit
  unfold State.ack
  dsimp only
  split
  · exact hcommitted
  · refine { hcommitted with bodies := List.forall_mem_append.mpr ⟨h.bodies, fun b hb => ?_⟩ }
    obtain ⟨request, hrequest, rfl⟩ := List.mem_map.mp hb
    exact buildPullFulfillJson_filled request.nonceExpiry hcommitted.keptContext
      (hbody request (List.mem_of_mem_filter hrequest))

/-! ## Steps and runs -/

/-- **One step** of a client keeps what holds of it. -/
theorem perform_within (h : Within s) (hprinted : PrintsNumbers printed) (i : Input) {call : Call}
    (hcall : call.Kept) : Within (perform printed s i call) := by
  cases call with
  | setConsent granted =>
    have hset : Within { s with captures := s.captures.setConsent granted } := by
      -- a consent that is taken back empties the trail
      refine { h with trail := ?_ }
      unfold CaptureClient.setConsent
      dsimp only
      split
      · exact fun _ hcrumb => absurd hcrumb List.not_mem_nil
      · exact h.trail
    show Within (if granted && s.captures.initialized then State.startSessionTracking printed _ i else _)
    split
    · exact hset.startSessionTracking hprinted i
    · exact hset
  | startSession => exact { h with }
  | setUser userId steamId =>
    refine { h with identity := h.identity.setUser userId steamId, metadata := ?_ }
    show MetadataFits (if _ then _ else _)
    split
    · exact h.metadata.changeUser _ _
    · exact h.metadata
  | setUserMetadata entries => exact { h with metadata := .set hcall _ }
  | setEnvironment environment => exact { h with context := h.context.setEnvironment environment }
  | setServerInfo region hostname => exact { h with context := h.context.setServerInfo region hostname }
  | markDedicatedServer serverId region hostname =>
    exact { h with context := h.context.markDedicatedServer serverId region hostname }
  | setMatchContext serverId matchId => exact { h with context := h.context.setMatchContext serverId matchId }
  | startMatch outCap =>
    show Within (if _ then _ else _)
    split
    · exact h
    · refine { h with context := { h.context with role := ?_, matchId := ?_ } }
      · show (lit "server").length ≤ limits.role
        decide
      · show i.matchId.length ≤ limits.matchId
        rw [i.matchId_length]
        decide
  | endMatch => exact { h with context := { h.context with matchId := Nat.zero_le _ } }
  | setDevice device => exact { h with device := device_kept device }
  | setSampleRates sampler => exact { h with }
  | capture call => exact h.capture hprinted i hcall
  | logLine level line =>
    show Within (if _ then _ else _)
    split
    · exact h
    · next hgo =>
      have hblank := (Bool.or_eq_false_iff.mp (eq_false_of_ne_true hgo)).1
      exact h.record i (levelLabel_stays level) (Spared.stays hcall hblank)
  | setLevel name =>
    show Within (if _ then _ else _)
    split
    · exact h
    · refine h.record i (stays_of_le (by decide) (by decide)) ⟨?_, not_blanked_cons (by decide) (by decide)⟩
      exact List.append_ne_nil_of_left_ne_nil (by decide) _
  | reportCrash signature stackHint stackTrace attachLog =>
    exact h.reportCrash hprinted i hcall.1 hcall.2.1 hcall.2.2
  | reportBug category message attachLog => exact h.reportBug hprinted i hcall.1 hcall.2
  | requestPlayerLogs targetType targetValue reason =>
    show Within (if _ then _ else _)
    split
    · exact h
    · next hgo =>
      -- each of the three texts was tested, and each is kept
      obtain ⟨htexts, hreason⟩ := Bool.or_eq_false_iff.mp (eq_false_of_ne_true hgo)
      obtain ⟨htype, hvalue⟩ := Bool.or_eq_false_iff.mp htexts
      exact h.enqueue (buildPullRequestJson_filled (hcall.1.stays (Bool.or_eq_false_iff.mp htype).2)
        (hcall.2.1.stays hvalue) (hcall.2.2.stays hreason))
  | heartbeat => exact h.heartbeat hprinted i
  | ack body => exact h.ack hcall

theorem initialized_within {l : Launch} (hl : l.Kept) : Within (initialized l) where
  sessionId := by
    refine stays_of_le (fun hnil => ?_) (l.sessionId_length.trans_le (by decide))
    have hlength := l.sessionId_length
    rw [show l.sessionId = [] from hnil] at hlength
    cases hlength
  identity := ⟨Nat.zero_le _, Nat.zero_le _,
    Nat.le_trans (DeviceIdentity.length_of_isValid l.provisional_valid) (by decide), Nat.zero_le _⟩
  metadata := fun _ he => absurd he List.not_mem_nil
  context := ContextFits.setEnvironment
    ⟨Nat.zero_le _, Nat.zero_le _, Nat.zero_le _, Nat.zero_le _, Nat.zero_le _, Nat.zero_le _⟩ l.environment
  device := device_kept none
  trail := fun _ hcrumb => absurd hcrumb List.not_mem_nil
  dump := hl.dump
  batched := fun _ hitem => absurd hitem List.not_mem_nil
  bodies := fun _ hbody => absurd hbody List.not_mem_nil

theorem init_within (hprinted : PrintsNumbers printed) {l : Launch} (hl : l.Kept) (i : Input) :
    Within (init printed l i) := by
  unfold init
  split
  · exact (initialized_within hl).startSessionTracking hprinted i
  · exact initialized_within hl

/-- Nothing that is buffered is blanked. -/
structure StoreKept (p : EarlyStore) : Prop where
  environment : ∀ e ∈ p.state.environment, ¬ Blanked limits.environment e
  userMetadata : ∀ m ∈ p.state.userMetadata, ∀ e ∈ m, Stays limits.userMetadataValue e.2
  breadcrumbs : ∀ crumb ∈ p.breadcrumbs, CaptureKept crumb.call
  tracks : ∀ track ∈ p.tracks, CaptureKept track.call

theorem forall_pushDroppingOldest {α : Type} {P : α → Prop} {l : List α} {a : α}
    (hl : ∀ x ∈ l, P x) (ha : P a) (bound : Nat) :
    ∀ x ∈ Buffers.pushDroppingOldest bound l a, P x := by
  refine List.forall_mem_append.mpr ⟨fun x hx => ?_, fun x hx => List.mem_singleton.mp hx ▸ ha⟩
  split at hx
  · exact hl x (List.mem_of_mem_tail hx)
  · exact hl x hx

theorem forall_pushUnlessFull {α : Type} {P : α → Prop} {l : List α} {a : α}
    (hl : ∀ x ∈ l, P x) (ha : P a) (bound : Nat) :
    ∀ x ∈ Buffers.pushUnlessFull bound l a, P x := by
  unfold Buffers.pushUnlessFull
  split
  · exact hl
  · exact List.forall_mem_append.mpr ⟨hl, fun x hx => List.mem_singleton.mp hx ▸ ha⟩

theorem StoreKept.apply {p : EarlyStore} (h : StoreKept p) {c : EarlyCall × Nat} (hc : EarlyKept c.1) :
    StoreKept (p.apply c) := by
  obtain ⟨call, serial⟩ := c
  cases call with
  | state call =>
    show StoreKept { p with state := p.state.apply call }
    cases call with
    | setConsent | setUser | startSession => exact { h with }
    | setEnvironment environment =>
      -- only a name that is not empty is buffered
      cases environment with
      | none => exact h
      | some name =>
        cases name with
        | nil => exact h
        | cons b bs => exact { h with environment := fun e he => Option.some.inj he ▸ hc }
    | setUserMetadata entries =>
      refine { h with userMetadata := fun m hm => ?_ }
      rw [← Option.some.inj hm]
      exact clampEntries_values (fun _ he => absurd he List.not_mem_nil) hc
  | capture call =>
    show StoreKept (p.capture serial call).1
    cases call with
    | addBreadcrumb level message =>
      have hnew : CaptureKept (PreInitStore.Crumb.call ⟨level, message.getD [], serial⟩) := hc
      rw [EarlyStore.capture]
      split
      · exact h
      · exact { h with breadcrumbs := forall_pushDroppingOldest h.breadcrumbs hnew _ }
    | trackEvent name attributes =>
      cases attributes with
      | none =>
        show StoreKept (if _ then (p, _) else (p, _) : EarlyStore × CaptureResult).1
        split
        · exact h
        · exact h
      | some attributes =>
        have hnew : CaptureKept (PreInitStore.Track.call
            { name := name.getD [], attributes := usableAttributes attributes, serial }) := hc
        show StoreKept (if _ then (p, _) else (p.addTrack _, _) : EarlyStore × CaptureResult).1
        split
        · exact h
        · exact { h with tracks := forall_pushUnlessFull h.tracks hnew _ }
    | trackMetric name value unit =>
      have hnew : CaptureKept (PreInitStore.Track.call
          { isMetric := true, name := name.getD [], value, unit := unit.getD [], serial }) := hc
      rw [EarlyStore.capture]
      split
      · exact h
      · exact { h with tracks := forall_pushUnlessFull h.tracks hnew _ }

theorem ofCalls_kept {calls : List EarlyCall} (h : ∀ c ∈ calls, EarlyKept c) : StoreKept (.ofCalls calls) := by
  have hfold : ∀ (l : List (EarlyCall × Nat)) {p : EarlyStore}, StoreKept p → (∀ c ∈ l, EarlyKept c.1) →
      StoreKept (l.foldl EarlyStore.apply p) := by
    intro l
    induction l with
    | nil => exact fun hp _ => hp
    | cons c l ih =>
      intro p hp hl
      obtain ⟨hc, hmore⟩ := List.forall_mem_cons.mp hl
      exact ih (hp.apply hc) hmore
  have hempty : StoreKept {} :=
    ⟨fun _ he => absurd he (Option.not_mem_none _), fun _ hm => absurd hm (Option.not_mem_none _),
      fun _ hcrumb => absurd hcrumb List.not_mem_nil, fun _ htrack => absurd htrack List.not_mem_nil⟩
  exact hfold calls.zipIdx hempty fun c hc => h c.1 (List.fst_mem_of_mem_zipIdx hc)

/-- **What is replayed** is kept where what was buffered is. -/
theorem replay_kept {p : EarlyStore} (h : StoreKept p) : ∀ c ∈ replay p, c.Kept := by
  unfold replay
  simp only [List.forall_mem_append, List.forall_mem_map, Option.mem_toList]
  -- in the order of the replay; consent and a user hand on nothing that could be blanked
  refine ⟨⟨⟨⟨⟨⟨fun _ _ => trivial, fun _ _ => trivial⟩, h.environment⟩, ?_⟩, h.breadcrumbs⟩, h.tracks⟩, ?_⟩
  · intro m hm e he _
    obtain ⟨entry, hentry, rfl⟩ := List.mem_map.mp he
    exact (h.userMetadata m hm entry hentry).2
  · split
    · exact fun c hc => List.mem_singleton.mp hc ▸ trivial
    · exact fun _ hc => absurd hc List.not_mem_nil

/-! ## The environment -/

theorem startSessionTracking_context : (s.startSessionTracking printed i).context = s.context := by
  unfold State.startSessionTracking State.reportUncleanShutdown
  repeat' split
  all_goals rfl

theorem reportCrash_context {signature stackHint stackTrace : CString} {attachLog : Bool} :
    (s.reportCrash printed i signature stackHint stackTrace attachLog).context = s.context := by
  unfold State.reportCrash
  dsimp only
  repeat' split
  all_goals rfl

theorem setEnvironment_ne_nil {c : Session.Context} (hc : c.environment ≠ []) {environment : CString}
    (h : Spared limits.environment environment) : (c.setEnvironment environment).environment ≠ [] := by
  unfold Session.Context.setEnvironment
  split
  · exact hc
  · exact hc
  · exact Stays.truncate ⟨List.cons_ne_nil _ _, h⟩

/-- **A step keeps an environment that is set.** -/
theorem perform_environment (h : s.context.environment ≠ []) {call : Call} (hcall : call.Kept) :
    (perform printed s i call).context.environment ≠ [] := by
  cases call with
  | setConsent granted =>
    show (if _ then State.startSessionTracking printed _ i else _ : State).context.environment ≠ []
    split
    · rw [startSessionTracking_context]
      exact h
    · exact h
  | setEnvironment environment => exact setEnvironment_ne_nil h hcall
  | reportCrash =>
    show (State.reportCrash _ _ _ _ _ _ _).context.environment ≠ []
    rw [reportCrash_context]
    exact h
  | startMatch | logLine | setLevel | requestPlayerLogs =>
    show (if _ then _ else _ : State).context.environment ≠ []
    split
    · exact h
    · exact h
  | reportBug =>
    show (State.reportBug _ _ _ _ _ _).context.environment ≠ []
    unfold State.reportBug
    split
    · exact h
    · exact h
  | heartbeat =>
    show (State.heartbeat _ _ _).context.environment ≠ []
    unfold State.heartbeat
    split
    · exact h
    · exact h
  | ack =>
    show (State.ack _ _).context.environment ≠ []
    unfold State.ack
    dsimp only
    split
    · exact h
    · exact h
  | _ => exact h

/-! ## Runs -/

/-- What is claimed of a run: no body has an empty string, and an environment that is set at some point of
the run is set at its end. -/
structure Upheld (printed : Double → Bytes) (l : Launch) (input : Nat → Input) (calls : List Call) : Prop where
  batched : ∀ item ∈ (run printed l input calls).captures.tracked, FilledBody item.text
  bodies : ∀ body ∈ (run printed l input calls).bodies, FilledBody body
  environment : ∀ front back, calls = front ++ back → (run printed l input front).context.environment ≠ [] →
    (run printed l input calls).context.environment ≠ []

/-- The steps of a run, one after the other. -/
theorem steps_within (hprinted : PrintsNumbers printed) (input : Nat → Input) {steps : List (Call × Nat)}
    (h : Within s) (hsteps : ∀ c ∈ steps, c.1.Kept) :
    Within (steps.foldl (fun s c => perform printed s (input c.2) c.1) s) ∧ (s.context.environment ≠ [] →
      (steps.foldl (fun s c => perform printed s (input c.2) c.1) s).context.environment ≠ []) := by
  induction steps generalizing s with
  | nil => exact ⟨h, id⟩
  | cons c steps ih =>
    obtain ⟨hc, hmore⟩ := List.forall_mem_cons.mp hsteps
    obtain ⟨hwithin, henvironment⟩ := ih (perform_within h hprinted (input c.2) hc) hmore
    exact ⟨hwithin, fun hset => henvironment (perform_environment hset hc)⟩

/-- **A run whose texts are kept** builds no body with an empty string, and keeps its environment. -/
theorem run_upheld (hprinted : PrintsNumbers printed) {l : Launch} (hl : l.Kept) (input : Nat → Input)
    {calls : List Call} (hcalls : ∀ c ∈ calls, c.Kept) : Upheld printed l input calls := by
  have hkept : ∀ calls : List Call, (∀ c ∈ calls, c.Kept) → ∀ n,
      ∀ c ∈ (replay (.ofCalls l.early) ++ calls).zipIdx n, c.1.Kept := by
    intro calls hcalls n c hc
    rcases List.mem_append.mp (List.fst_mem_of_mem_zipIdx hc) with hreplay | hcall
    · exact replay_kept (ofCalls_kept hl.early) c.1 hreplay
    · exact hcalls c.1 hcall
  have hwithin : ∀ calls : List Call, (∀ c ∈ calls, c.Kept) → Within (run printed l input calls) :=
    fun calls hcalls =>
      (steps_within hprinted input (init_within hprinted hl (input 0)) (hkept calls hcalls 1)).1
  refine ⟨(hwithin calls hcalls).batched, (hwithin calls hcalls).bodies, ?_⟩
  rintro front back rfl hset
  obtain ⟨hfront, hback⟩ := List.forall_mem_append.mp hcalls
  -- the calls at the back follow the run of those at the front
  have hsplit : run printed l input (front ++ back) =
      (back.zipIdx (1 + (replay (.ofCalls l.early) ++ front).length)).foldl
        (fun s c => perform printed s (input c.2) c.1) (run printed l input front) := by
    rw [run, run, ← List.append_assoc, List.zipIdx_append, List.foldl_append]
  rw [hsplit]
  exact (steps_within hprinted input (hwithin front hfront) fun c hc =>
    hback c.1 (List.fst_mem_of_mem_zipIdx hc)).2 hset

/-! ## Texts that are blanked -/

/-- A launch with plain options. -/
def plainLaunch : Launch where
  buildVersion := lit "1.0"
  os := lit "linux"
  arch := lit "x64"
  provisionalUserId := lit "dev_0123456789abcdef"
  provisional_valid := by decide

/-- A letter, and bytes that continue a character: no UTF-8. -/
def continued (n : Nat) : Bytes := ch 'A' :: List.replicate n 0x80

/-- The value of the metrics here is 1. -/
theorem run_upheld_metric : Upheld (fun _ => lit "1") plainLaunch (fun _ => {})
    [.setEnvironment (some (lit "prod")),
      .capture (.trackMetric (some (lit "fps")) ⟨0x3FF0000000000000⟩ (some (lit "Hz")))] := by
  have hone : PrintsNumbers fun _ => lit "1" := fun _ _ => (by decide : Json.IsNumber (lit "1"))
  have hlaunch : plainLaunch.Kept :=
    ⟨by decide, fun _ hd => absurd hd (Option.not_mem_none _), fun _ hc => absurd hc List.not_mem_nil⟩
  refine run_upheld hone hlaunch _ fun c hc => ?_
  rcases List.mem_cons.mp hc with rfl | hc
  · show Spared limits.environment (some (lit "prod"))
    decide
  · rw [List.mem_singleton.mp hc]
    exact show Spared _ _ ∧ Spared _ _ from ⟨by decide, by decide⟩

/-- Whether the body reads as an object with an empty string under this name. -/
def hasEmpty (name body : Bytes) : Bool :=
  match Json.parse body with
  | some (.obj members) => members.any fun m => m.1 == name && match m.2 with
    | .str text => text.isEmpty
    | _ => false
  | _ => false

theorem not_filledBody {name body : Bytes} (h : hasEmpty name body = true) (hname : name ∉ exempt) :
    ¬ FilledBody body := by
  rintro ⟨members, hparse, hfilled⟩
  rw [hasEmpty, hparse] at h
  obtain ⟨m, hm, hempty⟩ := List.any_eq_true.mp h
  obtain ⟨hsame, hstring⟩ := (Bool.and_eq_true _ _).mp hempty
  have hvalue := hfilled m hm (eq_of_beq hsame ▸ hname)
  split at hstring
  · next text htext =>
    rw [htext] at hvalue
    cases hvalue with
    | str hne => exact hne (List.isEmpty_iff.mp hstring)
  · cases hstring

def blankedUnit : List Call :=
  [.capture (.trackMetric (some (lit "fps")) ⟨0x3FF0000000000000⟩ (some (continued 16)))]

/-- **Two texts that are blanked**: a unit is written as an empty string, and a name unsets the environment. -/
theorem blanked_texts : ¬ Upheld (fun _ => lit "1") plainLaunch (fun _ => {}) blankedUnit ∧
    ¬ Upheld (fun _ => lit "1") plainLaunch (fun _ => {})
      [.setEnvironment (some (lit "prod")), .setEnvironment (some (continued 64))] := by
  constructor
  · intro h
    have hunit : ((run (fun _ => lit "1") plainLaunch (fun _ => {}) blankedUnit).captures.tracked.any
        fun item => hasEmpty (lit "unit") item.text) = true := by decide +kernel
    obtain ⟨item, hitem, hempty⟩ := List.any_eq_true.mp hunit
    exact not_filledBody hempty (by decide) (h.batched item hitem)
  · intro h
    exact absurd (h.environment [_] [_] rfl (by decide)) (by decide)

end Tombstone.FilledRuns
