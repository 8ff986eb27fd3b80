import Tombstone.Session

/- What one action does to the parts of a session's state, and what it leaves its thread to
   do. Every part has few writers; the results about the heartbeat protocol and about the
   bodies rest on these lists. -/
namespace Tombstone.Session

variable {s s' : State} {a b : Act} {i : Input} {new : List Act}

/-- The beat an action holds. -/
def Act.beat : Act → Option Beat
  | .beatUser b | .beatContext b | .beatServerInfo b | .beatSent b | .beatDevice b
  | .beatMetadata b | .raiseCarry b | .enqueueBeat b | .ackDevice b | .storeSent b | .ackUser b
  | .ackMetadata b => some b
  | _ => none

/-- The report an action holds. -/
def Act.report? : Act → Option Report
  | .reportUser r | .reportPrior r | .reportSteam r | .reportContext r | .reportDevice r
  | .enqueueReport r => some r
  | _ => none

/-- Which action can follow from which. -/
inductive Leads (s : State) (i : Input) : Act → Act → Prop where
  | track : Leads s i .trackIfConsented .startSessionTracking
  | consent {granted : Bool} : Leads s i (.setConsent granted) .startSessionTracking
  | lowerSent {device : Option DeviceSpecs} : Leads s i (.storeDevice device) .lowerSent
  | lowerCarry {device : Option DeviceSpecs} : Leads s i (.storeDevice device) .lowerCarry
  | previous {kind : ReportKind} (launch : kind.live = false) :
      Leads s i .startSessionTracking (.reportUser { kind })
  | report {kind : ReportKind} (consent : s.consent = true) :
      Leads s i (.report kind) (.reportUser { kind })
  | reportPrior {r : Report} (live : r.kind.live = true) :
      Leads s i (.reportUser r) (.reportPrior (r.readUser s.identity))
  | reportSteam {r : Report} (live : r.kind.live = false) :
      Leads s i (.reportUser r) (.reportSteam (r.readUser s.identity))
  | reportMarked {r : Report} : Leads s i (.reportPrior r) (.reportSteam (r.readPrior s.identity))
  | reportContext {r : Report} :
      Leads s i (.reportSteam r) (.reportContext { r with steamId := s.identity.steamId })
  | reportDevice {r : Report} : Leads s i (.reportContext r) (.reportDevice (r.readContext s.context))
  | enqueueReport {r : Report} :
      Leads s i (.reportDevice r) (.enqueueReport { r with device := s.device.device })
  | beat (consent : s.consent = true) (gate : s.gate.opened = true) :
      Leads s i .heartbeat (.beatUser (newBeat s i))
  | nextBeat : Leads s i .heartbeat .heartbeat
  | beatContext {b : Beat} : Leads s i (.beatUser b) (.beatContext (b.readUser s.identity))
  | beatServerInfo {b : Beat} : Leads s i (.beatContext b) (.beatServerInfo (b.readContext s.context))
  | beatSent {b : Beat} : Leads s i (.beatServerInfo b) (.beatSent (b.readServerInfo s.context))
  | beatDevice {b : Beat} (unsent : s.device.sentOnHeartbeat = false) :
      Leads s i (.beatSent b) (.beatDevice b)
  | beatUnchanged {b : Beat} : Leads s i (.beatSent b) (.beatMetadata b)
  | beatMetadata {b : Beat} : Leads s i (.beatDevice b) (.beatMetadata (b.readDevice s.device))
  | raiseCarry {b : Beat} (carrying : b.carryingDevice = true) :
      Leads s i (.beatMetadata b) (.raiseCarry (b.readMetadata s.metadata i.frameStats))
  | enqueueBeat {b : Beat} (carrying : b.carryingDevice = false) :
      Leads s i (.beatMetadata b) (.enqueueBeat (b.readMetadata s.metadata i.frameStats))
  | enqueueCarrying {b : Beat} : Leads s i (.raiseCarry b) (.enqueueBeat b)
  | ackDevice {b : Beat} {rest : List Beat} (head : s.queue = b :: rest) : Leads s i .send (.ackDevice b)
  | ackUser {b : Beat} {rest : List Beat} (head : s.queue = b :: rest) : Leads s i .send (.ackUser b)
  | ackMetadata {b : Beat} {rest : List Beat} (head : s.queue = b :: rest) :
      Leads s i .send (.ackMetadata b)
  | nextSend : Leads s i .send .send
  | storeSent {b : Beat} (raised : s.device.carryInFlight = true) :
      Leads s i (.ackDevice b) (.storeSent b)

theorem startSessionTracking_leads (h : startSessionTracking s = (s', new)) (hb : b ∈ new) :
    Leads s i .startSessionTracking b := by
  unfold startSessionTracking at h
  split at h
  · obtain ⟨-, rfl⟩ := Prod.mk.inj h
    cases hb
  · split at h
    · obtain ⟨-, rfl⟩ := Prod.mk.inj h
      cases hb
    · dsimp only at h
      split at h <;> obtain ⟨-, rfl⟩ := Prod.mk.inj h
      · cases hb
      · rw [List.mem_singleton.mp hb]
        refine .previous ?_
        split <;> rfl

theorem reportUser_leads {r : Report} (h : perform s (.reportUser r) i = some (s', new))
    (hb : b ∈ new) : Leads s i (.reportUser r) b := by
  obtain ⟨-, rfl⟩ := Prod.mk.inj (Option.some.inj h)
  rw [List.mem_singleton.mp hb]
  cases hlive : r.kind.live <;>
    simp only [Report.readUser_kind, hlive, if_true, Bool.false_eq_true, if_false]
  · exact .reportSteam hlive
  · exact .reportPrior hlive

theorem heartbeat_leads (h : perform s .heartbeat i = some (s', new)) (hb : b ∈ new) :
    Leads s i .heartbeat b := by
  simp only [perform] at h
  split at h
  · cases h
  · obtain ⟨-, rfl⟩ := Prod.mk.inj (Option.some.inj h)
    rcases List.mem_append.mp hb with hb | hb
    · obtain ⟨hguard, hb⟩ := List.mem_ite_nil_right.mp hb
      rw [List.mem_singleton.mp hb]
      simp only [Bool.and_eq_true] at hguard
      exact .beat hguard.1 hguard.2
    · rw [List.mem_singleton.mp hb]
      exact .nextBeat

theorem beatSent_leads {beat : Beat} (h : perform s (.beatSent beat) i = some (s', new))
    (hb : b ∈ new) : Leads s i (.beatSent beat) b := by
  obtain ⟨-, rfl⟩ := Prod.mk.inj (Option.some.inj h)
  rw [List.mem_singleton.mp hb]
  cases hsent : s.device.sentOnHeartbeat <;> simp only [if_true, Bool.false_eq_true, if_false]
  · exact .beatDevice hsent
  · exact .beatUnchanged

theorem beatMetadata_leads {beat : Beat} (h : perform s (.beatMetadata beat) i = some (s', new))
    (hb : b ∈ new) : Leads s i (.beatMetadata beat) b := by
  obtain ⟨-, rfl⟩ := Prod.mk.inj (Option.some.inj h)
  rw [List.mem_singleton.mp hb]
  cases hcarry : beat.carryingDevice <;>
    simp only [Beat.readMetadata_carryingDevice, hcarry, if_true, Bool.false_eq_true, if_false]
  · exact .enqueueBeat hcarry
  · exact .raiseCarry hcarry

theorem send_cases (h : perform s .send i = some (s', new)) :
    ∃ b rest, s.queue = b :: rest ∧
      (i.delivered = true ∧ s' = { s with
          queue := rest
          device := if b.carryingDevice then
              { s.device with delivered := s.device.delivered ++ [b.payload.device] }
            else s.device } ∧ new = [.ackDevice b, .ackUser b, .ackMetadata b, .send] ∨
        i.delivered = false ∧ s' = { s with queue := rest } ∧ new = [.send]) := by
  simp only [perform] at h
  split at h
  · cases h
  · rename_i b rest hq
    refine ⟨b, rest, hq, ?_⟩
    split at h <;> obtain ⟨rfl, rfl⟩ := Prod.mk.inj (Option.some.inj h)
    · rename_i hd
      exact .inl ⟨hd, rfl, rfl⟩
    · rename_i hd
      exact .inr ⟨by simpa using hd, rfl, rfl⟩

theorem send_leads (h : perform s .send i = some (s', new)) (hb : b ∈ new) : Leads s i .send b := by
  obtain ⟨head, rest, hq, ⟨-, -, rfl⟩ | ⟨-, -, rfl⟩⟩ := send_cases h
  · simp only [List.mem_cons, List.not_mem_nil, or_false] at hb
    rcases hb with rfl | rfl | rfl | rfl
    · exact .ackDevice hq
    · exact .ackUser hq
    · exact .ackMetadata hq
    · exact .nextSend
  · rw [List.mem_singleton.mp hb]
    exact .nextSend

/-- **What an action leaves its thread to do.** -/
theorem perform_leads (h : perform s a i = some (s', new)) (hb : b ∈ new) : Leads s i a b := by
  cases a
  case startSessionTracking => exact startSessionTracking_leads (Option.some.inj h) hb
  case reportUser => exact reportUser_leads h hb
  case heartbeat => exact heartbeat_leads h hb
  case beatSent => exact beatSent_leads h hb
  case beatMetadata => exact beatMetadata_leads h hb
  case send => exact send_leads h hb
  all_goals obtain ⟨-, rfl⟩ := Prod.mk.inj (Option.some.inj h)
  case storeDevice =>
    simp only [List.mem_cons, List.not_mem_nil, or_false] at hb
    rcases hb with rfl | rfl
    · exact .lowerSent
    · exact .lowerCarry
  -- these check a flag
  case trackIfConsented =>
    obtain ⟨-, hb⟩ := List.mem_ite_nil_right.mp hb
    rw [List.mem_singleton.mp hb]
    exact .track
  case setConsent =>
    obtain ⟨-, hb⟩ := List.mem_ite_nil_right.mp hb
    rw [List.mem_singleton.mp hb]
    exact .consent
  case report =>
    obtain ⟨hconsent, hb⟩ := List.mem_ite_nil_right.mp hb
    rw [List.mem_singleton.mp hb]
    exact .report hconsent
  case ackDevice =>
    obtain ⟨hraised, hb⟩ := List.mem_ite_nil_right.mp hb
    rw [List.mem_singleton.mp hb]
    exact .storeSent hraised
  -- these go on to the next section
  case reportPrior =>
    rw [List.mem_singleton.mp hb]
    exact .reportMarked
  case reportSteam =>
    rw [List.mem_singleton.mp hb]
    exact .reportContext
  case reportContext =>
    rw [List.mem_singleton.mp hb]
    exact .reportDevice
  case reportDevice =>
    rw [List.mem_singleton.mp hb]
    exact .enqueueReport
  case beatUser =>
    rw [List.mem_singleton.mp hb]
    exact .beatContext
  case beatContext =>
    rw [List.mem_singleton.mp hb]
    exact .beatServerInfo
  case beatServerInfo =>
    rw [List.mem_singleton.mp hb]
    exact .beatSent
  case beatDevice =>
    rw [List.mem_singleton.mp hb]
    exact .beatMetadata
  case raiseCarry =>
    rw [List.mem_singleton.mp hb]
    exact .enqueueCarrying
  -- the rest leaves nothing
  all_goals cases hb

/-! ## Who writes what -/

/-- Who writes the state behind `user_mutex_`. -/
inductive IdentityWrite (s : State) (a : Act) (s' : State) : Prop where
  | none (same : s'.identity = s.identity)
  | setUser (userId steamId : CString) (act : a = .setUser userId steamId)
      (after : s'.identity = s.identity.setUser userId steamId)
  | carry (b : Beat) (act : a = .beatUser b) (after : s'.identity = s.identity.carry)
  | commit (b : Beat) (act : a = .ackUser b) (after : s'.identity = s.identity.commit)

/-- Who writes the state behind `metadata_mutex_`. -/
inductive MetadataWrite (s : State) (a : Act) (s' : State) : Prop where
  | none (same : s'.metadata = s.metadata)
  | changeUser (userId steamId : CString) (act : a = .setUser userId steamId)
      (changed : clamped userId limits.userId ≠ s.identity.userId)
      (after : s'.metadata =
        s.metadata.changeUser s.identity.userId (clamped userId limits.userId))
  | set (entries : Option (List (CString × CString))) (act : a = .setUserMetadata entries)
      (after : s'.metadata = s.metadata.set entries s.identity.userId)
  | carry (b : Beat) (act : a = .beatMetadata b) (after : s'.metadata = s.metadata.carry)
  | commit (b : Beat) (act : a = .ackMetadata b)
      (after : s'.metadata = s.metadata.commit (b.epoch, b.payload.metadataJson))

/-- Who writes the cached device and its flags. -/
inductive DeviceWrite (s : State) (a : Act) (s' : State) : Prop where
  | none (same : s'.device = s.device)
  | store (device : Option DeviceSpecs) (act : a = .storeDevice device)
      (after : s'.device =
        { s.device with device := .ofSpecs device, version := s.device.version + 1 })
  | lowerSent (act : a = .lowerSent) (after : s'.device = { s.device with sentOnHeartbeat := false })
  | carry (raised : Bool)
      (act : a = .lowerCarry ∨ (∃ b, a = .raiseCarry b) ∨ ∃ b, a = .ackDevice b)
      (after : s'.device = { s.device with carryInFlight := raised })
  | deliver (b : Beat) (rest : List Beat) (act : a = .send) (head : s.queue = b :: rest)
      (carrying : b.carryingDevice = true)
      (after : s'.device =
        { s.device with delivered := s.device.delivered ++ [b.payload.device] })
  | confirm (b : Beat) (act : a = .storeSent b)
      (after : s'.device = { s.device with sentOnHeartbeat := true })

/-- Who writes the queue, and which bodies are enqueued. -/
inductive QueueWrite (s : State) (a : Act) (s' : State) : Prop where
  | none (queue : s'.queue = s.queue) (beats : s'.beats = s.beats) (reports : s'.reports = s.reports)
  | beat (b : Beat) (act : a = .enqueueBeat b) (queue : s'.queue = s.queue ++ [b])
      (beats : s'.beats = s.beats ++ [b]) (reports : s'.reports = s.reports)
  | report (r : Report) (act : a = .enqueueReport r) (queue : s'.queue = s.queue)
      (beats : s'.beats = s.beats) (reports : s'.reports = s.reports ++ [r])
  | send (b : Beat) (rest : List Beat) (act : a = .send) (head : s.queue = b :: rest)
      (queue : s'.queue = rest) (beats : s'.beats = s.beats) (reports : s'.reports = s.reports)

theorem startSessionTracking_parts (h : startSessionTracking s = (s', new)) :
    s'.identity = s.identity ∧ s'.metadata = s.metadata ∧ s'.device = s.device ∧
      s'.context = s.context ∧ s'.queue = s.queue ∧ s'.beats = s.beats ∧ s'.reports = s.reports := by
  unfold startSessionTracking at h
  split at h
  · obtain ⟨rfl, -⟩ := Prod.mk.inj h
    exact ⟨rfl, rfl, rfl, rfl, rfl, rfl, rfl⟩
  · split at h
    · obtain ⟨rfl, -⟩ := Prod.mk.inj h
      exact ⟨rfl, rfl, rfl, rfl, rfl, rfl, rfl⟩
    · dsimp only at h
      split at h <;> obtain ⟨rfl, -⟩ := Prod.mk.inj h <;> exact ⟨rfl, rfl, rfl, rfl, rfl, rfl, rfl⟩

theorem heartbeat_same (h : perform s .heartbeat i = some (s', new)) : s' = s := by
  simp only [perform] at h
  split at h
  · cases h
  · exact (Prod.mk.inj (Option.some.inj h)).1.symm

theorem perform_identity (h : perform s a i = some (s', new)) : IdentityWrite s a s' := by
  cases a
  case setUser userId steamId =>
    obtain ⟨rfl, -⟩ := Prod.mk.inj (Option.some.inj h)
    exact .setUser userId steamId rfl rfl
  case beatUser b =>
    obtain ⟨rfl, -⟩ := Prod.mk.inj (Option.some.inj h)
    exact .carry b rfl rfl
  case ackUser b =>
    obtain ⟨rfl, -⟩ := Prod.mk.inj (Option.some.inj h)
    exact .commit b rfl rfl
  case startSessionTracking => exact .none (startSessionTracking_parts (Option.some.inj h)).1
  case heartbeat => exact .none (by rw [heartbeat_same h])
  case send =>
    obtain ⟨b, rest, -, ⟨-, rfl, -⟩ | ⟨-, rfl, -⟩⟩ := send_cases h <;> exact .none rfl
  all_goals
    obtain ⟨rfl, -⟩ := Prod.mk.inj (Option.some.inj h)
    exact .none rfl

theorem perform_metadata (h : perform s a i = some (s', new)) : MetadataWrite s a s' := by
  cases a
  case setUser userId steamId =>
    obtain ⟨rfl, -⟩ := Prod.mk.inj (Option.some.inj h)
    by_cases hnext : clamped userId limits.userId = s.identity.userId
    · exact .none (by simp [hnext])
    · exact .changeUser userId steamId rfl hnext (by simp [hnext])
  case setUserMetadata entries =>
    obtain ⟨rfl, -⟩ := Prod.mk.inj (Option.some.inj h)
    exact .set entries rfl rfl
  case beatMetadata b =>
    obtain ⟨rfl, -⟩ := Prod.mk.inj (Option.some.inj h)
    exact .carry b rfl rfl
  case ackMetadata b =>
    obtain ⟨rfl, -⟩ := Prod.mk.inj (Option.some.inj h)
    exact .commit b rfl rfl
  case startSessionTracking => exact .none (startSessionTracking_parts (Option.some.inj h)).2.1
  case heartbeat => exact .none (by rw [heartbeat_same h])
  case send =>
    obtain ⟨b, rest, -, ⟨-, rfl, -⟩ | ⟨-, rfl, -⟩⟩ := send_cases h <;> exact .none rfl
  all_goals
    obtain ⟨rfl, -⟩ := Prod.mk.inj (Option.some.inj h)
    exact .none rfl

theorem perform_device (h : perform s a i = some (s', new)) : DeviceWrite s a s' := by
  cases a
  case storeDevice device =>
    obtain ⟨rfl, -⟩ := Prod.mk.inj (Option.some.inj h)
    exact .store device rfl rfl
  case lowerSent =>
    obtain ⟨rfl, -⟩ := Prod.mk.inj (Option.some.inj h)
    exact .lowerSent rfl rfl
  case lowerCarry =>
    obtain ⟨rfl, -⟩ := Prod.mk.inj (Option.some.inj h)
    exact .carry false (.inl rfl) rfl
  case raiseCarry b =>
    obtain ⟨rfl, -⟩ := Prod.mk.inj (Option.some.inj h)
    exact .carry true (.inr (.inl ⟨b, rfl⟩)) rfl
  case ackDevice b =>
    obtain ⟨rfl, -⟩ := Prod.mk.inj (Option.some.inj h)
    exact .carry false (.inr (.inr ⟨b, rfl⟩)) rfl
  case storeSent b =>
    obtain ⟨rfl, -⟩ := Prod.mk.inj (Option.some.inj h)
    exact .confirm b rfl rfl
  case startSessionTracking => exact .none (startSessionTracking_parts (Option.some.inj h)).2.2.1
  case heartbeat => exact .none (by rw [heartbeat_same h])
  case send =>
    obtain ⟨b, rest, hq, ⟨-, rfl, -⟩ | ⟨-, rfl, -⟩⟩ := send_cases h
    · by_cases hcarry : b.carryingDevice = true
      · exact .deliver b rest rfl hq hcarry (by simp [hcarry])
      · exact .none (by simp [hcarry])
    · exact .none rfl
  all_goals
    obtain ⟨rfl, -⟩ := Prod.mk.inj (Option.some.inj h)
    exact .none rfl

theorem perform_queue (h : perform s a i = some (s', new)) : QueueWrite s a s' := by
  cases a
  case enqueueBeat b =>
    obtain ⟨rfl, -⟩ := Prod.mk.inj (Option.some.inj h)
    exact .beat b rfl rfl rfl rfl
  case enqueueReport r =>
    obtain ⟨rfl, -⟩ := Prod.mk.inj (Option.some.inj h)
    exact .report r rfl rfl rfl rfl
  case startSessionTracking =>
    obtain ⟨-, -, -, -, hq, hb, hr⟩ := startSessionTracking_parts (Option.some.inj h)
    exact .none hq hb hr
  case heartbeat => exact .none (by rw [heartbeat_same h]) (by rw [heartbeat_same h]) (by rw [heartbeat_same h])
  case send =>
    obtain ⟨b, rest, hq, ⟨-, rfl, -⟩ | ⟨-, rfl, -⟩⟩ := send_cases h <;>
      exact .send b rest rfl hq rfl rfl rfl
  all_goals
    obtain ⟨rfl, -⟩ := Prod.mk.inj (Option.some.inj h)
    exact .none rfl rfl rfl

@[simp] theorem Identity.setUser_userId (u : Identity) (userId steamId : CString) :
    (u.setUser userId steamId).userId = clamped userId limits.userId := rfl

@[simp] theorem Identity.setUser_provisionalUserId (u : Identity) (userId steamId : CString) :
    (u.setUser userId steamId).provisionalUserId = u.provisionalUserId := by
  simp only [Identity.setUser]
  split
  · rfl
  · split <;> rfl

/-- The provisional id stays. -/
theorem provisional_same (h : perform s a i = some (s', new)) :
    s'.identity.provisionalUserId = s.identity.provisionalUserId := by
  cases perform_identity h with
  | none same => rw [same]
  | setUser _ _ _ after => rw [after, Identity.setUser_provisionalUserId]
  | carry _ _ after => rw [after]; rfl
  | commit _ _ after => rw [after]; rfl

/-- Only `set_user` changes the user. -/
theorem userId_same (h : perform s a i = some (s', new))
    (hset : ∀ userId steamId, a ≠ .setUser userId steamId) :
    s'.identity.userId = s.identity.userId := by
  cases perform_identity h with
  | none same => rw [same]
  | setUser userId steamId act _ => exact absurd act (hset userId steamId)
  | carry _ _ after => rw [after]; rfl
  | commit _ _ after => rw [after]; rfl

/-! ## Calls -/

/-- A call changes what is recorded of the host's calls, and nothing else. -/
theorem call_eq {t : Nat} {k : Call} (h : call s t k = some (s', new)) :
    (∃ user environment, s' = { s with userOverridden := user, environmentOverridden := environment }) ∧
      s.published = true ∧ new = k.acts := by
  unfold call at h
  split at h
  · rename_i hguard
    obtain ⟨rfl, rfl⟩ := Prod.mk.inj (Option.some.inj h)
    simp only [Bool.and_eq_true] at hguard
    exact ⟨⟨_, _, rfl⟩, hguard.1, rfl⟩
  · cases h

theorem Call.acts_beat {k : Call} (ha : a ∈ k.acts) : a.beat = none := by
  cases k <;> rw [List.mem_singleton.mp ha] <;> rfl

theorem Call.acts_report {k : Call} (ha : a ∈ k.acts) : a.report? = none := by
  cases k <;> rw [List.mem_singleton.mp ha] <;> rfl

/-! ## The beats -/

/-- Where the beat comes from that an action leaves to the next one. -/
inductive Grows (s : State) (i : Input) (a : Act) (x : Beat) : Prop where
  | new (act : a = .heartbeat) (beat : x = newBeat s i)
  | queued (act : a = .send) (head : s.queue.head? = some x)
  | same (beat : a.beat = some x)
  | user (b : Beat) (act : a = .beatUser b) (beat : x = b.readUser s.identity)
  | context (b : Beat) (act : a = .beatContext b) (beat : x = b.readContext s.context)
  | serverInfo (b : Beat) (act : a = .beatServerInfo b) (beat : x = b.readServerInfo s.context)
  | device (b : Beat) (act : a = .beatDevice b) (beat : x = b.readDevice s.device)
  | metadata (b : Beat) (act : a = .beatMetadata b)
      (beat : x = b.readMetadata s.metadata i.frameStats)

theorem Leads.grows (h : Leads s i a b) {x : Beat} (hx : b.beat = some x) : Grows s i a x := by
  cases h <;> cases hx
  case beat => exact .new rfl rfl
  case beatContext => exact .user _ rfl rfl
  case beatServerInfo => exact .context _ rfl rfl
  case beatSent => exact .serverInfo _ rfl rfl
  case beatMetadata => exact .device _ rfl rfl
  case raiseCarry => exact .metadata _ rfl rfl
  case enqueueBeat => exact .metadata _ rfl rfl
  case ackDevice hq => exact .queued rfl (by rw [hq]; rfl)
  case ackUser hq => exact .queued rfl (by rw [hq]; rfl)
  case ackMetadata hq => exact .queued rfl (by rw [hq]; rfl)
  all_goals exact .same rfl

/-- What the empty beat satisfies, and every read keeps, holds of the beat that is left. -/
theorem Grows.holds {R : Beat → Prop} {x : Beat} (h : Grows s i a x)
    (ha : ∀ b, a.beat = some b → R b) (hqueue : ∀ b ∈ s.queue, R b) (hnew : R (newBeat s i))
    (huser : ∀ b, a = .beatUser b → R b → R (b.readUser s.identity))
    (hcontext : ∀ b, R b → R (b.readContext s.context))
    (hserverInfo : ∀ b, R b → R (b.readServerInfo s.context))
    (hdevice : ∀ b, R b → R (b.readDevice s.device))
    (hmetadata : ∀ b, a = .beatMetadata b → R b → R (b.readMetadata s.metadata i.frameStats)) :
    R x := by
  cases h with
  | new _ beat => rw [beat]; exact hnew
  | queued _ head => exact hqueue x (List.mem_of_mem_head? head)
  | same beat => exact ha x beat
  | user b act beat => rw [beat]; exact huser b act (ha b (by rw [act]; rfl))
  | context b act beat => rw [beat]; exact hcontext b (ha b (by rw [act]; rfl))
  | serverInfo b act beat => rw [beat]; exact hserverInfo b (ha b (by rw [act]; rfl))
  | device b act beat => rw [beat]; exact hdevice b (ha b (by rw [act]; rfl))
  | metadata b act beat => rw [beat]; exact hmetadata b act (ha b (by rw [act]; rfl))

/-- `J` holds of the state, and `R` of every beat that is under construction, queued, sent or
was ever enqueued. -/
def Beats (J : State → Prop) (R : State → Beat → Prop) (c : Config) : Prop :=
  Interleave.ActInv (fun s => J s ∧ (∀ b ∈ s.queue, R s b) ∧ ∀ b ∈ s.beats, R s b)
    (fun s a => ∀ b, a.beat = some b → R s b) c

/-- **The rule for beats.** A predicate on beats that survives the step, and that every read
of a beat establishes, holds of all of them after it. -/
theorem beats_step {J : State → Prop} {R : State → Beat → Prop} {c c' : Config} {l : Label}
    (hperform : ∀ a i s' new, Interleave.acting c l = some a →
      (∀ b, a.beat = some b → R c.shared b) → perform c.shared a i = some (s', new) →
        J s' ∧ (∀ x, Grows c.shared i a x → R s' x) ∧ ∀ b, R c.shared b → R s' b)
    (hcall : ∀ user environment,
      let s' := { c.shared with userOverridden := user, environmentOverridden := environment }
      (J c.shared → J s') ∧ ∀ b, R c.shared b → R s' b)
    (hc : Beats J R c) (h : step c l = some c') : Beats J R c' := by
  obtain ⟨hJ, hqueue, hbeats⟩ := hc.shared
  rcases Interleave.step_cases h with ⟨t, i, a, rest, s', new, rfl, ht, hp, rfl⟩ |
    ⟨t, k, s', new, rfl, ht, hp, rfl⟩ | ⟨e, -, -⟩
  · have ha : ∀ b, a.beat = some b → R c.shared b :=
      hc.act (List.mem_of_getElem? ht) List.mem_cons_self
    obtain ⟨hJ', hgrow, hkeep⟩ := hperform a i s' new (Interleave.acting_exec ht) ha hp
    have hnew : ∀ b ∈ new, ∀ x, b.beat = some x → R s' x :=
      fun b hb x hx => hgrow x ((perform_leads (i := i) hp hb).grows hx)
    refine hc.exec ht ⟨hJ', ?_⟩ hnew fun p _ b _ hb x hx => hkeep x (hb x hx)
    have hq : ∀ b ∈ c.shared.queue, R s' b := fun b hb => hkeep b (hqueue b hb)
    have hb : ∀ b ∈ c.shared.beats, R s' b := fun b hb => hkeep b (hbeats b hb)
    cases perform_queue hp with
    | none queue beats _ =>
      rw [queue, beats]
      exact ⟨hq, hb⟩
    | beat b act queue beats _ =>
      have hheld : R s' b := hkeep b (ha b (by rw [act]; rfl))
      rw [queue, beats]
      exact ⟨List.forall_mem_append.mpr ⟨hq, by simpa using hheld⟩,
        List.forall_mem_append.mpr ⟨hb, by simpa using hheld⟩⟩
    | report _ _ queue beats _ =>
      rw [queue, beats]
      exact ⟨hq, hb⟩
    | send b rest act head queue beats _ =>
      rw [queue, beats]
      refine ⟨fun x hx => hq x ?_, hb⟩
      rw [head]
      exact List.mem_cons_of_mem b hx
  · obtain ⟨⟨user, environment, rfl⟩, -, rfl⟩ := call_eq hp
    obtain ⟨hJ', hkeep⟩ := hcall user environment
    refine hc.call ⟨hJ' hJ, fun b hb => hkeep b (hqueue b hb), fun b hb => hkeep b (hbeats b hb)⟩ ?_
      fun p _ b _ hb x hx => hkeep x (hb x hx)
    intro b hb x hx
    rw [Call.acts_beat hb] at hx
    cases hx
  · exact e.elim

/-! ## The reports -/

/-- Where the report comes from that an action leaves to the next one. -/
inductive GrowsReport (s : State) (a : Act) (x : Report) : Prop where
  | new (kind : ReportKind) (act : a = .startSessionTracking ∨ a = .report kind)
      (report : x = { kind })
  | user (r : Report) (act : a = .reportUser r) (report : x = r.readUser s.identity)
  | prior (r : Report) (act : a = .reportPrior r) (report : x = r.readPrior s.identity)
  | steam (r : Report) (act : a = .reportSteam r)
      (report : x = { r with steamId := s.identity.steamId })
  | context (r : Report) (act : a = .reportContext r) (report : x = r.readContext s.context)
  | device (r : Report) (act : a = .reportDevice r)
      (report : x = { r with device := s.device.device })

theorem Leads.growsReport (h : Leads s i a b) {x : Report} (hx : b.report? = some x) :
    GrowsReport s a x := by
  cases h <;> cases hx
  case previous => exact .new _ (.inl rfl) rfl
  case report => exact .new _ (.inr rfl) rfl
  case reportPrior => exact .user _ rfl rfl
  case reportSteam => exact .user _ rfl rfl
  case reportMarked => exact .prior _ rfl rfl
  case reportContext => exact .steam _ rfl rfl
  case reportDevice => exact .context _ rfl rfl
  case enqueueReport => exact .device _ rfl rfl

/-- `R` holds of every report that is under construction or was ever enqueued. -/
def Reports (R : State → Report → Prop) (c : Config) : Prop :=
  Interleave.ActInv (fun s => ∀ r ∈ s.reports, R s r)
    (fun s a => ∀ r, a.report? = some r → R s r) c

/-- **The rule for reports.** -/
theorem reports_step {R : State → Report → Prop} {c c' : Config} {l : Label}
    (hperform : ∀ a i s' new, Interleave.acting c l = some a →
      (∀ r, a.report? = some r → R c.shared r) → perform c.shared a i = some (s', new) →
        (∀ x, GrowsReport c.shared a x → R s' x) ∧ ∀ r, R c.shared r → R s' r)
    (hcall : ∀ user environment, ∀ r, R c.shared r →
      R { c.shared with userOverridden := user, environmentOverridden := environment } r)
    (hc : Reports R c) (h : step c l = some c') : Reports R c' := by
  have hreports := hc.shared
  rcases Interleave.step_cases h with ⟨t, i, a, rest, s', new, rfl, ht, hp, rfl⟩ |
    ⟨t, k, s', new, rfl, ht, hp, rfl⟩ | ⟨e, -, -⟩
  · have ha : ∀ r, a.report? = some r → R c.shared r :=
      hc.act (List.mem_of_getElem? ht) List.mem_cons_self
    obtain ⟨hgrow, hkeep⟩ := hperform a i s' new (Interleave.acting_exec ht) ha hp
    refine hc.exec ht ?_ (fun b hb x hx => hgrow x ((perform_leads (i := i) hp hb).growsReport hx))
      fun p _ b _ hb x hx => hkeep x (hb x hx)
    have hold : ∀ r ∈ c.shared.reports, R s' r := fun r hr => hkeep r (hreports r hr)
    cases perform_queue hp with
    | none _ _ reports => rw [reports]; exact hold
    | beat _ _ _ _ reports => rw [reports]; exact hold
    | report r act _ _ reports =>
      have hheld : R s' r := hkeep r (ha r (by rw [act]; rfl))
      rw [reports]
      exact List.forall_mem_append.mpr ⟨hold, by simpa using hheld⟩
    | send _ _ _ _ _ _ reports => rw [reports]; exact hold
  · obtain ⟨⟨user, environment, rfl⟩, -, rfl⟩ := call_eq hp
    refine hc.call (fun r hr => hcall user environment r (hreports r hr)) ?_
      fun p _ b _ hb x hx => hcall user environment x (hb x hx)
    intro b hb x hx
    rw [Call.acts_report hb] at hx
    cases hx
  · exact e.elim

/-! ## Where a session starts -/

theorem initProgram_beat {o : Launch} (ha : a ∈ initProgram o) : a.beat = none ∧ a.report? = none := by
  simp only [initProgram, replayPreInit, List.mem_append, List.mem_cons, List.mem_map,
    List.not_mem_nil, or_false] at ha
  rcases ha with ((rfl | rfl) | (((⟨_, _, rfl⟩ | ⟨_, _, rfl⟩) | ⟨_, _, rfl⟩) | ⟨_, _, rfl⟩) | ha) | rfl
  any_goals exact ⟨rfl, rfl⟩
  split at ha
  · rw [List.mem_singleton.mp ha]
    exact ⟨rfl, rfl⟩
  · cases ha

/-- No thread holds a body when `tombstone_init` starts the session. -/
theorem start_holds_none {o : Launch} {p : List Act} (hp : p ∈ (start o).threads) (ha : a ∈ p) :
    a.beat = none ∧ a.report? = none := by
  simp only [start, List.mem_cons, List.mem_replicate] at hp
  rcases hp with rfl | rfl | rfl | ⟨-, rfl⟩
  · exact initProgram_beat ha
  · rw [List.mem_singleton.mp ha]
    exact ⟨rfl, rfl⟩
  · rw [List.mem_singleton.mp ha]
    exact ⟨rfl, rfl⟩
  · cases ha

theorem beats_start {J : State → Prop} {R : State → Beat → Prop} (o : Launch)
    (hJ : J (initialized o)) : Beats J R (start o) := by
  refine ⟨⟨hJ, ?_, ?_⟩, ?_⟩
  · intro b hb
    cases hb
  · intro b hb
    cases hb
  · intro t p hp a ha b hb
    rw [(start_holds_none (List.mem_of_getElem? hp) ha).1] at hb
    cases hb

theorem reports_start {R : State → Report → Prop} (o : Launch) : Reports R (start o) := by
  refine ⟨?_, ?_⟩
  · intro r hr
    cases hr
  · intro t p hp a ha r hr
    rw [(start_holds_none (List.mem_of_getElem? hp) ha).2] at hr
    cases hr

/-- A body of which nothing has been read yet is blank. -/
def Act.Blank : Act → Prop
  | .beatUser b => ∃ s i, b = newBeat s i
  | .reportUser r => r = { kind := r.kind }
  | _ => True

/-- Every body is blank until it is read for. -/
def Blank (c : Config) : Prop := Interleave.ActInv (fun _ => True) (fun _ a => a.Blank) c

theorem blank_step {c c' : Config} {l : Label} (hc : Blank c) (h : step c l = some c') : Blank c' := by
  refine Interleave.actInv_step ?_ ?_ ?_ hc h
  · intro s a i s' new _ _ hp
    refine ⟨trivial, fun b hb => ?_, fun _ hb => hb⟩
    cases perform_leads (i := i) hp hb with
    | previous _ => exact rfl
    | report _ => exact rfl
    | beat _ _ => exact ⟨s, i, rfl⟩
    | _ => trivial
  · intro s t k s' new _ hp
    obtain ⟨-, -, rfl⟩ := call_eq hp
    refine ⟨trivial, fun b hb => ?_, fun _ hb => hb⟩
    have hbeat := Call.acts_beat hb
    have hreport := Call.acts_report hb
    cases b <;> trivial
  · intro s ps e
    exact e.elim

theorem blank_start (o : Launch) : Blank (start o) := by
  refine ⟨trivial, fun t p hp a ha => ?_⟩
  obtain ⟨hbeat, hreport⟩ := start_holds_none (List.mem_of_getElem? hp) ha
  cases a <;> trivial

end Tombstone.Session
