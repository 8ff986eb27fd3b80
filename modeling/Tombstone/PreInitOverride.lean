import Tombstone.Sections

/- Whether what the host sets before `tombstone_init` beats the options of `tombstone_init`.

   `Client::init` starts the heartbeat thread and session tracking, and only then does
   `replay_preinit` apply what was buffered. This file

   1. says what the bodies of a launch should carry (`PreInitWins`), and which launches can
      send a body before the replay (`Launch.mayPrecede`);
   2. follows the initializing thread through its program: it opens the gate and publishes the
      client only after it has replayed the consent, the user and the environment (`Phase`);
   3. proves that the launches that keep the promise on every run are exactly those that can
      send nothing before the replay, or whose replay changes nothing
      (`preInit_wins_iff`). -/
namespace Tombstone.Session

variable {s s' : State} {a b : Act} {i : Input} {new : List Act} {c c' : Config} {l : Label}

/-! ## The promise, and the launches that can break it -/

namespace Launch

/-- What was buffered before `tombstone_init`. -/
def store (o : Launch) : PreInitStore := .ofCalls o.preInit

/-- The id that bodies carry once a buffered user is replayed. -/
def replayedUser (o : Launch) (user : Bytes × Bytes) : Bytes :=
  if (clamped (some user.1) limits.userId).isEmpty then o.provisionalUserId
  else clamped (some user.1) limits.userId

def replayedEnvironment (environment : Bytes) : Bytes :=
  utf8SafeTruncate environment limits.environment

/-- The heartbeat thread can beat as soon as it runs. -/
def beatsEarly (o : Launch) : Bool := o.enableHeartbeats && o.autoStartSession

/-- Session tracking reports the death of the previous launch as soon as it starts. -/
def reportsEarly (o : Launch) : Bool :=
  o.uncleanDetection && o.storageAvailable && o.previousMarker && !o.hasRestoredCrash

/-- Consent is on before the user and the environment are replayed. -/
def consentsEarly (o : Launch) : Bool := o.consentGranted || o.store.consent == some true

/-- A body can be read before the replay is done. -/
def mayPrecede (o : Launch) : Bool := o.consentsEarly && (o.beatsEarly || o.reportsEarly)

/-- The replay of the user and the environment changes nothing that bodies carry. -/
def ReplaysSame (o : Launch) : Prop :=
  (∀ u ∈ o.store.user, o.replayedUser u = o.provisionalUserId) ∧
    ∀ e ∈ o.store.environment,
      replayedEnvironment e = (Context.setEnvironment {} o.environment).environment

instance (o : Launch) : Decidable o.ReplaysSame := inferInstanceAs (Decidable (_ ∧ _))

/-- Nothing can be sent before the replay; or consent was not withdrawn before the launch, and
the replay changes nothing. -/
def KeepsPromise (o : Launch) : Prop :=
  o.mayPrecede = false ∨ o.store.consent ≠ some false ∧ o.ReplaysSame

instance (o : Launch) : Decidable o.KeepsPromise := inferInstanceAs (Decidable (_ ∨ _))

end Launch

/-- User and environment of the beats and of the reports about the previous launch. -/
def State.sent (s : State) : List (Bytes × Bytes) :=
  s.beats.map (fun b => (b.payload.userId, b.payload.environment)) ++
    (s.reports.filter fun r => !r.kind.live).map fun r => (r.userId, r.environment)

/-- `v` is the buffered user's id, unless none was buffered or the host has set another. -/
def UserIs (o : Launch) (s : State) (v : Bytes) : Prop :=
  s.userOverridden = false → ∀ u ∈ o.store.user, v = o.replayedUser u

/-- `v` is the buffered environment, unless none was buffered or the host has set another. -/
def EnvironmentIs (o : Launch) (s : State) (v : Bytes) : Prop :=
  s.environmentOverridden = false → ∀ e ∈ o.store.environment, v = Launch.replayedEnvironment e

instance (o : Launch) (s : State) (v : Bytes) : Decidable (UserIs o s v) :=
  inferInstanceAs (Decidable (_ → _))

instance (o : Launch) (s : State) (v : Bytes) : Decidable (EnvironmentIs o s v) :=
  inferInstanceAs (Decidable (_ → _))

/-- Where consent was withdrawn before the launch, `tombstone_init` enqueues nothing; else
every body carries the buffered user and environment. -/
def PreInitWins (o : Launch) (s : State) : Prop :=
  if o.store.consent = some false then s.published = false → s.sent = []
  else ∀ x ∈ s.sent, UserIs o s x.1 ∧ EnvironmentIs o s x.2

instance (o : Launch) (s : State) : Decidable (PreInitWins o s) := by
  unfold PreInitWins
  split <;> infer_instance

/-! ## Who writes what the launch depends on -/

/-- Who writes consent, the gate, the heartbeat thread's existence, the publication, the user
and the environment. -/
inductive LaunchWrite (s : State) (a : Act) (s' : State) : Prop where
  | none (consent : s'.consent = s.consent) (gate : s'.gate = s.gate)
      (thread : s'.heartbeatThread = s.heartbeatThread) (published : s'.published = s.published)
      (user : s'.identity.userId = s.identity.userId)
      (environment : s'.context.environment = s.context.environment)
  | startHeartbeat (enabled : Bool) (act : a = .startHeartbeat enabled)
      (after : s' = { s with heartbeatThread := enabled })
  | publish (act : a = .publish) (after : s' = { s with published := true })
  | setConsent (granted : Bool) (act : a = .setConsent granted)
      (after : s' = { s with consent := granted })
  | startSession (act : a = .startSession) (after : s' = { s with gate := s.gate.set.1 })
  | setUser (userId steamId : CString) (metadata : Metadata) (act : a = .setUser userId steamId)
      (after : s' = { s with identity := s.identity.setUser userId steamId, metadata })
  | setEnvironment (environment : CString) (act : a = .setEnvironment environment)
      (after : s' = { s with context := s.context.setEnvironment environment })

theorem startSessionTracking_launch (h : startSessionTracking s = (s', new)) :
    s'.consent = s.consent ∧ s'.gate = s.gate ∧ s'.heartbeatThread = s.heartbeatThread ∧
      s'.published = s.published := by
  unfold startSessionTracking at h
  split at h
  · obtain ⟨rfl, -⟩ := Prod.mk.inj h
    exact ⟨rfl, rfl, rfl, rfl⟩
  · split at h
    · obtain ⟨rfl, -⟩ := Prod.mk.inj h
      exact ⟨rfl, rfl, rfl, rfl⟩
    · dsimp only at h
      split at h <;> obtain ⟨rfl, -⟩ := Prod.mk.inj h <;> exact ⟨rfl, rfl, rfl, rfl⟩

theorem perform_launch (h : perform s a i = some (s', new)) : LaunchWrite s a s' := by
  cases a
  case startHeartbeat enabled =>
    obtain ⟨rfl, -⟩ := Prod.mk.inj (Option.some.inj h)
    exact .startHeartbeat enabled rfl rfl
  case publish =>
    obtain ⟨rfl, -⟩ := Prod.mk.inj (Option.some.inj h)
    exact .publish rfl rfl
  case setConsent granted =>
    obtain ⟨rfl, -⟩ := Prod.mk.inj (Option.some.inj h)
    exact .setConsent granted rfl rfl
  case startSession =>
    obtain ⟨rfl, -⟩ := Prod.mk.inj (Option.some.inj h)
    exact .startSession rfl rfl
  case setUser userId steamId =>
    obtain ⟨rfl, -⟩ := Prod.mk.inj (Option.some.inj h)
    exact .setUser userId steamId _ rfl rfl
  case setEnvironment environment =>
    obtain ⟨rfl, -⟩ := Prod.mk.inj (Option.some.inj h)
    exact .setEnvironment environment rfl rfl
  case startSessionTracking =>
    obtain ⟨hconsent, hgate, hthread, hpublished⟩ := startSessionTracking_launch (Option.some.inj h)
    obtain ⟨hidentity, -, -, hcontext, -⟩ := startSessionTracking_parts (Option.some.inj h)
    exact .none hconsent hgate hthread hpublished (by rw [hidentity]) (by rw [hcontext])
  case heartbeat =>
    obtain rfl := heartbeat_same h
    exact .none rfl rfl rfl rfl rfl rfl
  case send =>
    obtain ⟨b, rest, -, ⟨-, rfl, -⟩ | ⟨-, rfl, -⟩⟩ := send_cases h <;>
      exact .none rfl rfl rfl rfl rfl rfl
  all_goals
    obtain ⟨rfl, -⟩ := Prod.mk.inj (Option.some.inj h)
    exact .none rfl rfl rfl rfl rfl rfl

/-- What tracking looks at, and what is recorded of the host's calls. -/
structure SameLaunch (s s' : State) : Prop where
  unclean : s'.uncleanDetectionEnabled = s.uncleanDetectionEnabled
  storage : s'.storageAvailable = s.storageAvailable
  restored : s'.hasRestoredCrash = s.hasRestoredCrash
  marker : s'.previousMarker = true → s.previousMarker = true
  user : s'.userOverridden = s.userOverridden
  environment : s'.environmentOverridden = s.environmentOverridden

theorem perform_same (h : perform s a i = some (s', new)) : SameLaunch s s' := by
  cases a
  case startSessionTracking =>
    have hs : startSessionTracking s = (s', new) := Option.some.inj h
    unfold startSessionTracking at hs
    split at hs
    · obtain ⟨rfl, -⟩ := Prod.mk.inj hs
      exact ⟨rfl, rfl, rfl, fun hm => hm, rfl, rfl⟩
    · split at hs
      · obtain ⟨rfl, -⟩ := Prod.mk.inj hs
        exact ⟨rfl, rfl, rfl, fun hm => hm, rfl, rfl⟩
      · dsimp only at hs
        split at hs <;> obtain ⟨rfl, -⟩ := Prod.mk.inj hs <;>
          exact ⟨rfl, rfl, rfl, (fun hm => nomatch hm), rfl, rfl⟩
  case heartbeat =>
    obtain rfl := heartbeat_same h
    exact ⟨rfl, rfl, rfl, fun hm => hm, rfl, rfl⟩
  case send =>
    obtain ⟨b, rest, -, ⟨-, rfl, -⟩ | ⟨-, rfl, -⟩⟩ := send_cases h <;>
      exact ⟨rfl, rfl, rfl, fun hm => hm, rfl, rfl⟩
  all_goals
    obtain ⟨rfl, -⟩ := Prod.mk.inj (Option.some.inj h)
    exact ⟨rfl, rfl, rfl, fun hm => hm, rfl, rfl⟩

/-- A report of the previous launch starts only where a marker was found, and no crash of that
launch was restored. -/
theorem startSessionTracking_reports (h : startSessionTracking s = (s', new)) (hb : b ∈ new) :
    s.uncleanDetectionEnabled = true ∧ s.storageAvailable = true ∧ s.previousMarker = true ∧
      s.hasRestoredCrash = false := by
  unfold startSessionTracking at h
  split at h
  · obtain ⟨-, rfl⟩ := Prod.mk.inj h
    cases hb
  · rename_i hguard
    split at h
    · obtain ⟨-, rfl⟩ := Prod.mk.inj h
      cases hb
    · rename_i hmarker
      dsimp only at h
      split at h <;> obtain ⟨-, rfl⟩ := Prod.mk.inj h
      · cases hb
      · rename_i hrestored
        simp only [Bool.or_eq_true, Bool.not_eq_true', not_or, Bool.not_eq_false] at hguard
        exact ⟨hguard.1.2, hguard.2, by simpa using hmarker, by simpa using hrestored⟩

/-! ## The initializing thread -/

/-- Whoever reads the user and the environment now reads what was buffered. -/
structure Reads (o : Launch) (s : State) : Prop where
  user : UserIs o s s.identity.effective
  environment : EnvironmentIs o s s.context.environment

/-- An action that lets bodies out, or hands the client to the host. -/
def Act.opens : Act → Bool
  | .startSession | .publish => true
  | _ => false

/-- An action that replays what bodies carry, or consent. -/
def Act.replays : Act → Bool
  | .setConsent _ | .setUser _ _ | .setEnvironment _ => true
  | _ => false

/-- Nothing is replayed after the thread opens. -/
def Ordered (p : List Act) : Prop :=
  p.Pairwise fun a b => a.opens = true → b.replays = false

/-- Of which launch an action is, or of the host. -/
def Act.OfLaunch (o : Launch) (s : State) (t : Nat) : Act → Prop
  | .setUser userId _ => s.userOverridden = true ∨ ∃ u ∈ o.store.user, userId = some u.1
  | .setEnvironment environment =>
    s.environmentOverridden = true ∨ ∃ e ∈ o.store.environment, environment = some e
  | .setConsent granted => s.published = true ∨ o.store.consent = some granted
  | .startSession => t = 0 ∨ s.published = true
  | .publish => t = 0
  | .startHeartbeat enabled => enabled = o.enableHeartbeats
  | .startSessionTracking => o.consentsEarly = false → s.published = true
  | _ => True

/-- The state of a launch: what is open, what is published, and what may be read. -/
structure Launched (o : Launch) (s : State) : Prop where
  provisional : s.identity.provisionalUserId = o.provisionalUserId
  published : s.published = true → Reads o s
  opened : o.autoStartSession = false → s.gate.opened = true →
    Reads o s ∧ (o.store.consent = some false → s.published = true ∨ s.consent = false)
  consent : o.consentsEarly = false → s.consent = true → s.published = true
  heartbeats : s.heartbeatThread = true → o.enableHeartbeats = true
  unclean : s.uncleanDetectionEnabled = o.uncleanDetection
  storage : s.storageAvailable = o.storageAvailable
  restored : s.hasRestoredCrash = o.hasRestoredCrash
  marker : s.previousMarker = true → o.previousMarker = true
  same : o.ReplaysSame → Reads o s

/-- What a thread has still to do; thread 0 replays what has not been replayed yet. -/
structure Phase (o : Launch) (s : State) (t : Nat) (p : List Act) : Prop where
  ordered : Ordered p
  acts : ∀ a ∈ p, a.OfLaunch o s t
  user : t = 0 → (∃ userId steamId, .setUser userId steamId ∈ p) ∨ UserIs o s s.identity.effective
  environment : t = 0 →
    (∃ environment, .setEnvironment environment ∈ p) ∨ EnvironmentIs o s s.context.environment
  consent : t = 0 → o.store.consent = some false →
    (∃ granted, .setConsent granted ∈ p) ∨ s.published = true ∨ s.consent = false

variable {o : Launch} {t : Nat} {p : List Act}

theorem ordered_append {xs ys : List Act} (hxs : ∀ a ∈ xs, a.opens = false) (hys : Ordered ys) :
    Ordered (xs ++ ys) := by
  refine List.pairwise_append.mpr ⟨?_, hys, ?_⟩
  · refine List.Pairwise.imp_of_mem ?_ (List.pairwise_of_forall (R := fun _ _ => True)
      fun _ _ => trivial)
    intro a b ha _ _ hopens
    rw [hxs a ha] at hopens
    cases hopens
  · intro a ha b _ hopens
    rw [hxs a ha] at hopens
    cases hopens

/-- What an action leaves behind opens nothing. -/
theorem Leads.opens (h : Leads s i a b) : b.opens = false := by
  cases h <;> rfl

/-! ### What one action keeps -/

theorem userIs_keep {v : Bytes} (h : perform s a i = some (s', new)) (hv : UserIs o s v) :
    UserIs o s' v := by
  unfold UserIs
  rw [(perform_same h).user]
  exact hv

theorem environmentIs_keep {v : Bytes} (h : perform s a i = some (s', new))
    (hv : EnvironmentIs o s v) : EnvironmentIs o s' v := by
  unfold EnvironmentIs
  rw [(perform_same h).environment]
  exact hv

/-- A replayed user is the effective one. -/
theorem userIs_setUser {userId steamId : CString}
    (hprovisional : s.identity.provisionalUserId = o.provisionalUserId)
    (h : perform s (.setUser userId steamId) i = some (s', new))
    (ha : (Act.setUser userId steamId).OfLaunch o s t) : UserIs o s' s'.identity.effective := by
  intro hhost u hu
  rw [(perform_same h).user] at hhost
  rcases ha with hset | ⟨v, hv, rfl⟩
  · rw [hhost] at hset
    cases hset
  · obtain rfl : u = v := Option.some.inj (hu.symm.trans hv)
    obtain ⟨rfl, -⟩ := Prod.mk.inj (Option.some.inj h)
    show (if _ then _ else _) = _
    rw [Identity.setUser_userId, Identity.setUser_provisionalUserId, hprovisional]
    rfl

theorem user_keep (hprovisional : s.identity.provisionalUserId = o.provisionalUserId)
    (h : perform s a i = some (s', new)) (ha : a.OfLaunch o s t)
    (hs : UserIs o s s.identity.effective) : UserIs o s' s'.identity.effective := by
  by_cases hset : ∃ userId steamId, a = .setUser userId steamId
  · obtain ⟨userId, steamId, rfl⟩ := hset
    exact userIs_setUser hprovisional h ha
  · have hsame := userId_same h fun userId steamId heq => hset ⟨userId, steamId, heq⟩
    have heffective : s'.identity.effective = s.identity.effective := by
      unfold Identity.effective
      rw [hsame, provisional_same h]
    rw [heffective]
    exact userIs_keep h hs

/-- A replayed environment is the current one. -/
theorem environmentIs_setEnvironment {environment : CString}
    (h : perform s (.setEnvironment environment) i = some (s', new))
    (ha : (Act.setEnvironment environment).OfLaunch o s t) :
    EnvironmentIs o s' s'.context.environment := by
  intro hhost e he
  rw [(perform_same h).environment] at hhost
  rcases ha with hset | ⟨v, hv, rfl⟩
  · rw [hhost] at hset
    cases hset
  · obtain rfl : e = v := Option.some.inj (he.symm.trans hv)
    obtain ⟨rfl, -⟩ := Prod.mk.inj (Option.some.inj h)
    cases e with
    | nil => exact absurd he (PreInitStore.ofCalls_environment o.preInit)
    | cons b bs => rfl

theorem environment_keep (h : perform s a i = some (s', new)) (ha : a.OfLaunch o s t)
    (hs : EnvironmentIs o s s.context.environment) :
    EnvironmentIs o s' s'.context.environment := by
  by_cases hset : ∃ environment, a = .setEnvironment environment
  · obtain ⟨environment, rfl⟩ := hset
    exact environmentIs_setEnvironment h ha
  · have hsame : s'.context.environment = s.context.environment := by
      cases perform_launch h with
      | none _ _ _ _ _ environment => exact environment
      | setEnvironment environment act _ => exact absurd ⟨environment, act⟩ hset
      | startHeartbeat _ _ after => rw [after]
      | publish _ after => rw [after]
      | setConsent _ _ after => rw [after]
      | startSession _ after => rw [after]
      | setUser _ _ _ _ after => rw [after]
    rw [hsame]
    exact environmentIs_keep h hs

theorem reads_keep (hprovisional : s.identity.provisionalUserId = o.provisionalUserId)
    (h : perform s a i = some (s', new)) (ha : a.OfLaunch o s t) (hs : Reads o s) : Reads o s' :=
  ⟨user_keep hprovisional h ha hs.user, environment_keep h ha hs.environment⟩

theorem published_keep (h : perform s a i = some (s', new)) (hs : s.published = true) :
    s'.published = true := by
  cases perform_launch h with
  | none _ _ _ published _ _ => rw [published]; exact hs
  | publish _ after => rw [after]
  | startHeartbeat _ _ after => rw [after]; exact hs
  | setConsent _ _ after => rw [after]; exact hs
  | startSession _ after => rw [after]; exact hs
  | setUser _ _ _ _ after => rw [after]; exact hs
  | setEnvironment _ _ after => rw [after]; exact hs

/-- Where consent was withdrawn before the launch, it stays off until the client is
published. -/
theorem consentOff_keep (hstore : o.store.consent = some false)
    (h : perform s a i = some (s', new)) (ha : a.OfLaunch o s t)
    (hs : s.published = true ∨ s.consent = false) : s'.published = true ∨ s'.consent = false := by
  rcases hs with hpublished | hoff
  · exact .inl (published_keep h hpublished)
  cases perform_launch h with
  | none consent _ _ _ _ _ => rw [consent]; exact .inr hoff
  | setConsent granted act after =>
    rw [act] at ha
    rw [after]
    refine ha.imp (fun hp => hp) fun hg => ?_
    exact Option.some.inj (hg.symm.trans hstore)
  | publish _ after => rw [after]; exact .inl rfl
  | startHeartbeat _ _ after => rw [after]; exact .inr hoff
  | startSession _ after => rw [after]; exact .inr hoff
  | setUser _ _ _ _ after => rw [after]; exact .inr hoff
  | setEnvironment _ _ after => rw [after]; exact .inr hoff

theorem ofLaunch_keep {u : Nat} (h : perform s a i = some (s', new)) (hb : b.OfLaunch o s u) :
    b.OfLaunch o s' u := by
  have hsame := perform_same h
  cases b
  case setUser userId steamId => exact hb.imp (fun hset => hsame.user.trans hset) fun hu => hu
  case setEnvironment environment =>
    exact hb.imp (fun hset => hsame.environment.trans hset) fun he => he
  case setConsent granted => exact hb.imp (published_keep h) fun hg => hg
  case startSession => exact hb.imp (fun ht => ht) (published_keep h)
  case startSessionTracking => exact fun hearly => published_keep h (hb hearly)
  case publish => exact hb
  case startHeartbeat enabled => exact hb
  all_goals trivial

/-! ### The invariant -/

/-- **The initializing thread opens only after it has replayed.** -/
theorem Phase.replayed (hp : Phase o s 0 (a :: p)) (ha : a.opens = true) :
    Reads o s ∧ (o.store.consent = some false → s.published = true ∨ s.consent = false) := by
  have hnone : ∀ b ∈ a :: p, b.replays = false := by
    intro b hb
    rcases List.mem_cons.mp hb with rfl | hb
    · cases b <;> first | rfl | cases ha
    · exact (List.pairwise_cons.mp hp.ordered).1 b hb ha
  refine ⟨⟨(hp.user rfl).resolve_left ?_, (hp.environment rfl).resolve_left ?_⟩,
    fun hstore => (hp.consent rfl hstore).resolve_left ?_⟩
  · rintro ⟨userId, steamId, hb⟩
    cases hnone _ hb
  · rintro ⟨environment, hb⟩
    cases hnone _ hb
  · rintro ⟨granted, hb⟩
    cases hnone _ hb

theorem launched_perform (hs : Launched o s) (hp : Phase o s t (a :: p))
    (h : perform s a i = some (s', new)) : Launched o s' := by
  have ha : a.OfLaunch o s t := hp.acts a List.mem_cons_self
  have hsame := perform_same h
  have hreads : Reads o s → Reads o s' := reads_keep hs.provisional h ha
  refine
    { provisional := (provisional_same h).trans hs.provisional
      published := ?_, opened := ?_, consent := ?_, heartbeats := ?_
      unclean := hsame.unclean.trans hs.unclean
      storage := hsame.storage.trans hs.storage
      restored := hsame.restored.trans hs.restored
      marker := fun hm => hs.marker (hsame.marker hm)
      same := fun hreplays => hreads (hs.same hreplays) }
  · intro hpublished
    by_cases hact : a = .publish
    · -- only thread 0 publishes
      subst hact
      obtain rfl : t = 0 := ha
      exact hreads (hp.replayed rfl).1
    · refine hreads (hs.published ?_)
      cases perform_launch h with
      | none _ _ _ published _ _ => rw [← published]; exact hpublished
      | publish act _ => exact absurd act hact
      | startHeartbeat _ _ after => rw [after] at hpublished; exact hpublished
      | setConsent _ _ after => rw [after] at hpublished; exact hpublished
      | startSession _ after => rw [after] at hpublished; exact hpublished
      | setUser _ _ _ _ after => rw [after] at hpublished; exact hpublished
      | setEnvironment _ _ after => rw [after] at hpublished; exact hpublished
  · intro hauto hopened
    by_cases hact : a = .startSession
    · subst hact
      rcases ha with rfl | hpublished
      · obtain ⟨hr, hoff⟩ := hp.replayed rfl
        exact ⟨hreads hr, fun hstore => consentOff_keep hstore h (.inl rfl) (hoff hstore)⟩
      · exact ⟨hreads (hs.published hpublished), fun _ => .inl (published_keep h hpublished)⟩
    · have hgate : s.gate.opened = true := by
        cases perform_launch h with
        | none _ gate _ _ _ _ => rw [← gate]; exact hopened
        | startSession act _ => exact absurd act hact
        | publish _ after => rw [after] at hopened; exact hopened
        | startHeartbeat _ _ after => rw [after] at hopened; exact hopened
        | setConsent _ _ after => rw [after] at hopened; exact hopened
        | setUser _ _ _ _ after => rw [after] at hopened; exact hopened
        | setEnvironment _ _ after => rw [after] at hopened; exact hopened
      obtain ⟨hr, hoff⟩ := hs.opened hauto hgate
      exact ⟨hreads hr, fun hstore => consentOff_keep hstore h ha (hoff hstore)⟩
  · intro hearly hon
    cases perform_launch h with
    | none consent _ _ published _ _ =>
      rw [published]
      exact hs.consent hearly (consent ▸ hon)
    | setConsent granted act after =>
      rw [act] at ha
      rw [after] at hon ⊢
      refine ha.resolve_right fun hstore => ?_
      obtain rfl : granted = true := hon
      simp [Launch.consentsEarly, hstore] at hearly
    | publish _ after => rw [after]
    | startHeartbeat _ _ after => rw [after] at hon ⊢; exact hs.consent hearly hon
    | startSession _ after => rw [after] at hon ⊢; exact hs.consent hearly hon
    | setUser _ _ _ _ after => rw [after] at hon ⊢; exact hs.consent hearly hon
    | setEnvironment _ _ after => rw [after] at hon ⊢; exact hs.consent hearly hon
  · intro hthread
    cases perform_launch h with
    | none _ _ thread _ _ _ => exact hs.heartbeats (thread ▸ hthread)
    | startHeartbeat enabled act after =>
      rw [act] at ha
      rw [after] at hthread
      exact ha.symm.trans hthread
    | publish _ after => rw [after] at hthread; exact hs.heartbeats hthread
    | setConsent _ _ after => rw [after] at hthread; exact hs.heartbeats hthread
    | startSession _ after => rw [after] at hthread; exact hs.heartbeats hthread
    | setUser _ _ _ _ after => rw [after] at hthread; exact hs.heartbeats hthread
    | setEnvironment _ _ after => rw [after] at hthread; exact hs.heartbeats hthread

/-- What an action leaves behind is of the launch. -/
theorem ofLaunch_new (hs : Launched o s) (ha : a.OfLaunch o s t)
    (h : perform s a i = some (s', new)) (hb : b ∈ new) : b.OfLaunch o s' t := by
  have hleads := perform_leads (i := i) h hb
  cases hleads with
  | track =>
    intro hearly
    have hon : s.consent = true := by
      by_contra hoff
      obtain ⟨-, rfl⟩ := Prod.mk.inj (Option.some.inj h)
      simp [hoff] at hb
    exact published_keep h (hs.consent hearly hon)
  | consent =>
    rename_i granted
    intro hearly
    refine published_keep h (ha.resolve_right fun hstore => ?_)
    obtain ⟨-, rfl⟩ := Prod.mk.inj (Option.some.inj h)
    split at hb
    · rename_i hgranted
      simp [Launch.consentsEarly, hstore, hgranted] at hearly
    · cases hb
  | _ => trivial

theorem phase_perform (hs : Launched o s) (hp : Phase o s t (a :: p))
    (h : perform s a i = some (s', new)) : Phase o s' t (new ++ p) := by
  have ha : a.OfLaunch o s t := hp.acts a List.mem_cons_self
  refine ⟨?_, ?_, ?_, ?_, ?_⟩
  · exact ordered_append (fun b hb => (perform_leads (i := i) h hb).opens)
      (List.pairwise_cons.mp hp.ordered).2
  · refine List.forall_mem_append.mpr ⟨fun b hb => ofLaunch_new hs ha h hb, fun b hb => ?_⟩
    exact ofLaunch_keep h (hp.acts b (List.mem_cons_of_mem a hb))
  · intro ht
    rcases hp.user ht with ⟨userId, steamId, hb⟩ | hreads
    · rcases List.mem_cons.mp hb with rfl | hb
      · exact .inr (userIs_setUser hs.provisional h ha)
      · exact .inl ⟨userId, steamId, List.mem_append_right new hb⟩
    · exact .inr (user_keep hs.provisional h ha hreads)
  · intro ht
    rcases hp.environment ht with ⟨environment, hb⟩ | hreads
    · rcases List.mem_cons.mp hb with rfl | hb
      · exact .inr (environmentIs_setEnvironment h ha)
      · exact .inl ⟨environment, List.mem_append_right new hb⟩
    · exact .inr (environment_keep h ha hreads)
  · intro ht hstore
    rcases hp.consent ht hstore with ⟨granted, hb⟩ | hoff
    · rcases List.mem_cons.mp hb with rfl | hb
      · refine .inr ?_
        obtain ⟨rfl, -⟩ := Prod.mk.inj (Option.some.inj h)
        exact ha.imp (fun hpub => hpub) fun hg => Option.some.inj (hg.symm.trans hstore)
      · exact .inl ⟨granted, List.mem_append_right new hb⟩
    · exact .inr (consentOff_keep hstore h ha hoff)

/-- Another thread's action keeps what a thread has to do. -/
theorem phase_frame {u : Nat} {q : List Act} (hs : Launched o s) (ha : a.OfLaunch o s t)
    (h : perform s a i = some (s', new)) (hq : Phase o s u q) : Phase o s' u q where
  ordered := hq.ordered
  acts b hb := ofLaunch_keep h (hq.acts b hb)
  user hu := (hq.user hu).imp (fun hb => hb) (user_keep hs.provisional h ha)
  environment hu := (hq.environment hu).imp (fun hb => hb) (environment_keep h ha)
  consent hu hstore := (hq.consent hu hstore).imp (fun hb => hb) (consentOff_keep hstore h ha)

/-- The launch, and what each of its threads has still to do. -/
def Launching (o : Launch) (c : Config) : Prop := Interleave.Inv (Launched o) (Phase o) c

def Call.setsUser : Call → Bool
  | .setUser _ _ => true
  | _ => false

def Call.setsEnvironment : Call → Bool
  | .setEnvironment _ => true
  | _ => false

/-- What the host's calls leave as it is, and what they record. -/
theorem call_launch {k : Call} (h : call s t k = some (s', new)) :
    s.published = true ∧ new = k.acts ∧
      s' = { s with
        userOverridden := s.userOverridden || k.setsUser
        environmentOverridden := s.environmentOverridden || k.setsEnvironment } := by
  unfold call at h
  split at h
  · rename_i hguard
    obtain ⟨rfl, rfl⟩ := Prod.mk.inj (Option.some.inj h)
    simp only [Bool.and_eq_true] at hguard
    refine ⟨hguard.1, rfl, ?_⟩
    cases k <;> rfl
  · cases h

theorem userIs_call {v : Bytes} {user environment : Bool}
    (hv : UserIs o s v) :
    UserIs o { s with userOverridden := s.userOverridden || user, environmentOverridden := environment } v := by
  intro hhost
  simp only [Bool.or_eq_false_iff] at hhost
  exact hv hhost.1

theorem environmentIs_call {v : Bytes} {user environment : Bool}
    (hv : EnvironmentIs o s v) :
    EnvironmentIs o { s with userOverridden := user, environmentOverridden := s.environmentOverridden || environment } v := by
  intro hhost
  simp only [Bool.or_eq_false_iff] at hhost
  exact hv hhost.1

theorem reads_call (h : Reads o s) (user environment : Bool) :
    Reads o { s with
      userOverridden := s.userOverridden || user
      environmentOverridden := s.environmentOverridden || environment } :=
  ⟨userIs_call h.user, environmentIs_call h.environment⟩

theorem ofLaunch_call {u : Nat} {user environment : Bool} (hb : b.OfLaunch o s u) :
    b.OfLaunch o { s with
      userOverridden := s.userOverridden || user
      environmentOverridden := s.environmentOverridden || environment } u := by
  cases b
  case setUser userId steamId => exact hb.imp (fun hset => by simp [hset]) fun hu => hu
  case setEnvironment e => exact hb.imp (fun hset => by simp [hset]) fun he => he
  all_goals exact hb

theorem launching_step (hc : Launching o c) (h : step c l = some c') : Launching o c' := by
  refine Interleave.inv_step ?_ ?_ ?_ hc h
  · intro s t a rest i s' new hs hp h
    have ha : a.OfLaunch o s t := hp.acts a List.mem_cons_self
    exact ⟨launched_perform hs hp h, phase_perform hs hp h, fun u q _ hq => phase_frame hs ha h hq⟩
  · intro s t k s' new hs _ h
    obtain ⟨hpublished, rfl, rfl⟩ := call_launch h
    refine ⟨?_, ?_, fun u q _ hq => ?_⟩
    · exact ⟨hs.provisional, fun hp => reads_call (hs.published hp) _ _,
        fun hauto hopened => ⟨reads_call (hs.opened hauto hopened).1 _ _, (hs.opened hauto hopened).2⟩,
        hs.consent, hs.heartbeats, hs.unclean, hs.storage, hs.restored, hs.marker,
        fun hsame => reads_call (hs.same hsame) _ _⟩
    · have hreads := reads_call (hs.published hpublished) k.setsUser k.setsEnvironment
      refine ⟨?_, ?_, fun _ => .inr hreads.user, fun _ => .inr hreads.environment,
        fun _ _ => .inr (.inl hpublished)⟩
      · cases k <;> exact List.pairwise_singleton _ _
      · intro b hb
        cases k <;> rw [List.mem_singleton.mp hb] <;>
          first | trivial | exact .inl hpublished | exact .inr hpublished | exact .inl (Bool.or_true _)
    · refine ⟨hq.ordered, fun b hb => ofLaunch_call (hq.acts b hb), fun hu => ?_, fun hu => ?_,
        hq.consent⟩
      · exact (hq.user hu).imp (fun hb => hb) userIs_call
      · exact (hq.environment hu).imp (fun hb => hb) environmentIs_call
  · intro s ps e
    exact e.elim

theorem ordered_initProgram (o : Launch) : Ordered (initProgram o) := by
  simp only [initProgram, replayPreInit, List.append_assoc]
  refine ordered_append ?_ (ordered_append ?_ (ordered_append ?_ (ordered_append ?_
    (ordered_append ?_ ?_))))
  · intro a ha
    simp only [List.mem_cons, List.not_mem_nil, or_false] at ha
    rcases ha with rfl | rfl <;> rfl
  · intro a ha
    obtain ⟨_, -, rfl⟩ := List.mem_map.mp ha
    rfl
  · intro a ha
    obtain ⟨_, -, rfl⟩ := List.mem_map.mp ha
    rfl
  · intro a ha
    obtain ⟨_, -, rfl⟩ := List.mem_map.mp ha
    rfl
  · intro a ha
    obtain ⟨_, -, rfl⟩ := List.mem_map.mp ha
    rfl
  · split
    · exact List.pairwise_pair.mpr fun _ => rfl
    · exact List.pairwise_singleton _ _

/-- What the initializing thread does is of its launch. -/
theorem ofLaunch_initProgram (ha : a ∈ initProgram o) (s : State) : a.OfLaunch o s 0 := by
  simp only [initProgram, replayPreInit, List.mem_append, List.mem_cons, List.mem_map,
    List.not_mem_nil, or_false, Option.mem_toList] at ha
  rcases ha with ((rfl | rfl) | (((⟨g, hg, rfl⟩ | ⟨u, hu, rfl⟩) | ⟨e, he, rfl⟩) | ⟨_, _, rfl⟩) | ha) | rfl
  · rfl
  · trivial
  · exact .inr hg
  · exact .inr ⟨u, hu, rfl⟩
  · exact .inr ⟨e, he, rfl⟩
  · trivial
  · split at ha
    · rw [List.mem_singleton.mp ha]
      exact .inl rfl
    · cases ha
  · rfl

theorem launched_start (o : Launch) : Launched o (initialized o) := by
  refine ⟨rfl, ?_, ?_, ?_, ?_, rfl, rfl, rfl, fun hm => hm, ?_⟩
  · intro hpublished
    cases hpublished
  · intro hauto hopened
    simp [initialized, StartGate.arm, hauto] at hopened
  · intro hearly hon
    simp only [Launch.consentsEarly, Bool.or_eq_false_iff] at hearly
    rw [show (initialized o).consent = o.consentGranted from rfl, hearly.1] at hon
    cases hon
  · intro hthread
    cases hthread
  · intro hsame
    exact ⟨fun _ u hu => (hsame.1 u hu).symm, fun _ e he => (hsame.2 e he).symm⟩

theorem phase_initProgram (o : Launch) : Phase o (initialized o) 0 (initProgram o) := by
  have hmem : ∀ a ∈ replayPreInit o.store, a ∈ initProgram o := by
    intro a ha
    simp only [initProgram, List.mem_append]
    exact .inl (.inr ha)
  refine ⟨ordered_initProgram o, fun a ha => ofLaunch_initProgram ha _, fun _ => ?_, fun _ => ?_,
    fun _ hstore => ?_⟩
  · cases hu : o.store.user with
    | none =>
      refine .inr fun _ u hmem => ?_
      rw [hu] at hmem
      cases hmem
    | some u => exact .inl ⟨some u.1, some u.2, hmem _ (by simp [replayPreInit, hu])⟩
  · cases he : o.store.environment with
    | none =>
      refine .inr fun _ e hmem => ?_
      rw [he] at hmem
      cases hmem
    | some e => exact .inl ⟨some e, hmem _ (by simp [replayPreInit, he])⟩
  · exact .inl ⟨false, hmem _ (by simp [replayPreInit, hstore])⟩

theorem launching_start (o : Launch) : Launching o (start o) := by
  refine ⟨launched_start o, fun t p hp => ?_⟩
  cases t with
  | zero =>
    cases hp
    exact phase_initProgram o
  | succ t =>
    -- the other threads have nothing to replay
    have hidle : p = [.heartbeat] ∨ p = [.send] ∨ p = [] := by
      have hm : p ∈ [.heartbeat] :: [.send] :: List.replicate o.hostThreads [] :=
        List.mem_of_getElem? (i := t) hp
      simp only [List.mem_cons, List.mem_replicate] at hm
      exact hm.imp (fun h => h) fun hm => hm.imp (fun h => h) And.right
    refine ⟨?_, ?_, fun ht => (nomatch ht), fun ht => (nomatch ht), fun ht => (nomatch ht)⟩
    · rcases hidle with rfl | rfl | rfl
      · exact List.pairwise_singleton _ _
      · exact List.pairwise_singleton _ _
      · exact List.Pairwise.nil
    · intro a ha
      rcases hidle with rfl | rfl | rfl
      · rw [List.mem_singleton.mp ha]
        trivial
      · rw [List.mem_singleton.mp ha]
        trivial
      · cases ha

/-! ## The bodies -/

/-- A body may be read. -/
structure Ready (o : Launch) (s : State) : Prop where
  published : o.store.consent = some false → s.published = true
  reads : Reads o s

/-- Whether the action builds a beat, or a report about the previous launch. -/
def Act.Builds : Act → Prop
  | .beatUser _ | .beatContext _ | .beatServerInfo _ | .beatSent _ | .beatDevice _
  | .beatMetadata _ | .raiseCarry _ | .enqueueBeat _ => True
  | .report kind => kind.live = false
  | .reportUser r | .reportPrior r | .reportSteam r | .reportContext r | .reportDevice r
  | .enqueueReport r => r.kind.live = false
  | _ => False

/-- The user that such a body has read. -/
def Act.userRead : Act → Option Bytes
  | .beatContext b | .beatServerInfo b | .beatSent b | .beatDevice b | .beatMetadata b
  | .raiseCarry b | .enqueueBeat b => some b.payload.userId
  | .reportPrior r | .reportSteam r | .reportContext r | .reportDevice r | .enqueueReport r =>
    if r.kind.live then none else some r.userId
  | _ => none

/-- The environment that such a body has read. -/
def Act.environmentRead : Act → Option Bytes
  | .beatServerInfo b | .beatSent b | .beatDevice b | .beatMetadata b | .raiseCarry b
  | .enqueueBeat b => some b.payload.environment
  | .reportDevice r | .enqueueReport r => if r.kind.live then none else some r.environment
  | _ => none

/-- What is enqueued was read when it might be, and is what was buffered. -/
def SentOf (o : Launch) (s : State) : Prop :=
  ∀ x ∈ s.sent, Ready o s ∧ UserIs o s x.1 ∧ EnvironmentIs o s x.2

/-- The same for a body under construction. -/
structure BodyOf (o : Launch) (s : State) (a : Act) : Prop where
  ready : a.Builds → Ready o s
  user : ∀ v ∈ a.userRead, UserIs o s v
  environment : ∀ v ∈ a.environmentRead, EnvironmentIs o s v

def Bodies (o : Launch) (c : Config) : Prop := Interleave.ActInv (SentOf o) (BodyOf o) c

theorem ready_keep (hs : Launched o s) (ha : a.OfLaunch o s t)
    (h : perform s a i = some (s', new)) (hr : Ready o s) : Ready o s' :=
  ⟨fun hstore => published_keep h (hr.published hstore), reads_keep hs.provisional h ha hr.reads⟩

/-- A body is begun by the heartbeat loop or by session tracking. -/
theorem Leads.builds (h : Leads s i a b) (hb : b.Builds) :
    a.Builds ∨ a = .startSessionTracking ∨
      a = .heartbeat ∧ s.consent = true ∧ s.gate.opened = true := by
  cases h
  case previous => exact .inr (.inl rfl)
  case beat hconsent hgate => exact .inr (.inr ⟨rfl, hconsent, hgate⟩)
  case reportDevice r =>
    have hkind : (r.readContext s.context).kind.live = false := hb
    rw [Report.readContext_kind] at hkind
    exact .inl hkind
  all_goals exact .inl hb

theorem Leads.userRead (h : Leads s i a b) {v : Bytes} (hv : v ∈ b.userRead) :
    a.Builds ∧ v = s.identity.effective ∨ v ∈ a.userRead := by
  cases h
  case beatContext => exact .inl ⟨trivial, (Option.some.inj hv).symm⟩
  case reportPrior r hlive =>
    simp only [Act.userRead, Report.readUser_kind, hlive, if_true] at hv
    cases hv
  case reportSteam r hlive =>
    simp only [Act.userRead, Report.readUser_kind, hlive, Bool.false_eq_true, if_false] at hv
    exact .inl ⟨hlive, (Option.some.inj hv).symm⟩
  case reportDevice r =>
    refine .inr ?_
    simp only [Act.userRead, Report.readContext_kind] at hv ⊢
    split at hv
    · cases hv
    · rename_i hlive
      rw [if_neg hlive]
      simpa [Report.readContext, hlive] using hv
  case beatMetadata b =>
    refine .inr ?_
    simp only [Act.userRead, Beat.readDevice] at hv ⊢
    split at hv <;> exact hv
  all_goals exact .inr hv

theorem Leads.environmentRead (h : Leads s i a b) {v : Bytes} (hv : v ∈ b.environmentRead) :
    a.Builds ∧ v = s.context.environment ∨ v ∈ a.environmentRead := by
  cases h
  case beatServerInfo => exact .inl ⟨trivial, (Option.some.inj hv).symm⟩
  case reportDevice r =>
    simp only [Act.environmentRead, Report.readContext_kind] at hv
    split at hv
    · cases hv
    · rename_i hlive
      have hkind : r.kind.live = false := by simpa using hlive
      refine .inl ⟨hkind, ?_⟩
      simpa [Report.readContext, hkind] using (Option.some.inj hv).symm
  case beatMetadata b =>
    refine .inr ?_
    simp only [Act.environmentRead, Beat.readDevice] at hv ⊢
    split at hv <;> exact hv
  all_goals exact .inr hv

/-- The heartbeat loop beats only on its thread. -/
theorem heartbeat_thread (h : perform s .heartbeat i = some (s', new)) :
    s.heartbeatThread = true := by
  by_contra hthread
  simp [perform, hthread] at h

/-- **A launch that keeps its promise begins no body before it may.** -/
theorem ready_begin (hkeeps : o.KeepsPromise) (hs : Launched o s) (ha : a.OfLaunch o s t)
    (h : perform s a i = some (s', new)) (hb : b ∈ new)
    (hbegin : a = .startSessionTracking ∨
      a = .heartbeat ∧ s.consent = true ∧ s.gate.opened = true) : Ready o s := by
  have hpublished : s.published = true → Ready o s := fun hp => ⟨fun _ => hp, hs.published hp⟩
  rcases hkeeps with hnever | ⟨hstore, hsame⟩
  · simp only [Launch.mayPrecede, Bool.and_eq_false_iff, Bool.or_eq_false_iff] at hnever
    rcases hbegin with rfl | ⟨rfl, hconsent, hgate⟩
    · rcases hnever with hearly | ⟨-, hreports⟩
      · exact hpublished (ha hearly)
      · -- the previous launch left nothing to report
        obtain ⟨hu, hst, hm, hr⟩ := startSessionTracking_reports (Option.some.inj h) hb
        rw [hs.unclean] at hu
        rw [hs.storage] at hst
        rw [hs.restored] at hr
        simp [Launch.reportsEarly, hu, hst, hr, hs.marker hm] at hreports
    · rcases hnever with hearly | ⟨hbeats, -⟩
      · exact hpublished (hs.consent hearly hconsent)
      · have henabled := hs.heartbeats (heartbeat_thread h)
        simp only [Launch.beatsEarly, henabled, Bool.true_and] at hbeats
        obtain ⟨hreads, hoff⟩ := hs.opened hbeats hgate
        refine ⟨fun hstore => (hoff hstore).resolve_right ?_, hreads⟩
        rw [hconsent]
        exact Bool.noConfusion
  · exact ⟨fun hfalse => absurd hfalse hstore, hs.same hsame⟩

theorem mem_sent {x : Bytes × Bytes} :
    x ∈ s.sent ↔ (∃ b ∈ s.beats, x = (b.payload.userId, b.payload.environment)) ∨
      ∃ r ∈ s.reports, r.kind.live = false ∧ x = (r.userId, r.environment) := by
  simp only [State.sent, List.mem_append, List.mem_map, List.mem_filter, Bool.not_eq_true',
    and_assoc]
  exact or_congr (exists_congr fun b => and_congr_right fun _ => eq_comm)
    (exists_congr fun r => and_congr_right fun _ => and_congr_right fun _ => eq_comm)

theorem bodyOf_keep (hs : Launched o s) (ha : a.OfLaunch o s t)
    (h : perform s a i = some (s', new)) (hb : BodyOf o s b) : BodyOf o s' b where
  ready hbuilds := ready_keep hs ha h (hb.ready hbuilds)
  user v hv := userIs_keep h (hb.user v hv)
  environment v hv := environmentIs_keep h (hb.environment v hv)

/-- What an action leaves of a body was read when it might be. -/
theorem bodyOf_new (hkeeps : o.KeepsPromise) (hs : Launched o s) (ha : a.OfLaunch o s t)
    (hbody : BodyOf o s a) (h : perform s a i = some (s', new)) (hb : b ∈ new) :
    BodyOf o s b := by
  have hleads := perform_leads (i := i) h hb
  refine ⟨fun hbuilds => ?_, fun v hv => ?_, fun v hv => ?_⟩
  · rcases hleads.builds hbuilds with hbuilds | hbegin
    · exact hbody.ready hbuilds
    · exact ready_begin hkeeps hs ha h hb hbegin
  · rcases hleads.userRead hv with ⟨hbuilds, rfl⟩ | hv
    · exact (hbody.ready hbuilds).reads.user
    · exact hbody.user v hv
  · rcases hleads.environmentRead hv with ⟨hbuilds, rfl⟩ | hv
    · exact (hbody.ready hbuilds).reads.environment
    · exact hbody.environment v hv

theorem sentOf_perform (hs : Launched o s) (ha : a.OfLaunch o s t) (hbody : BodyOf o s a)
    (hsent : SentOf o s) (h : perform s a i = some (s', new)) : SentOf o s' := by
  have hkeep : ∀ x : Bytes × Bytes, Ready o s ∧ UserIs o s x.1 ∧ EnvironmentIs o s x.2 →
      Ready o s' ∧ UserIs o s' x.1 ∧ EnvironmentIs o s' x.2 :=
    fun x hx => ⟨ready_keep hs ha h hx.1, userIs_keep h hx.2.1, environmentIs_keep h hx.2.2⟩
  intro x hx
  refine hkeep x ?_
  rcases mem_sent.mp hx with ⟨b, hb, rfl⟩ | ⟨r, hr, hlive, rfl⟩
  · cases perform_queue h with
    | none _ beats _ => exact hsent _ (mem_sent.mpr (.inl ⟨b, beats ▸ hb, rfl⟩))
    | report _ _ _ beats _ => exact hsent _ (mem_sent.mpr (.inl ⟨b, beats ▸ hb, rfl⟩))
    | send _ _ _ _ _ beats _ => exact hsent _ (mem_sent.mpr (.inl ⟨b, beats ▸ hb, rfl⟩))
    | beat b' act _ beats _ =>
      rw [beats] at hb
      rcases List.mem_append.mp hb with hb | hb
      · exact hsent _ (mem_sent.mpr (.inl ⟨b, hb, rfl⟩))
      · subst act
        rw [List.mem_singleton.mp hb]
        exact ⟨hbody.ready trivial, hbody.user _ rfl, hbody.environment _ rfl⟩
  · cases perform_queue h with
    | none _ _ reports => exact hsent _ (mem_sent.mpr (.inr ⟨r, reports ▸ hr, hlive, rfl⟩))
    | beat _ _ _ _ reports => exact hsent _ (mem_sent.mpr (.inr ⟨r, reports ▸ hr, hlive, rfl⟩))
    | send _ _ _ _ _ _ reports =>
      exact hsent _ (mem_sent.mpr (.inr ⟨r, reports ▸ hr, hlive, rfl⟩))
    | report r' act _ _ reports =>
      rw [reports] at hr
      rcases List.mem_append.mp hr with hr | hr
      · exact hsent _ (mem_sent.mpr (.inr ⟨r, hr, hlive, rfl⟩))
      · subst act
        rw [List.mem_singleton.mp hr] at hlive ⊢
        exact ⟨hbody.ready hlive, hbody.user _ (by simp [Act.userRead, hlive]),
          hbody.environment _ (by simp [Act.environmentRead, hlive])⟩

/-- An action that builds nothing has read nothing. -/
theorem bodyOf_idle (hbuilds : ¬ a.Builds) (huser : a.userRead = none)
    (henvironment : a.environmentRead = none) : BodyOf o s a where
  ready h := absurd h hbuilds
  user v hv := by
    rw [huser] at hv
    cases hv
  environment v hv := by
    rw [henvironment] at hv
    cases hv

theorem bodies_step (hkeeps : o.KeepsPromise) (hlaunch : Launching o c) (hc : Bodies o c)
    (h : step c l = some c') : Bodies o c' := by
  have hs : Launched o c.shared := hlaunch.shared
  rcases Interleave.step_cases h with ⟨t, i, a, rest, s', new, rfl, ht, hp, rfl⟩ |
    ⟨t, k, s', new, rfl, ht, hp, rfl⟩ | ⟨e, -, -⟩
  · have ha : a.OfLaunch o c.shared t := (hlaunch.threads t _ ht).acts a List.mem_cons_self
    have hbody : BodyOf o c.shared a := hc.act (List.mem_of_getElem? ht) List.mem_cons_self
    refine hc.exec ht (sentOf_perform hs ha hbody hc.shared hp) (fun b hb => ?_)
      fun _ _ b _ hb => bodyOf_keep hs ha hp hb
    exact bodyOf_keep hs ha hp (bodyOf_new hkeeps hs ha hbody hp hb)
  · obtain ⟨hpublished, rfl, rfl⟩ := call_launch hp
    have hready : ∀ s', s' = { c.shared with
        userOverridden := c.shared.userOverridden || k.setsUser
        environmentOverridden := c.shared.environmentOverridden || k.setsEnvironment } →
        Ready o c.shared → Ready o s' := by
      rintro s' rfl hr
      exact ⟨fun _ => hpublished, reads_call hr.reads _ _⟩
    refine hc.call (fun x hx => ?_) (fun b hb => ?_) fun _ _ b _ hb => ?_
    · obtain ⟨hr, hu, he⟩ := hc.shared x hx
      exact ⟨hready _ rfl hr, userIs_call hu, environmentIs_call he⟩
    · cases k <;> rw [List.mem_singleton.mp hb] <;>
        exact bodyOf_idle (by simp [Act.Builds, ReportKind.live]) rfl rfl
    · exact ⟨fun hbuilds => hready _ rfl (hb.ready hbuilds), fun v hv => userIs_call (hb.user v hv),
        fun v hv => environmentIs_call (hb.environment v hv)⟩
  · exact e.elim

theorem initProgram_body (ha : a ∈ initProgram o) : BodyOf o s a := by
  simp only [initProgram, replayPreInit, List.mem_append, List.mem_cons, List.mem_map,
    List.not_mem_nil, or_false] at ha
  rcases ha with ((rfl | rfl) | (((⟨_, _, rfl⟩ | ⟨_, _, rfl⟩) | ⟨_, _, rfl⟩) | ⟨_, _, rfl⟩) | ha) | rfl
  · exact bodyOf_idle id rfl rfl
  · exact bodyOf_idle id rfl rfl
  · exact bodyOf_idle id rfl rfl
  · exact bodyOf_idle id rfl rfl
  · exact bodyOf_idle id rfl rfl
  · exact bodyOf_idle id rfl rfl
  · split at ha
    · rw [List.mem_singleton.mp ha]
      exact bodyOf_idle id rfl rfl
    · cases ha
  · exact bodyOf_idle id rfl rfl

theorem bodies_start (o : Launch) : Bodies o (start o) := by
  refine ⟨fun x hx => (nomatch hx), fun t p hp a ha => ?_⟩
  have hp := List.mem_of_getElem? hp
  simp only [start, List.mem_cons, List.mem_replicate] at hp
  rcases hp with rfl | rfl | rfl | ⟨-, rfl⟩
  · exact initProgram_body ha
  · rw [List.mem_singleton.mp ha]
    exact bodyOf_idle id rfl rfl
  · rw [List.mem_singleton.mp ha]
    exact bodyOf_idle id rfl rfl
  · cases ha

theorem preInitWins_of_sent (hsent : SentOf o s) : PreInitWins o s := by
  unfold PreInitWins
  split
  · rename_i hstore
    intro hpublished
    refine List.eq_nil_iff_forall_not_mem.mpr fun x hx => ?_
    rw [(hsent x hx).1.published hstore] at hpublished
    cases hpublished
  · exact fun x hx => (hsent x hx).2

theorem preInit_wins (hkeeps : o.KeepsPromise) (ls : List Label) :
    Run.AllStates step (fun c => PreInitWins o c.shared) (start o) ls := by
  refine Run.allStates_of_steps (I := fun c => Launching o c ∧ Bodies o c)
    (C := fun _ _ _ => True) ?_ (fun c hc => preInitWins_of_sent hc.2.shared) ls (start o)
    ⟨launching_start o, bodies_start o⟩ (Run.allSteps_true ls _)
  intro c l c' ⟨hlaunch, hbodies⟩ h _
  exact ⟨launching_step hlaunch h, bodies_step hkeeps hlaunch hbodies h⟩

/-! ## The launches that break it -/

/-- The heartbeat thread beats once, as the state is now. -/
theorem beat_run (hthread : s.heartbeatThread = true) (hconsent : s.consent = true)
    (hgate : s.gate.opened = true) (hsent : s.device.sentOnHeartbeat = false)
    (hdevice : deviceHasContent s.device.device = false) (ps : List (List Act)) :
    ∃ s', Run.run step ⟨s, p :: [.heartbeat] :: ps⟩ (List.replicate 8 (.exec 1 {})) =
        some ⟨s', p :: [.heartbeat] :: ps⟩ ∧
      (s.identity.effective, s.context.environment) ∈ s'.sent ∧ s'.published = s.published ∧
      s'.userOverridden = s.userOverridden ∧ s'.environmentOverridden = s.environmentOverridden := by
  simp [Interleave.run_exec_one, List.replicate, step, machine, perform, newBeat, Beat.readUser,
    Beat.readContext, Beat.readServerInfo, Beat.readDevice, Beat.readMetadata, Identity.carry,
    hthread, hconsent, hgate, hsent, hdevice, mem_sent]

/-- The initializing thread starts tracking, and reports the death of the previous launch. -/
theorem report_run (hstarted : s.sessionTrackingStarted = false)
    (hunclean : s.uncleanDetectionEnabled = true) (hstorage : s.storageAvailable = true)
    (hmarker : s.previousMarker = true) (hrestored : s.hasRestoredCrash = false)
    (ps : List (List Act)) :
    ∃ s', Run.run step ⟨s, (.startSessionTracking :: p) :: ps⟩ (List.replicate 6 (.exec 0 {})) =
        some ⟨s', p :: ps⟩ ∧
      (s.identity.effective, s.context.environment) ∈ s'.sent ∧ s'.published = s.published ∧
      s'.userOverridden = s.userOverridden ∧ s'.environmentOverridden = s.environmentOverridden := by
  cases hdump : s.previousNativeDump <;>
    simp [Interleave.run_exec_zero, List.replicate, step, machine, perform, startSessionTracking,
      Report.readUser, Report.readContext, ReportKind.live, Identity.effective,
      hstarted, hunclean, hstorage, hmarker, hrestored, hdump, mem_sent]

/-- Where consent comes early, session tracking starts before the user is replayed. -/
theorem consent_run (hearly : o.consentsEarly = true) :
    ∃ ls p, Run.run step (start o) ls =
      some ⟨{ initialized o with heartbeatThread := o.enableHeartbeats, consent := true },
        (.startSessionTracking :: p) :: [.heartbeat] :: [.send] :: List.replicate o.hostThreads []⟩ := by
  by_cases hgranted : o.consentGranted = true
  · refine ⟨List.replicate 2 (.exec 0 {}), replayPreInit o.store ++ [.publish], ?_⟩
    simp [Interleave.run_exec_zero, List.replicate, step, machine, perform, start, initProgram,
      initialized, hgranted, Launch.store]
  · have hstore : o.store.consent = some true := by
      simp only [Launch.consentsEarly, hgranted, Bool.false_or, beq_iff_eq] at hearly
      exact hearly
    obtain ⟨q, hq⟩ : ∃ q, replayPreInit o.store = .setConsent true :: q := by
      simp [replayPreInit, hstore]
    refine ⟨List.replicate 3 (.exec 0 {}), q ++ [.publish], ?_⟩
    have hprogram : initProgram o =
        .startHeartbeat o.enableHeartbeats :: .trackIfConsented :: .setConsent true :: (q ++ [.publish]) := by
      show _ ++ replayPreInit o.store ++ _ = _
      rw [hq]
      rfl
    simp [Interleave.run_exec_zero, List.replicate, step, machine, perform, start, hprogram,
      initialized, hgranted]

/-- A launch that can send before the replay sends what the options say. -/
theorem early_run (hmay : o.mayPrecede = true) :
    ∃ ls c, Run.run step (start o) ls = some c ∧ c.shared.published = false ∧
      c.shared.userOverridden = false ∧ c.shared.environmentOverridden = false ∧
      (o.provisionalUserId, (Context.setEnvironment {} o.environment).environment) ∈ c.shared.sent := by
  simp only [Launch.mayPrecede, Bool.and_eq_true, Bool.or_eq_true] at hmay
  obtain ⟨hearly, hbody⟩ := hmay
  obtain ⟨ls, p, hls⟩ := consent_run hearly
  rcases hbody with hbeats | hreports
  · simp only [Launch.beatsEarly, Bool.and_eq_true] at hbeats
    obtain ⟨s', hrun, hsent, hpublished, huser, henvironment⟩ :=
      beat_run (p := .startSessionTracking :: p)
        (s := { initialized o with heartbeatThread := o.enableHeartbeats, consent := true })
        hbeats.1 rfl (by simp [initialized, StartGate.arm, hbeats.2]) rfl
        (by show deviceHasContent {} = false; decide)
        ([.send] :: List.replicate o.hostThreads [])
    exact ⟨_, _, Run.run_append_some.mpr ⟨_, hls, hrun⟩, hpublished, huser, henvironment, hsent⟩
  · simp only [Launch.reportsEarly, Bool.and_eq_true, Bool.not_eq_true'] at hreports
    obtain ⟨⟨⟨hunclean, hstorage⟩, hmarker⟩, hrestored⟩ := hreports
    obtain ⟨s', hrun, hsent, hpublished, huser, henvironment⟩ :=
      report_run (p := p)
        (s := { initialized o with heartbeatThread := o.enableHeartbeats, consent := true })
        rfl hunclean hstorage hmarker hrestored
        ([.heartbeat] :: [.send] :: List.replicate o.hostThreads [])
    exact ⟨_, _, Run.run_append_some.mpr ⟨_, hls, hrun⟩, hpublished, huser, henvironment, hsent⟩

/-- **What is set before the launch beats the options, exactly.** On every run of the launch
the promise is kept just when the launch can send nothing before the replay; or consent was
not withdrawn before it, and the replayed user and environment are those the options give. -/
theorem preInit_wins_iff (o : Launch) :
    (∀ ls, Run.AllStates step (fun c => PreInitWins o c.shared) (start o) ls) ↔ o.KeepsPromise := by
  constructor
  · intro hall
    by_contra hbreaks
    obtain ⟨hmay, hdiffers⟩ := not_or.mp hbreaks
    obtain ⟨ls, c, hrun, hpublished, huser, henvironment, hsent⟩ :=
      early_run (Bool.not_eq_false _ ▸ hmay)
    have hwins : PreInitWins o c.shared := (hall ls).last hrun
    unfold PreInitWins at hwins
    split at hwins
    · rw [hwins hpublished] at hsent
      cases hsent
    · rename_i hstore
      obtain ⟨hu, he⟩ := hwins _ hsent
      exact hdiffers ⟨hstore, fun u hmem => (hu huser u hmem).symm,
        fun e hmem => (he henvironment e hmem).symm⟩
  · exact fun hkeeps ls => preInit_wins hkeeps ls

/-- Consent is withdrawn before the launch, the option grants it; a beat goes out before the
replay. -/
def consentWithdrawn : Launch := { preInit := [.setConsent false] }

/-- **A beat is enqueued although consent was withdrawn before the launch.** -/
theorem consentWithdrawn_beats :
    ¬ ∀ o ls, Run.AllStates step (fun c => PreInitWins o c.shared) (start o) ls := by
  intro hall
  have hfails : ¬ Run.AllStates step (fun c => PreInitWins consentWithdrawn c.shared)
      (start consentWithdrawn) (.exec 0 {} :: List.replicate 8 (.exec 1 {})) := by decide
  exact hfails (hall consentWithdrawn _)

end Tombstone.Session
