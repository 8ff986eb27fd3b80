import Tombstone.Run

/- Clients and the references to them (`tombstone_api.cpp`, `client.cpp`).

   `g_client` is one reference; a call copies it and keeps the client alive until it
   returns. `tombstone_shutdown` takes `g_client` away and drops that one reference: whoever
   drops the last one runs `~Client`, which removes `session.lock`. All clients share one data
   directory. Calls come from any number of threads; each of their labels is one access to the
   shared state, in any order with those of the others, and no other call takes or publishes a
   client while `tombstone_init` holds `g_client_mutex`.

   (1) A client is destroyed only when nothing refers to it, and then never published
       (`referenced_step`).
   (2) The marker of a published client that tracks its session is there in every state of
       exactly the runs where no other client writes or removes it meanwhile, nor between its
       writing and the client's publication (`marker_lives_iff`). -/
namespace Tombstone.ClientLifetimes

/-- A client, by what bears on the marker. -/
structure Client where
  storageAvailable : Bool
  uncleanDetectionEnabled : Bool
  sessionTrackingStarted : Bool := false
  /-- It has written its marker; proof-only. -/
  tracking : Bool := false
  deriving DecidableEq, Repr

/-- Where a call is: in the library, about to write its client's marker in
`start_session_tracking`, or with the reference that `tombstone_shutdown` took. -/
inductive Stage
  | inside
  | writing
  | retired
  deriving DecidableEq, Repr

/-- A reference that a call holds. -/
structure Call where
  client : Nat
  stage : Stage
  deriving DecidableEq, Repr

structure State where
  /-- Every client there was; a client goes by its place here, and so does its session id. -/
  clients : List Client := []
  /-- `g_client`. -/
  published : Option Nat := none
  /-- The client of the `tombstone_init` that holds `g_client_mutex`. -/
  initializing : Option Nat := none
  calls : List Call := []
  /-- The clients whose destructor has yet to remove the marker. -/
  destroying : List Nat := []
  /-- The session that `session.lock` names. -/
  marker : Option Nat := none

inductive Label where
  /-- `client_snapshot`. -/
  | enter
  /-- `tombstone_init`, up to `configure_storage`, which removes the marker it finds. -/
  | beginInit (storageAvailable uncleanDetectionEnabled : Bool)
  /-- `start_session_tracking` in the `i`-th call, up to the write. -/
  | startTracking (i : Nat)
  | writeMarker (i : Nat)
  /-- `tombstone_init` publishes its client, or an exception ends it. -/
  | publish (i : Nat)
  | abandonInit (i : Nat)
  /-- `tombstone_shutdown` takes `g_client`. -/
  | shutdown
  /-- The `i`-th call drops its reference. -/
  | leave (i : Nat)
  /-- `marker_.remove()` in the `j`-th of the destructors. -/
  | removeMarker (j : Nat)
  deriving DecidableEq, Repr

/-- Something refers to the client. -/
def State.Held (s : State) (c : Nat) : Prop :=
  s.published = some c ∨ ∃ k ∈ s.calls, k.client = c

instance (s : State) (c : Nat) : Decidable (s.Held c) :=
  inferInstanceAs (Decidable (s.published = some c ∨ ∃ k ∈ s.calls, k.client = c))

/-- A call's reference is dropped; the last one takes the client with it. -/
def State.drop (s : State) (i c : Nat) : State :=
  let s := { s with calls := s.calls.eraseIdx i }
  if s.Held c then s else { s with destroying := s.destroying ++ [c] }

/-- Storage, as `configure_storage` found it for the client. -/
def State.storage (s : State) (c : Nat) : Bool :=
  (s.clients[c]?.map Client.storageAvailable).getD false

/-- The client has started session tracking. -/
def State.tracks (s : State) (c : Nat) : Bool := (s.clients[c]?.map Client.tracking).getD false

def State.modify (s : State) (c : Nat) (f : Client → Client) : State :=
  { s with clients := s.clients.modify c f }

def State.move (s : State) (i : Nat) (k : Call) : State := { s with calls := s.calls.set i k }

/-- One step of the call that is `k` now. -/
def stepCall (s : State) (i : Nat) (k : Call) : Label → Option State
  | .startTracking _ =>
    match k.stage, s.clients[k.client]? with
    | .inside, some client =>
      if client.sessionTrackingStarted || !client.uncleanDetectionEnabled
          || !client.storageAvailable then some s
      -- the flag is set first; the file is written in a step of its own
      else some ((s.modify k.client fun c => { c with sessionTrackingStarted := true }).move i
        { k with stage := .writing })
    | _, _ => none
  | .writeMarker _ =>
    if k.stage = .writing then
      some { (s.modify k.client fun c => { c with tracking := true }).move i
        { k with stage := .inside } with marker := some k.client }
    else none
  | .publish _ =>
    if s.initializing = some k.client ∧ k.stage = .inside then
      some { s with
        published := some k.client, initializing := none, calls := s.calls.eraseIdx i }
    else none
  | .abandonInit _ =>
    if s.initializing = some k.client ∧ k.stage = .inside then
      some ({ s with initializing := none }.drop i k.client)
    else none
  | .leave _ =>
    if s.initializing ≠ some k.client ∧ k.stage ≠ .writing then some (s.drop i k.client) else none
  | _ => none

def step (s : State) (l : Label) : Option State :=
  match l with
  | .enter =>
    match s.initializing, s.published with
    | none, some c => some { s with calls := s.calls ++ [⟨c, .inside⟩] }
    | _, _ => none
  | .beginInit storageAvailable uncleanDetectionEnabled =>
    match s.initializing, s.published with
    | none, none =>
      some { s with
        clients := s.clients ++ [{ storageAvailable, uncleanDetectionEnabled }]
        initializing := some s.clients.length
        calls := s.calls ++ [⟨s.clients.length, .inside⟩]
        marker := if storageAvailable then none else s.marker }
    | _, _ => none
  | .shutdown =>
    match s.initializing, s.published with
    | none, some c => some { s with published := none, calls := s.calls ++ [⟨c, .retired⟩] }
    | _, _ => none
  | .startTracking i | .writeMarker i | .publish i | .abandonInit i | .leave i =>
    s.calls[i]?.bind fun k => stepCall s i k l
  | .removeMarker j =>
    s.destroying[j]?.map fun d =>
      { s with
        destroying := s.destroying.eraseIdx j
        marker := if s.storage d then none else s.marker }

/-- **The live session's marker**: `session.lock` names the published client, once that has
started session tracking. -/
def MarkerLives (s : State) : Prop :=
  ∀ c ∈ s.published, s.tracks c = true → s.marker = some c

/-- The client that writes or removes `session.lock` in a step. -/
def State.toucher (s : State) : Label → Option Nat
  | .writeMarker i => s.calls[i]?.map Call.client
  | .removeMarker j => s.destroying[j]?.filter s.storage
  | _ => none

/-- No client but the published one touches the marker once that tracks its session; and what a
client wrote in its `init` is still there when it is published. -/
def Undisturbed (s : State) : Label → Prop
  | .publish _ => ∀ c ∈ s.initializing, s.tracks c = true → s.marker = some c
  | l => ∀ d ∈ s.toucher l, ∀ c ∈ s.published, s.tracks c = true → d = c

/-! ## What a step does -/

/-- Everything that a step can do. -/
inductive Stepped (s : State) : Label → State → Prop where
  | enter {c : Nat} (idle : s.initializing = none) (published : s.published = some c) :
      Stepped s .enter { s with calls := s.calls ++ [⟨c, .inside⟩] }
  | beginInit (storageAvailable uncleanDetectionEnabled : Bool) (idle : s.initializing = none)
      (unpublished : s.published = none) :
      Stepped s (.beginInit storageAvailable uncleanDetectionEnabled)
        { s with
          clients := s.clients ++ [{ storageAvailable, uncleanDetectionEnabled }]
          initializing := some s.clients.length
          calls := s.calls ++ [⟨s.clients.length, .inside⟩]
          marker := if storageAvailable then none else s.marker }
  | untracked {i : Nat} {k : Call} (call : s.calls[i]? = some k) (inside : k.stage = .inside) :
      Stepped s (.startTracking i) s
  | startTracking {i : Nat} {k : Call} (call : s.calls[i]? = some k) (inside : k.stage = .inside) :
      Stepped s (.startTracking i)
        ((s.modify k.client fun c => { c with sessionTrackingStarted := true }).move i
          { k with stage := .writing })
  | writeMarker {i : Nat} {k : Call} (call : s.calls[i]? = some k) (writing : k.stage = .writing) :
      Stepped s (.writeMarker i)
        { (s.modify k.client fun c => { c with tracking := true }).move i
          { k with stage := .inside } with marker := some k.client }
  | publish {i : Nat} {k : Call} (call : s.calls[i]? = some k) (inside : k.stage = .inside)
      (initializing : s.initializing = some k.client) :
      Stepped s (.publish i)
        { s with published := some k.client, initializing := none, calls := s.calls.eraseIdx i }
  | abandonInit {i : Nat} {k : Call} (call : s.calls[i]? = some k) (inside : k.stage = .inside)
      (initializing : s.initializing = some k.client) :
      Stepped s (.abandonInit i) ({ s with initializing := none }.drop i k.client)
  | leave {i : Nat} {k : Call} (call : s.calls[i]? = some k) (stage : k.stage ≠ .writing)
      (initialized : s.initializing ≠ some k.client) : Stepped s (.leave i) (s.drop i k.client)
  | shutdown {c : Nat} (idle : s.initializing = none) (published : s.published = some c) :
      Stepped s .shutdown { s with published := none, calls := s.calls ++ [⟨c, .retired⟩] }
  | removeMarker {j d : Nat} (dying : s.destroying[j]? = some d) :
      Stepped s (.removeMarker j)
        { s with
          destroying := s.destroying.eraseIdx j
          marker := if s.storage d then none else s.marker }

theorem step_cases {s s' : State} {l : Label} (h : step s l = some s') : Stepped s l s' := by
  cases l with
  | enter =>
    simp only [step] at h
    split at h
    · rename_i c hidle hpub
      obtain rfl := Option.some.inj h
      exact .enter hidle hpub
    · cases h
  | beginInit storageAvailable uncleanDetectionEnabled =>
    simp only [step] at h
    split at h
    · rename_i hidle hunpub
      obtain rfl := Option.some.inj h
      exact .beginInit _ _ hidle hunpub
    · cases h
  | startTracking i =>
    obtain ⟨k, hk, h⟩ := Option.bind_eq_some_iff.1 h
    simp only [stepCall] at h
    split at h
    · rename_i hinside _
      split at h
      · obtain rfl := Option.some.inj h
        exact .untracked hk hinside
      · obtain rfl := Option.some.inj h
        exact .startTracking hk hinside
    · cases h
  | writeMarker i =>
    obtain ⟨k, hk, h⟩ := Option.bind_eq_some_iff.1 h
    obtain ⟨hwriting, h⟩ := Option.ite_none_right_eq_some.1 h
    obtain rfl := Option.some.inj h
    exact .writeMarker hk hwriting
  | publish i =>
    obtain ⟨k, hk, h⟩ := Option.bind_eq_some_iff.1 h
    obtain ⟨⟨hinit, hinside⟩, h⟩ := Option.ite_none_right_eq_some.1 h
    obtain rfl := Option.some.inj h
    exact .publish hk hinside hinit
  | abandonInit i =>
    obtain ⟨k, hk, h⟩ := Option.bind_eq_some_iff.1 h
    obtain ⟨⟨hinit, hinside⟩, h⟩ := Option.ite_none_right_eq_some.1 h
    obtain rfl := Option.some.inj h
    exact .abandonInit hk hinside hinit
  | leave i =>
    obtain ⟨k, hk, h⟩ := Option.bind_eq_some_iff.1 h
    obtain ⟨⟨hinit, hstage⟩, h⟩ := Option.ite_none_right_eq_some.1 h
    obtain rfl := Option.some.inj h
    exact .leave hk hstage hinit
  | shutdown =>
    simp only [step] at h
    split at h
    · rename_i c hidle hpub
      obtain rfl := Option.some.inj h
      exact .shutdown hidle hpub
    · cases h
  | removeMarker j =>
    obtain ⟨d, hd, rfl⟩ := Option.map_eq_some_iff.1 h
    exact .removeMarker hd

/-! ## References -/

/-- Whatever is referred to exists, and whatever is destroyed is referred to no more. -/
structure Referenced (s : State) : Prop where
  held : ∀ c, s.Held c → c < s.clients.length
  destroyed : ∀ d ∈ s.destroying, d < s.clients.length ∧ ¬ s.Held d

theorem held_call {s : State} {i : Nat} {k : Call} (h : s.calls[i]? = some k) : s.Held k.client :=
  .inr ⟨k, List.mem_of_getElem? h, rfl⟩

theorem Referenced.mono {s s' : State} (h : Referenced s)
    (hclients : s.clients.length ≤ s'.clients.length) (hheld : ∀ c, s'.Held c → s.Held c)
    (hdestroying : ∀ d ∈ s'.destroying, d ∈ s.destroying) : Referenced s' := by
  constructor
  · exact fun c hc => Nat.lt_of_lt_of_le (h.held c (hheld c hc)) hclients
  · intro d hd
    obtain ⟨hlt, hnot⟩ := h.destroyed d (hdestroying d hd)
    exact ⟨Nat.lt_of_lt_of_le hlt hclients, fun hc => hnot (hheld d hc)⟩

theorem held_erase {s : State} {i c : Nat}
    (h : ({ s with calls := s.calls.eraseIdx i } : State).Held c) : s.Held c := by
  rcases h with hpub | ⟨k, hk, hc⟩
  · exact .inl hpub
  · exact .inr ⟨k, List.mem_of_mem_eraseIdx hk, hc⟩

theorem Referenced.drop {s : State} {i c : Nat} (h : Referenced s) (hc : s.Held c) :
    Referenced (s.drop i c) := by
  have herased : Referenced { s with calls := s.calls.eraseIdx i } :=
    h.mono (Nat.le_refl _) (fun _ => held_erase) fun _ hd => hd
  unfold State.drop
  dsimp only
  split
  · exact herased
  · -- it was the last reference
    rename_i hlast
    refine ⟨herased.held, fun d hd => ?_⟩
    rcases List.mem_append.1 hd with hold | hnew
    · exact herased.destroyed d hold
    · obtain rfl := List.mem_singleton.1 hnew
      exact ⟨h.held d hc, hlast⟩

theorem held_move {s : State} {i c : Nat} {k : Call} {stage : Stage} (hk : s.calls[i]? = some k)
    (h : (s.move i { k with stage }).Held c) : s.Held c := by
  rcases h with hpub | ⟨j, hj, hc⟩
  · exact .inl hpub
  · rcases List.mem_or_eq_of_mem_set hj with hold | rfl
    · exact .inr ⟨j, hold, hc⟩
    · exact .inr ⟨k, List.mem_of_getElem? hk, hc⟩

theorem held_append {s : State} {c d : Nat} {stage : Stage} (hc : s.Held c)
    (h : ({ s with calls := s.calls ++ [⟨c, stage⟩] } : State).Held d) : s.Held d := by
  rcases h with hpub | ⟨k, hk, hd⟩
  · exact .inl hpub
  · rcases List.mem_append.1 hk with hold | hnew
    · exact .inr ⟨k, hold, hd⟩
    · obtain rfl := List.mem_singleton.1 hnew
      exact hd ▸ hc

theorem modify_length (s : State) (c : Nat) (f : Client → Client) :
    (s.modify c f).clients.length = s.clients.length := List.length_modify ..

theorem held_new {s : State} {c : Nat}
    (hc : State.Held { s with calls := s.calls ++ [⟨s.clients.length, .inside⟩] } c) :
    s.Held c ∨ c = s.clients.length := by
  rcases hc with hpub | ⟨k, hk, hc⟩
  · exact .inl (.inl hpub)
  · rcases List.mem_append.1 hk with hold | hnew
    · exact .inl (.inr ⟨k, hold, hc⟩)
    · obtain rfl := List.mem_singleton.1 hnew
      exact .inr hc.symm

/-- **(1) A client is destroyed when nothing refers to it any more**, whatever the order of the
calls. -/
theorem referenced_step {s s' : State} {l : Label} (hs : Referenced s)
    (h : step s l = some s') : Referenced s' := by
  cases step_cases h with
  | enter _ hpub => exact hs.mono (Nat.le_refl _) (fun d hd => held_append (.inl hpub) hd) fun _ hd => hd
  | beginInit storageAvailable uncleanDetectionEnabled =>
    have hlength : ∀ x : Client, (s.clients ++ [x]).length = s.clients.length + 1 :=
      fun x => List.length_append
    constructor
    · intro c hc
      show c < (s.clients ++ [_]).length
      rw [hlength]
      rcases held_new hc with hold | rfl
      · exact Nat.lt_succ_of_lt (hs.held c hold)
      · exact Nat.lt_succ_self _
    · intro d hd
      obtain ⟨hlt, hnot⟩ := hs.destroyed d hd
      refine ⟨?_, fun hc => ?_⟩
      · show d < (s.clients ++ [_]).length
        rw [hlength]
        exact Nat.lt_succ_of_lt hlt
      · rcases held_new hc with hold | rfl
        · exact hnot hold
        · exact Nat.lt_irrefl _ hlt
  | untracked => exact hs
  | startTracking hk =>
    refine hs.mono (Nat.le_of_eq (modify_length s _ _).symm) (fun c hc => ?_) fun _ hd => hd
    exact held_move (s := s) hk hc
  | writeMarker hk =>
    refine hs.mono (Nat.le_of_eq (modify_length s _ _).symm) (fun c hc => ?_) fun _ hd => hd
    exact held_move (s := s) hk hc
  | @publish i k hk =>
    refine hs.mono (Nat.le_refl _) (fun c hc => ?_) fun _ hd => hd
    rcases hc with hpub | hcall
    · exact Option.some.inj hpub ▸ held_call hk
    · exact held_erase (s := s) (i := i) (.inr hcall)
  | abandonInit hk =>
    have hkept : Referenced { s with initializing := none } :=
      hs.mono (Nat.le_refl _) (fun _ hc => hc) fun _ hd => hd
    exact hkept.drop (held_call hk)
  | leave hk => exact hs.drop (held_call hk)
  | shutdown _ hpub =>
    refine hs.mono (Nat.le_refl _) (fun d hd => ?_) fun _ hd => hd
    rcases hd with hnone | hcall
    · cases hnone
    · exact held_append (.inl hpub) (.inr hcall)
  | removeMarker => exact hs.mono (Nat.le_refl _) (fun _ hc => hc) fun _ hd => List.mem_of_mem_eraseIdx hd

/-! ## The marker -/

theorem tracks_modify {s : State} {c d : Nat} {f : Client → Client}
    (h : d ≠ c ∨ ∀ k, (f k).tracking = k.tracking) : (s.modify d f).tracks c = s.tracks c := by
  unfold State.tracks State.modify
  rw [List.getElem?_modify]
  cases s.clients[c]? with
  | none => rfl
  | some client =>
    show ((if d = c then f client else client) : Client).tracking = client.tracking
    rcases h with hne | hsame
    · rw [if_neg hne]
    · split
      · exact hsame client
      · rfl

/-- A step that moves neither the published client, its tracking nor the marker. -/
theorem markerLives_same {s s' : State} (hlaw : MarkerLives s)
    (hpublished : s'.published = s.published) (htracks : ∀ c, s'.tracks c = s.tracks c)
    (hmarker : s'.marker = s.marker) : MarkerLives s' := by
  intro c hc htr
  rw [hpublished] at hc
  rw [htracks] at htr
  rw [hmarker]
  exact hlaw c hc htr

theorem markerLives_unpublished {s' : State} (h : s'.published = none) : MarkerLives s' := by
  intro c hc
  rw [h] at hc
  cases hc

theorem drop_same (s : State) (i c : Nat) : (s.drop i c).published = s.published ∧
    (∀ d, (s.drop i c).tracks d = s.tracks d) ∧ (s.drop i c).marker = s.marker := by
  unfold State.drop
  dsimp only
  split
  · exact ⟨rfl, fun _ => rfl, rfl⟩
  · exact ⟨rfl, fun _ => rfl, rfl⟩

/-- The marker is written by the published client, or by another. -/
theorem writeMarker_markerLives {s : State} {i : Nat} {k : Call} (hk : s.calls[i]? = some k) :
    MarkerLives { (s.modify k.client fun c => { c with tracking := true }).move i
        { k with stage := .inside } with marker := some k.client } ↔ Undisturbed s (.writeMarker i) := by
  simp only [Undisturbed, State.toucher, hk, Option.map_some, Option.mem_some_iff, forall_eq']
  constructor
  · intro hlives c hc htracks
    by_cases hown : k.client = c
    · exact hown
    · have hmarker := hlives c hc ((tracks_modify (.inl hown)).trans htracks)
      exact Option.some.inj hmarker
  · intro hundisturbed c hc htracks
    by_cases hown : k.client = c
    · exact congrArg some hown
    · exact congrArg some (hundisturbed c hc ((tracks_modify (.inl hown)).symm.trans htracks))

/-- What a client wrote before its publication must have lasted until then. -/
theorem publish_markerLives {s : State} {i : Nat} {k : Call} (hinit : s.initializing = some k.client) :
    MarkerLives { s with published := some k.client, initializing := none, calls := s.calls.eraseIdx i } ↔
      Undisturbed s (.publish i) := by
  simp only [Undisturbed, hinit, Option.mem_some_iff, forall_eq']
  constructor
  · exact fun hlives htracks => hlives k.client rfl htracks
  · intro hkept c hc htracks
    obtain rfl := Option.some.inj hc
    exact hkept htracks

/-- A destructor takes the marker from whoever is published, since that is not its client. -/
theorem removeMarker_markerLives {s : State} {j d : Nat} (hs : Referenced s)
    (hlaw : MarkerLives s) (hd : s.destroying[j]? = some d) :
    MarkerLives { s with
        destroying := s.destroying.eraseIdx j
        marker := if s.storage d then none else s.marker } ↔ Undisturbed s (.removeMarker j) := by
  have hnot := (hs.destroyed d (List.mem_of_getElem? hd)).2
  simp only [Undisturbed, State.toucher, hd]
  cases hstorage : s.storage d with
  | false =>
    refine iff_of_true hlaw fun e he => ?_
    obtain ⟨hde, he⟩ := Option.filter_eq_some_iff.1 he
    rw [← Option.some.inj hde, hstorage] at he
    cases he
  | true =>
    simp only [Option.filter_some, hstorage, if_true, Option.mem_some_iff, forall_eq']
    constructor
    · intro hlives c hc htracks
      have hmarker := hlives c hc htracks
      cases hmarker
    · intro hundisturbed c hc htracks
      -- it would be the published client, which is not destroyed
      have hown := hundisturbed c hc htracks
      exact absurd (.inl (hown ▸ hc)) hnot

/-- **One step** keeps the live session's marker just when it does not disturb it. -/
theorem markerLives_step {s s' : State} {l : Label} (hs : Referenced s) (hlaw : MarkerLives s)
    (h : step s l = some s') : MarkerLives s' ↔ Undisturbed s l := by
  cases step_cases h with
  | writeMarker hk => exact writeMarker_markerLives hk
  | publish _ _ hinit => exact publish_markerLives hinit
  | removeMarker hd => exact removeMarker_markerLives hs hlaw hd
  -- no other step touches the marker of a client that is published
  | enter => exact iff_of_true hlaw fun d hd => by cases hd
  | beginInit _ _ _ hunpub => exact iff_of_true (markerLives_unpublished hunpub) fun d hd => by cases hd
  | untracked => exact iff_of_true hlaw fun d hd => by cases hd
  | startTracking =>
    refine iff_of_true (markerLives_same hlaw rfl (fun c => ?_) rfl) fun d hd => by cases hd
    exact tracks_modify (.inr fun _ => rfl)
  | @abandonInit i k =>
    obtain ⟨hpublished, htracks, hmarker⟩ := drop_same { s with initializing := none } i k.client
    exact iff_of_true (markerLives_same hlaw hpublished htracks hmarker) fun d hd => by cases hd
  | @leave i k =>
    obtain ⟨hpublished, htracks, hmarker⟩ := drop_same s i k.client
    exact iff_of_true (markerLives_same hlaw hpublished htracks hmarker) fun d hd => by cases hd
  | shutdown => exact iff_of_true (markerLives_unpublished rfl) fun d hd => by cases hd

theorem referenced_start : Referenced {} := by
  constructor
  · rintro c (hpub | ⟨k, hk, -⟩)
    · cases hpub
    · cases hk
  · intro d hd
    cases hd

/-- **(2) The live session's marker survives other clients' teardown** in every state of a run
exactly where no step of the run disturbs it. -/
theorem marker_lives_iff (ls : List Label) :
    Run.AllStates step MarkerLives {} ls ↔ Run.AllSteps step (fun s l _ => Undisturbed s l) {} ls :=
  Run.allStates_iff_allSteps (I := Referenced) (fun _ _ _ hs h => referenced_step hs h)
    (fun _ _ _ hs hlaw h => markerLives_step hs hlaw h) ls ({} : State) referenced_start
    fun _ hc => by cases hc

instance (s : State) : Decidable (MarkerLives s) :=
  inferInstanceAs (Decidable (∀ c ∈ s.published, s.tracks c = true → s.marker = some c))

/-- One client from its `init`, with consent, to its publication. -/
def launch : List Label := [.beginInit true true, .startTracking 0, .writeMarker 0, .publish 0]

/-- A call is in the library when another thread shuts it down and launches it again; when the
call returns, the first client's destructor removes the second one's marker. -/
theorem flush_outlives_shutdown : ¬ ∀ ls : List Label, Run.AllStates step MarkerLives {} ls := by
  intro hall
  have hfails : ¬ Run.AllStates step MarkerLives {}
      (launch ++ [.enter, .shutdown, .leave 1, .beginInit true true, .startTracking 1,
        .writeMarker 1, .publish 1, .leave 0, .removeMarker 0]) := by
    decide
  exact hfails (hall _)

end Tombstone.ClientLifetimes
