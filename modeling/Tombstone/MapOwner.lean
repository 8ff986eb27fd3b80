import Tombstone.Sections

/- Whose metadata a heartbeat carries.

   `set_user` drops the map when a user leaves, under both locks; the heartbeat thread reads
   the user and the map in two critical sections, one after the other. This file

   1. shows that the map belongs to the user who is set, or was set just before that user
      logged in, on every run (`Owned`);
   2. carries that through the gap between the two snapshots, while no other user's map is set
      there (`Fitting`);
   3. proves that then no beat of the run carries another user's map
      (`metadata_never_bleeds`), and gives a run where one does. -/
namespace Tombstone.Session

variable {s s' : State} {a b : Act} {i : Input} {new : List Act} {c c' : Config} {l : Label}

/-- A map that was set under `mapUser` goes with a body under `userId`: that user was the
effective one when it was set, or no one was and `userId` logged in with it. -/
def Fits (provisionalUserId mapUser : Bytes) (mapLogin : Option Bytes) (userId : Bytes) : Prop :=
  (if mapUser.isEmpty then provisionalUserId else mapUser) = userId ∨
    mapUser = [] ∧ mapLogin = some userId

instance (provisionalUserId mapUser : Bytes) (mapLogin : Option Bytes) (userId : Bytes) :
    Decidable (Fits provisionalUserId mapUser mapLogin userId) :=
  inferInstanceAs (Decidable (_ ∨ _))

/-- If the body carries an object with entries, the map goes with its user. -/
def Beat.CarriesOwn (u : Identity) (b : Beat) : Prop :=
  b.payload.metadataJson ≠ [] → b.payload.metadataJson ≠ lit "\x7b\x7d" →
    Fits u.provisionalUserId b.mapUser b.mapLogin b.payload.userId

instance (u : Identity) (b : Beat) : Decidable (b.CarriesOwn u) :=
  inferInstanceAs (Decidable (_ → _ → _))

/-- No beat that was enqueued carries another user's map. -/
def NoBleed (s : State) : Prop := ∀ b ∈ s.beats, b.CarriesOwn s.identity

instance (s : State) : Decidable (NoBleed s) :=
  inferInstanceAs (Decidable (∀ b ∈ s.beats, b.CarriesOwn s.identity))

/-- The beat an action holds between the snapshot of the user and that of the map. -/
def Act.between : Act → Option Beat
  | .beatContext b | .beatServerInfo b | .beatSent b | .beatDevice b | .beatMetadata b => some b
  | _ => none

theorem between_beat {x : Beat} (h : a.between = some x) : a.beat = some x := by
  cases a <;> cases h <;> rfl

/-- A map with entries is set only under the user of the beat that is between its two
snapshots, if there is one. -/
def SetsSameUser (c : Config) (l : Label) : Prop :=
  match Interleave.acting c l with
  | some (.setUserMetadata entries) => clampUserMetadata entries ≠ [] →
      ∀ p ∈ c.threads, ∀ a ∈ p, ∀ b ∈ a.between, b.payload.userId = c.shared.identity.effective
  | _ => True

instance (c : Config) (l : Label) : Decidable (SetsSameUser c l) := by
  unfold SetsSameUser
  rcases Interleave.acting c l with _ | a
  · exact isTrue trivial
  · rcases a <;> infer_instance

/-! ## The map and the user who is set -/

/-- The map was set under the user who is set, or under no one and that user logged in with
it. -/
def Owned (s : State) : Prop :=
  s.metadata.userMetadata ≠ [] →
    s.metadata.mapUser = s.identity.userId ∧ s.metadata.mapLogin = none ∨
      s.metadata.mapUser = [] ∧ s.metadata.mapLogin = some s.identity.userId ∧
        s.identity.userId ≠ []

theorem Owned.fits (h : Owned s) (hmap : s.metadata.userMetadata ≠ []) :
    Fits s.identity.provisionalUserId s.metadata.mapUser s.metadata.mapLogin s.identity.effective := by
  rcases h hmap with ⟨huser, -⟩ | ⟨huser, hlogin, hne⟩
  · exact .inl (by rw [huser]; rfl)
  · refine .inr ⟨huser, ?_⟩
    rw [hlogin, Identity.effective, if_neg (by simpa using hne)]

/-- A change of user keeps the map only when no one was set. -/
theorem changeUser_userMetadata {m : Metadata} {old next : Bytes}
    (hmap : (m.changeUser old next).userMetadata ≠ []) : old = [] ∧ m.userMetadata ≠ [] := by
  simp only [Metadata.changeUser] at hmap
  split at hmap
  · rename_i hold
    exact ⟨List.isEmpty_iff.mp hold, hmap⟩
  · exact absurd rfl hmap

theorem Owned.unset (h : Owned s) (huser : s.identity.userId = [])
    (hmap : s.metadata.userMetadata ≠ []) :
    s.metadata.mapUser = [] ∧ s.metadata.mapLogin = none := by
  rcases h hmap with ⟨hset, hlogin⟩ | ⟨-, -, hne⟩
  · exact ⟨hset.trans huser, hlogin⟩
  · exact absurd huser hne

theorem owned_step (hs : Owned s) (h : perform s a i = some (s', new)) : Owned s' := by
  by_cases hset : ∃ userId steamId, a = .setUser userId steamId
  · obtain ⟨userId, steamId, rfl⟩ := hset
    obtain ⟨rfl, -⟩ := Prod.mk.inj (Option.some.inj h)
    by_cases hnext : clamped userId limits.userId = s.identity.userId
    · intro hmap
      simp only [hnext, bne_self_eq_false, Bool.false_eq_true, if_false,
        Identity.setUser_userId] at hmap ⊢
      exact hs hmap
    · intro hmap
      simp only [bne_iff_ne, ne_eq, hnext, not_false_eq_true, if_true,
        Identity.setUser_userId] at hmap ⊢
      obtain ⟨hold, hkept⟩ := changeUser_userMetadata hmap
      obtain ⟨huser, -⟩ := hs.unset hold hkept
      refine .inr ⟨huser, ?_, hold ▸ hnext⟩
      rw [hold]
      rfl
  · have hsame := userId_same h fun userId steamId heq => hset ⟨userId, steamId, heq⟩
    unfold Owned
    rw [hsame]
    cases perform_metadata h with
    | none same => rw [same]; exact hs
    | changeUser userId steamId act _ _ => exact absurd ⟨userId, steamId, act⟩ hset
    | set _ _ after =>
      rw [after]
      exact fun _ => .inl ⟨rfl, rfl⟩
    | carry _ _ after => rw [after]; exact hs
    | commit _ _ after => rw [after]; exact hs

/-! ## The gap between the two snapshots -/

/-- The map goes with the beat that is between its snapshots. -/
def Act.FitsMap (s : State) (a : Act) : Prop :=
  s.metadata.userMetadata ≠ [] → ∀ b ∈ a.between,
    Fits s.identity.provisionalUserId s.metadata.mapUser s.metadata.mapLogin b.payload.userId

/-- The user's map, and every beat between its snapshots. -/
def Fitting (c : Config) : Prop := Interleave.ActInv Owned Act.FitsMap c

/-- An action keeps the map that goes with a beat between its snapshots, unless it sets
another user's. -/
theorem fitsMap_keep (hs : Owned s) (h : perform s a i = some (s', new))
    (hset : ∀ entries, a = .setUserMetadata entries → clampUserMetadata entries ≠ [] →
      ∀ x ∈ b.between, x.payload.userId = s.identity.effective)
    (hb : b.FitsMap s) : b.FitsMap s' := by
  intro hmap x hx
  rw [provisional_same h]
  cases perform_metadata h with
  | none same =>
    rw [same] at hmap ⊢
    exact hb hmap x hx
  | changeUser _ _ _ _ after =>
    rw [after] at hmap ⊢
    obtain ⟨hold, hkept⟩ := changeUser_userMetadata hmap
    obtain ⟨huser, hlogin⟩ := hs.unset hold hkept
    refine .inl ?_
    -- no one had logged in with the map yet, so it goes with the provisional id
    rcases hb hkept x hx with hfits | ⟨-, hfits⟩
    · exact hfits
    · rw [hlogin] at hfits
      cases hfits
  | set entries act after =>
    rw [after] at hmap ⊢
    refine .inl ?_
    rw [hset entries act hmap x hx]
    rfl
  | carry _ _ after =>
    rw [after] at hmap ⊢
    exact hb hmap x hx
  | commit _ _ after =>
    rw [after] at hmap ⊢
    exact hb hmap x hx

/-- A beat comes between its snapshots by the first one, and keeps its user there. -/
theorem Leads.between (h : Leads s i a b) {x : Beat} (hx : b.between = some x) :
    (∃ y, a = .beatUser y ∧ x = y.readUser s.identity) ∨
      ∃ y, a.between = some y ∧ x.payload.userId = y.payload.userId := by
  cases h <;> cases hx
  case beatContext => exact .inl ⟨_, rfl, rfl⟩
  case beatMetadata =>
    refine .inr ⟨_, rfl, ?_⟩
    unfold Beat.readDevice
    split <;> rfl
  all_goals exact .inr ⟨_, rfl, rfl⟩

theorem fitting_step (hc : Fitting c) (hcond : SetsSameUser c l) (h : step c l = some c') :
    Fitting c' := by
  have howned : Owned c.shared := hc.shared
  unfold SetsSameUser at hcond
  rcases Interleave.step_cases h with ⟨t, i, a, rest, s', new, rfl, ht, hp, rfl⟩ |
    ⟨t, k, s', new, rfl, ht, hp, rfl⟩ | ⟨e, -, -⟩
  · rw [Interleave.acting_exec ht] at hcond
    refine hc.exec ht (owned_step howned hp) ?_ ?_
    · intro b hb
      have hleads := perform_leads (i := i) hp hb
      refine fitsMap_keep howned hp ?_ ?_
      · rintro entries rfl
        cases hleads
      · intro hmap x hx
        rcases hleads.between hx with ⟨y, -, rfl⟩ | ⟨y, hy, huser⟩
        · exact howned.fits hmap
        · rw [huser]
          exact hc.act (List.mem_of_getElem? ht) List.mem_cons_self hmap y hy
    · intro p hpm b hb hfits
      refine fitsMap_keep howned hp ?_ hfits
      rintro entries rfl hne x hx
      exact hcond hne p hpm b hb x hx
  · obtain ⟨⟨_, _, rfl⟩, -, rfl⟩ := call_eq hp
    refine hc.call howned (fun b hb _ x hx => ?_) fun _ _ _ _ hb => hb
    have hnone := Call.acts_beat hb
    rw [between_beat hx] at hnone
    cases hnone
  · exact e.elim

theorem fitting_start (o : Launch) : Fitting (start o) :=
  ⟨fun hmap => absurd rfl hmap, fun _ _ _ _ _ hmap => absurd rfl hmap⟩

/-! ## The beats -/

/-- Every beat carries its own user's map. -/
def OwnMaps (c : Config) : Prop := Beats (fun _ => True) (fun s b => b.CarriesOwn s.identity) c

/-- The object a beat carries says that the map has entries. -/
theorem userMetadata_of_changed {m : Metadata} (hcarries : m.changed ≠ [])
    (hentries : m.changed ≠ lit "\x7b\x7d") : m.userMetadata ≠ [] := by
  intro hnil
  unfold Metadata.changed at hcarries hentries
  split at hcarries
  · rename_i hdiffers
    rw [if_pos hdiffers, hnil, buildUserMetadataJson_nil] at hentries
    exact hentries rfl
  · exact hcarries rfl

theorem ownMaps_step (hfitting : Fitting c) (hblank : Blank c) (hc : OwnMaps c)
    (h : step c l = some c') : OwnMaps c' := by
  obtain ⟨-, hqueue, -⟩ := hc.shared
  refine beats_step ?_ (fun _ _ => ⟨fun h => h, fun _ h => h⟩) hc h
  intro a i s' new hact ha hp
  have hsame := provisional_same hp
  have hkeep : ∀ b : Beat, b.CarriesOwn c.shared.identity → b.CarriesOwn s'.identity := by
    intro b hb
    unfold Beat.CarriesOwn
    rw [hsame]
    exact hb
  obtain ⟨p, hpm, hheld⟩ := Interleave.acting_held hact
  refine ⟨trivial, fun x hx => hkeep x ?_, hkeep⟩
  refine hx.holds (R := fun b => b.CarriesOwn c.shared.identity) ha hqueue ?_ ?_ (fun _ hb => hb)
    (fun _ hb => hb) (fun b hb => ?_) ?_
  · exact fun hcarries => absurd rfl hcarries
  · -- nothing of the map has been read at the snapshot of the user
    rintro b rfl - hcarries
    obtain ⟨s, i, rfl⟩ := hblank.act hpm hheld
    exact absurd rfl hcarries
  · unfold Beat.readDevice
    split <;> exact hb
  · rintro b rfl - hcarries hentries
    exact hfitting.act hpm hheld (userMetadata_of_changed hcarries hentries) b rfl

theorem ownMaps_start (o : Launch) : OwnMaps (start o) := beats_start o trivial

/-- **No metadata bleed, while no other user's map is set between the snapshots of a beat.**
In a run whose every `set_user_metadata` with entries sets the map of the user of the beat
that is between its snapshots, if there is one, no beat carries another user's map. -/
theorem metadata_never_bleeds (o : Launch) (ls : List Label)
    (hcond : Run.AllSteps step (fun c l _ => SetsSameUser c l) (start o) ls) :
    Run.AllStates step (fun c => NoBleed c.shared) (start o) ls := by
  refine Run.allStates_of_steps (I := fun c => Fitting c ∧ Blank c ∧ OwnMaps c) ?_ ?_ ls (start o)
    ⟨fitting_start o, blank_start o, ownMaps_start o⟩ hcond
  · intro c l c' ⟨hfitting, hblank, hown⟩ h hc
    exact ⟨fitting_step hfitting hc h, blank_step hblank h, ownMaps_step hfitting hblank hown h⟩
  · exact fun c hc => hc.2.2.shared.2.2

/-- Alice's map is set, a beat carries it; she leaves, and Bob's beat carries Bob's. -/
def twoUsers : List Label :=
  let call (k : Call) : List Label := [.call 3 k, .exec 3 {}]
  let login (userId : String) (value : UInt8) : List Label :=
    call (.setUser (some (lit userId)) none) ++
      call (.setUserMetadata (some [(some [107], some [value])]))
  List.replicate 4 (.exec 0 {}) ++ login "alice" 49 ++ List.replicate 8 (.exec 1 {}) ++
    login "bob" 50 ++ List.replicate 8 (.exec 1 {})

theorem metadata_never_bleeds_twoUsers :
    Run.AllStates step (fun c => NoBleed c.shared)
      (start { provisionalUserId := lit "dev_0123456789abcdef" }) twoUsers :=
  metadata_never_bleeds _ twoUsers (by decide)

/-- Alice is logged in; a beat reads her id; Bob logs in and his map is set; the beat goes on. -/
def tornBeat : List Label :=
  let call (k : Call) : List Label := [.call 3 k, .exec 3 {}]
  List.replicate 4 (.exec 0 {}) ++ call (.setUser (some (lit "alice")) none) ++
    List.replicate 2 (.exec 1 {}) ++ call (.setUser (some (lit "bob")) none) ++
    call (.setUserMetadata (some [(some [107], some [49])])) ++ List.replicate 6 (.exec 1 {})

/-- **A beat under Alice's id carries Bob's map.** -/
theorem tornBeat_bleeds :
    ¬ ∀ o ls, Run.AllStates step (fun c => NoBleed c.shared) (start o) ls := by
  intro hall
  have hfails : ¬ Run.AllStates step (fun c => NoBleed c.shared)
      (start { provisionalUserId := lit "dev_0123456789abcdef" }) tornBeat := by decide
  exact hfails (hall _ tornBeat)

end Tombstone.Session
