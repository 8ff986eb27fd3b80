import Tombstone.Sections

/- Commit-on-ack for the device specs (`device_sent_on_heartbeat_`,
   `device_carry_in_flight_`).

   Two flags stand for which beat carried which device; `set_device`, the heartbeat thread and
   the worker write them without a common lock. This file

   1. says when the sent flag is honest (`Device.Delivered`), and that `set_device` is inside
      its two steps (`Lowering`);
   2. shows that a beat with the newest version carries the cached device (`Carried`), and
      that what an ack confirms was delivered (`Confirmed`), on every run;
   3. proves that the flag stays honest while every ack that raises it answers a beat that
      carried the cached device (`device_commitOnAck`), and gives a run where one does not. -/
namespace Tombstone.Session

variable {s s' : State} {a : Act} {i : Input} {new : List Act} {c c' : Config} {l : Label}

/-- While the flag says sent, the cached device, if it has content, was delivered. -/
def Device.Delivered (d : Device) : Prop :=
  d.sentOnHeartbeat = true → deviceHasContent d.device = true → d.device ∈ d.delivered

instance (d : Device) : Decidable d.Delivered := inferInstanceAs (Decidable (_ → _ → _))

/-- Some call of `set_device` has stored the device and not lowered the flag yet. -/
def Lowering (c : Config) : Prop := ∃ p ∈ c.threads, Act.lowerSent ∈ p

instance (c : Config) : Decidable (Lowering c) :=
  inferInstanceAs (Decidable (∃ p ∈ c.threads, Act.lowerSent ∈ p))

/-- An ack that raises the flag over a device with content answers a beat that carried it, as
it was last stored. -/
def ConfirmsCached (c : Config) (l : Label) : Prop :=
  match Interleave.acting c l with
  | some (.storeSent b) =>
    c.shared.device.sentOnHeartbeat = false → deviceHasContent c.shared.device.device = true →
      b.carryingDevice = true ∧ b.deviceVersion = c.shared.device.version
  | _ => True

instance (c : Config) (l : Label) : Decidable (ConfirmsCached c l) := by
  unfold ConfirmsCached
  rcases Interleave.acting c l with _ | a
  · exact isTrue trivial
  · rcases a <;> infer_instance

/-- `set_device` stores no undelivered device with content while the flag says sent. -/
def StoresUnsent (c : Config) (l : Label) : Prop :=
  match Interleave.acting c l with
  | some (.storeDevice device) =>
    c.shared.device.sentOnHeartbeat = true → deviceHasContent (.ofSpecs device) = true →
      .ofSpecs device ∈ c.shared.device.delivered
  | _ => True

instance (c : Config) (l : Label) : Decidable (StoresUnsent c l) := by
  unfold StoresUnsent
  rcases Interleave.acting c l with _ | a
  · exact isTrue trivial
  · rcases a <;> infer_instance

/-! ## What beats carry, and what acks confirm -/

/-- A beat carries a device of some version, and the cached one if the version is the newest. -/
def Beat.Carries (d : Device) (b : Beat) : Prop :=
  b.carryingDevice = true →
    b.deviceVersion ≤ d.version ∧ (b.deviceVersion = d.version → b.payload.device = d.device)

/-- Every beat carries what it says. -/
def Carried (c : Config) : Prop := Beats (fun _ => True) (fun s b => b.Carries s.device) c

theorem carries_keep {b : Beat} (h : perform s a i = some (s', new)) (hb : b.Carries s.device) :
    b.Carries s'.device := by
  cases perform_device h with
  | none same => rw [same]; exact hb
  | store _ _ after =>
    intro hcarrying
    obtain ⟨hle, -⟩ := hb hcarrying
    rw [after]
    refine ⟨hle.trans (Nat.le_succ _), fun heq => ?_⟩
    have hnew : b.deviceVersion = s.device.version + 1 := heq
    omega
  | lowerSent _ after => rw [after]; exact hb
  | carry _ _ after => rw [after]; exact hb
  | deliver _ _ _ _ _ after => rw [after]; exact hb
  | confirm _ _ after => rw [after]; exact hb

theorem carried_step (hc : Carried c) (h : step c l = some c') : Carried c' := by
  obtain ⟨-, hqueue, -⟩ := hc.shared
  refine beats_step ?_ (fun _ _ => ⟨fun h => h, fun _ h => h⟩) hc h
  intro a i s' new _ ha hp
  refine ⟨trivial, fun x hx => carries_keep hp ?_, fun b hb => carries_keep hp hb⟩
  refine hx.holds (R := fun b => b.Carries c.shared.device) ha hqueue ?_ (fun _ _ hb => hb)
    (fun _ hb => hb) (fun _ hb => hb) (fun b hb => ?_) (fun _ _ hb => hb)
  · intro hcarrying
    cases hcarrying
  · unfold Beat.readDevice
    split
    · exact fun _ => ⟨Nat.le_refl _, fun _ => rfl⟩
    · exact hb

theorem carried_start (o : Launch) : Carried (start o) := beats_start o trivial

/-- The beat an ack is about was delivered. -/
def Act.Answers (d : Device) : Act → Prop
  | .ackDevice b | .storeSent b => b.carryingDevice = true → b.payload.device ∈ d.delivered
  | _ => True

/-- Every ack is of a delivered beat. -/
def Confirmed (c : Config) : Prop :=
  Interleave.ActInv (fun _ => True) (fun s a => a.Answers s.device) c

theorem delivered_subset (h : perform s a i = some (s', new)) :
    s.device.delivered ⊆ s'.device.delivered := by
  cases perform_device h with
  | none same => rw [same]; exact List.Subset.refl _
  | store _ _ after => rw [after]; exact List.Subset.refl _
  | lowerSent _ after => rw [after]; exact List.Subset.refl _
  | carry _ _ after => rw [after]; exact List.Subset.refl _
  | deliver _ _ _ _ _ after => rw [after]; exact List.subset_append_left _ _
  | confirm _ _ after => rw [after]; exact List.Subset.refl _

/-- Only `send` leaves an ack of a beat, and the ack leaves the store of the flag. -/
theorem answers_new {b : Act} (h : perform s a i = some (s', new)) (hb : b ∈ new)
    (ha : a.Answers s.device) : b.Answers s'.device := by
  cases hl : perform_leads h hb with
  | ackDevice head =>
    obtain ⟨x, rest, hq, hsend⟩ := send_cases h
    rw [head] at hq
    obtain ⟨rfl, rfl⟩ := List.cons.inj hq
    rcases hsend with ⟨-, rfl, -⟩ | ⟨-, -, rfl⟩
    · intro hcarrying
      simp [hcarrying]
    · cases List.mem_singleton.mp hb
  | storeSent _ => exact fun hcarrying => delivered_subset h (ha hcarrying)
  | _ => trivial

theorem answers_keep {b : Act} (h : perform s a i = some (s', new)) (hb : b.Answers s.device) :
    b.Answers s'.device := by
  cases b
  case ackDevice b => exact fun hcarrying => delivered_subset h (hb hcarrying)
  case storeSent b => exact fun hcarrying => delivered_subset h (hb hcarrying)
  all_goals trivial

theorem confirmed_step (hc : Confirmed c) (h : step c l = some c') : Confirmed c' := by
  refine Interleave.actInv_step ?_ ?_ ?_ hc h
  · intro s a i s' new _ ha hp
    exact ⟨trivial, fun b hb => answers_new hp hb ha, fun b hb => answers_keep hp hb⟩
  · intro s t k s' new _ hp
    obtain ⟨⟨_, _, rfl⟩, -, rfl⟩ := call_eq hp
    refine ⟨trivial, fun b hb => ?_, fun b hb => hb⟩
    have hnone := Call.acts_beat hb
    cases b <;> trivial
  · intro s ps e
    exact e.elim

theorem confirmed_start (o : Launch) : Confirmed (start o) := by
  refine ⟨trivial, fun t p hp a ha => ?_⟩
  have hnone := (start_holds_none (List.mem_of_getElem? hp) ha).1
  cases a <;> trivial

/-! ## The flag -/

/-- An action keeps the flag honest, unless it stores a device, or raises the flag over a
device that was not delivered. -/
theorem delivered_keep (h : perform s a i = some (s', new)) (hlaw : s.device.Delivered)
    (hstore : ∀ device, a ≠ .storeDevice device)
    (hsent : ∀ b, a = .storeSent b → s.device.sentOnHeartbeat = false →
      deviceHasContent s.device.device = true → s.device.device ∈ s.device.delivered) :
    s'.device.Delivered := by
  cases perform_device h with
  | none same => rw [same]; exact hlaw
  | store device act _ => exact absurd act (hstore device)
  | lowerSent _ after =>
    rw [after]
    intro hraised
    cases hraised
  | carry _ _ after => rw [after]; exact hlaw
  | deliver _ _ _ _ _ after =>
    rw [after]
    exact fun hraised hcontent => List.mem_append_left _ (hlaw hraised hcontent)
  | confirm b act after =>
    rw [after]
    intro _ hcontent
    cases hflag : s.device.sentOnHeartbeat
    · exact hsent b act hflag hcontent
    · exact hlaw hflag hcontent

/-- Where the acked beat carried the cached device, that device was delivered. -/
theorem cached_delivered (hcarried : Carried c) (hconfirmed : Confirmed c) {p : List Act}
    (hp : p ∈ c.threads) {b : Beat} (hb : .storeSent b ∈ p)
    (hcached : b.carryingDevice = true ∧ b.deviceVersion = c.shared.device.version) :
    c.shared.device.device ∈ c.shared.device.delivered := by
  obtain ⟨hcarrying, hversion⟩ := hcached
  have hcarries : b.Carries c.shared.device := hcarried.act hp hb b rfl
  have hdevice : b.payload.device = c.shared.device.device := (hcarries hcarrying).2 hversion
  rw [← hdevice]
  exact hconfirmed.act hp hb hcarrying

theorem lowering_or_delivered_step (hcarried : Carried c) (hconfirmed : Confirmed c)
    (hlaw : Lowering c ∨ c.shared.device.Delivered) (hcond : ConfirmsCached c l)
    (h : step c l = some c') : Lowering c' ∨ c'.shared.device.Delivered := by
  unfold ConfirmsCached at hcond
  rcases Interleave.step_cases h with ⟨t, i, a, rest, s', new, rfl, ht, hp, rfl⟩ |
    ⟨t, k, s', new, rfl, ht, hp, rfl⟩ | ⟨e, -, -⟩
  · rw [Interleave.acting_exec ht] at hcond
    by_cases hstore : ∃ device, a = .storeDevice device
    · -- the flag is lowered next
      obtain ⟨device, rfl⟩ := hstore
      obtain ⟨-, rfl⟩ := Prod.mk.inj (Option.some.inj hp)
      exact .inl (Interleave.held_new ht List.mem_cons_self)
    by_cases hlower : a = .lowerSent
    · subst hlower
      obtain ⟨rfl, -⟩ := Prod.mk.inj (Option.some.inj hp)
      refine .inr fun hraised => ?_
      cases hraised
    rcases hlaw with hlowering | hdelivered
    · exact .inl (Interleave.held_exec hlowering ht (Ne.symm hlower) new)
    · refine .inr (delivered_keep hp hdelivered (fun device hd => hstore ⟨device, hd⟩) ?_)
      rintro b rfl hflag hcontent
      exact cached_delivered hcarried hconfirmed (List.mem_of_getElem? ht) List.mem_cons_self
        (hcond hflag hcontent)
  · obtain ⟨⟨_, _, rfl⟩, -, -⟩ := call_eq hp
    refine hlaw.imp (fun hlowering => ?_) fun hdelivered => hdelivered
    exact Interleave.held_call hlowering ht new
  · exact e.elim

/-- One step keeps the flag honest where `set_device` stores over no raised flag. -/
theorem delivered_step (hcarried : Carried c) (hconfirmed : Confirmed c)
    (hlaw : c.shared.device.Delivered) (hcond : ConfirmsCached c l) (hstores : StoresUnsent c l)
    (h : step c l = some c') : c'.shared.device.Delivered := by
  unfold ConfirmsCached at hcond
  unfold StoresUnsent at hstores
  rcases Interleave.step_cases h with ⟨t, i, a, rest, s', new, rfl, ht, hp, rfl⟩ |
    ⟨t, k, s', new, rfl, ht, hp, rfl⟩ | ⟨e, -, -⟩
  · rw [Interleave.acting_exec ht] at hcond hstores
    by_cases hstore : ∃ device, a = .storeDevice device
    · obtain ⟨device, rfl⟩ := hstore
      obtain ⟨rfl, -⟩ := Prod.mk.inj (Option.some.inj hp)
      exact hstores
    · refine delivered_keep hp hlaw (fun device hd => hstore ⟨device, hd⟩) ?_
      rintro b rfl hflag hcontent
      exact cached_delivered hcarried hconfirmed (List.mem_of_getElem? ht) List.mem_cons_self
        (hcond hflag hcontent)
  · obtain ⟨⟨_, _, rfl⟩, -, -⟩ := call_eq hp
    exact hlaw
  · exact e.elim

/-! ## Runs -/

/-- **Commit-on-ack for the device, while acks confirm what is cached.** In a run whose every
ack that raises the flag over a device with content answers a beat that carried it as last
stored, the flag is honest in every state, but for those inside `set_device`; and in those
too where `set_device` stores over no raised flag. -/
theorem device_commitOnAck (o : Launch) (ls : List Label)
    (hcond : Run.AllSteps step (fun c l _ => ConfirmsCached c l) (start o) ls) :
    Run.AllStates step (fun c => Lowering c ∨ c.shared.device.Delivered) (start o) ls ∧
      (Run.AllSteps step (fun c l _ => StoresUnsent c l) (start o) ls →
        Run.AllStates step (fun c => c.shared.device.Delivered) (start o) ls) := by
  have hstart : (start o).shared.device.Delivered := by
    intro hraised
    cases hraised
  constructor
  · refine Run.allStates_of_steps
      (I := fun c => Carried c ∧ Confirmed c ∧ (Lowering c ∨ c.shared.device.Delivered))
      ?_ (fun _ hc => hc.2.2) ls (start o) ?_ hcond
    · intro c l c' ⟨hcarried, hconfirmed, hlaw⟩ h hc
      exact ⟨carried_step hcarried h, confirmed_step hconfirmed h,
        lowering_or_delivered_step hcarried hconfirmed hlaw hc h⟩
    · exact ⟨carried_start o, confirmed_start o, .inr hstart⟩
  · intro hstores
    refine Run.allStates_of_steps
      (I := fun c => Carried c ∧ Confirmed c ∧ c.shared.device.Delivered)
      ?_ (fun _ hc => hc.2.2) ls (start o) ?_ (hcond.and hstores)
    · intro c l c' ⟨hcarried, hconfirmed, hlaw⟩ h ⟨hc, hs⟩
      exact ⟨carried_step hcarried h, confirmed_step hconfirmed h,
        delivered_step hcarried hconfirmed hlaw hc hs h⟩
    · exact ⟨carried_start o, confirmed_start o, hstart⟩

/-- A laptop's specs are set, a beat carries them and is delivered. -/
def deviceDelivered : List Label :=
  List.replicate 4 (.exec 0 {}) ++
    .call 3 (.setDevice (some { model := some (lit "laptop") })) :: List.replicate 3 (.exec 3 {}) ++
    List.replicate 9 (.exec 1 {}) ++ List.replicate 5 (.exec 2 {})

theorem device_commitOnAck_delivered :
    Run.AllStates step (fun c => c.shared.device.Delivered) (start {}) deviceDelivered :=
  (device_commitOnAck {} deviceDelivered (by decide)).2 (by decide)

/-- A beat is queued before the host sets the device, and one that carries it after; the
worker delivers the first. -/
def emptyBeatAcked : List Label :=
  List.replicate 4 (.exec 0 {}) ++ List.replicate 8 (.exec 1 {}) ++
    .call 3 (.setDevice (some { model := some (lit "laptop") })) :: List.replicate 3 (.exec 3 {}) ++
    List.replicate 9 (.exec 1 {}) ++ List.replicate 3 (.exec 2 {})

/-- **The ack of a beat without the device marks the device sent.** -/
theorem emptyBeat_confirms_device :
    ¬ ∀ o ls, Run.AllStates step (fun c => Lowering c ∨ c.shared.device.Delivered) (start o) ls := by
  intro hall
  have hfails : ¬ Run.AllStates step (fun c => Lowering c ∨ c.shared.device.Delivered)
      (start {}) emptyBeatAcked := by decide
  exact hfails (hall {} emptyBeatAcked)

end Tombstone.Session
