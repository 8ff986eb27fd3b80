import Tombstone.Sections

/- Commit-on-ack for the per-user metadata (`heartbeat_loop`, `handle_heartbeat_ack`).

   The client remembers one object in flight, whichever beat carried it; an ack commits it,
   whichever beat it answers. This file

   1. says what the committed object should be, from the history of acks (`delivered`), and
      the law (`CommitOnAck`);
   2. shows that the slot is the last object built since the last ack (`Slot`), on every run;
   3. proves the law exact: it holds in every state of a run just when every ack answers the
      last object built (`metadata_commitOnAck`), and gives a run where it does not. -/
namespace Tombstone.Session

namespace Metadata

/-- The last of the built or acked beats that carried an object, with its epoch. -/
def lastObject (beats : List (Int × Bytes)) : Option (Int × Bytes) :=
  (beats.filter fun p => !p.2.isEmpty).getLast?

/-- The object of the last acked beat of this epoch that carried one. -/
def delivered (m : Metadata) : Bytes :=
  ((lastObject (m.acked.filter fun p => p.1 == m.epoch)).map Prod.snd).getD (lit "\x7b\x7d")

/-- The object of the last beat built since the last ack that carried one, if it is of this
epoch. -/
def lastBuilt (m : Metadata) : Option Bytes :=
  ((lastObject m.builtSinceAck).filter fun p => p.1 == m.epoch).map Prod.snd

/-- What is committed is what was delivered, and a map that differs from it is carried. -/
def CommitOnAck (m : Metadata) : Prop :=
  m.lastAckedJson = m.delivered ∧
    (buildUserMetadataJson m.userMetadata ≠ m.delivered →
      m.changed = buildUserMetadataJson m.userMetadata)

instance (m : Metadata) : Decidable m.CommitOnAck :=
  inferInstanceAs (Decidable (_ ∧ (_ → _)))

/-- The acked beat carries the last object built; where none was built in this epoch, it
carries none of this epoch, or the one that was delivered already. -/
def AnswersLast (m : Metadata) (beat : Int × Bytes) : Prop :=
  match m.lastBuilt with
  | some json => beat = (m.epoch, json)
  | none => beat.1 = m.epoch → beat.2 ≠ [] → beat.2 = m.delivered

instance (m : Metadata) (beat : Int × Bytes) : Decidable (m.AnswersLast beat) := by
  unfold AnswersLast
  cases m.lastBuilt <;> infer_instance

theorem lastObject_append (beats : List (Int × Bytes)) (beat : Int × Bytes) :
    lastObject (beats ++ [beat]) = if beat.2.isEmpty then lastObject beats else some beat := by
  unfold lastObject
  rw [List.filter_append]
  cases h : beat.2.isEmpty <;> simp [h]

theorem lastObject_mem {beats : List (Int × Bytes)} {beat : Int × Bytes}
    (h : lastObject beats = some beat) : beat ∈ beats ∧ beat.2 ≠ [] := by
  obtain ⟨hmem, hne⟩ := List.mem_filter.mp (List.mem_of_getLast? h)
  exact ⟨hmem, by simpa using hne⟩

/-- The carried half of the law follows from the committed half. -/
theorem commitOnAck_iff {m : Metadata} : m.CommitOnAck ↔ m.lastAckedJson = m.delivered := by
  constructor
  · exact fun h => h.1
  · intro h
    refine ⟨h, fun hne => ?_⟩
    rw [← h] at hne
    simp [changed, hne]

/-! ## The slot -/

/-- The slot is the last object built since the last ack, and every object built in this
epoch differs from the committed one; no beat is of a later epoch. -/
structure Slot (m : Metadata) : Prop where
  inFlight : (m.inFlightEpoch, m.inFlightJson) = (lastObject m.builtSinceAck).getD (-1, [])
  built : ∀ p ∈ m.builtSinceAck, p.1 ≤ m.epoch
  acked : ∀ p ∈ m.acked, p.1 ≤ m.epoch
  fresh : ∀ p ∈ m.builtSinceAck, p.1 = m.epoch → p.2 ≠ [] → p.2 ≠ m.lastAckedJson

theorem slot_initial : Slot {} where
  inFlight := rfl
  built := by simp
  acked := by simp
  fresh := by simp

theorem Slot.changeUser {m : Metadata} (h : m.Slot) (old next : Bytes) :
    (m.changeUser old next).Slot where
  inFlight := h.inFlight
  built p hp := (h.built p hp).trans (Int.le_of_lt (Int.lt_succ m.epoch))
  acked p hp := (h.acked p hp).trans (Int.le_of_lt (Int.lt_succ m.epoch))
  fresh p hp hepoch := by
    have hle : p.1 ≤ m.epoch := h.built p hp
    have hnew : p.1 = m.epoch + 1 := hepoch
    omega

theorem Slot.set {m : Metadata} (h : m.Slot) (entries : Option (List (CString × CString)))
    (user : Bytes) : (m.set entries user).Slot :=
  ⟨h.inFlight, h.built, h.acked, h.fresh⟩

theorem changed_isEmpty (m : Metadata) :
    m.changed.isEmpty = (buildUserMetadataJson m.userMetadata == m.lastAckedJson) := by
  have hne := buildUserMetadataJson_ne_nil m.userMetadata
  unfold changed
  by_cases h : buildUserMetadataJson m.userMetadata = m.lastAckedJson
  · simp [h]
  · rw [if_pos (by simpa using h), List.isEmpty_eq_false_iff.mpr hne, beq_eq_false_iff_ne.mpr h]

theorem Slot.carry {m : Metadata} (h : m.Slot) : m.carry.Slot where
  inFlight := by
    show (_, _) = (lastObject (m.builtSinceAck ++ [(m.epoch, m.changed)])).getD (-1, [])
    rw [lastObject_append, changed_isEmpty]
    by_cases hsame : buildUserMetadataJson m.userMetadata = m.lastAckedJson
    · simpa [Metadata.carry, hsame] using h.inFlight
    · simp [Metadata.carry, changed, hsame]
  built := by
    refine List.forall_mem_append.mpr ⟨h.built, ?_⟩
    intro p hp
    rw [List.mem_singleton.mp hp]
    exact Int.le_refl m.epoch
  acked := h.acked
  fresh := by
    refine List.forall_mem_append.mpr ⟨h.fresh, ?_⟩
    intro p hp _ hcarries
    rw [List.mem_singleton.mp hp] at hcarries ⊢
    show m.changed ≠ m.lastAckedJson
    unfold changed at hcarries ⊢
    split
    · rename_i hdiffers
      simpa using hdiffers
    · rename_i hsame
      rw [if_neg hsame] at hcarries
      exact absurd rfl hcarries

theorem Slot.commit {m : Metadata} (h : m.Slot) {beat : Int × Bytes} (hle : beat.1 ≤ m.epoch) :
    (m.commit beat).Slot where
  inFlight := rfl
  built := by simp [Metadata.commit]
  acked := by
    refine List.forall_mem_append.mpr ⟨h.acked, ?_⟩
    intro p hp
    rw [List.mem_singleton.mp hp]
    exact hle
  fresh := by simp [Metadata.commit]

/-- What an ack commits: the last object built since the last ack, if it is of this epoch. -/
theorem Slot.committed {m : Metadata} (h : m.Slot) (beat : Int × Bytes) :
    (m.commit beat).lastAckedJson = m.lastBuilt.getD m.lastAckedJson := by
  have hslot := h.inFlight
  unfold lastBuilt
  cases hlast : lastObject m.builtSinceAck with
  | none =>
    rw [hlast] at hslot
    obtain ⟨-, hjson⟩ := Prod.mk.inj hslot
    simp [Metadata.commit, hjson]
  | some p =>
    rw [hlast] at hslot
    obtain ⟨hepoch, hjson⟩ := Prod.mk.inj hslot
    have hne : p.2 ≠ [] := (lastObject_mem hlast).2
    by_cases hp : p.1 = m.epoch <;> simp [Metadata.commit, Option.filter, hepoch, hjson, hp, hne]

/-! ## The law, section by section -/

theorem delivered_commit (m : Metadata) (beat : Int × Bytes) :
    (m.commit beat).delivered =
      if beat.1 = m.epoch ∧ beat.2 ≠ [] then beat.2 else m.delivered := by
  show ((lastObject ((m.acked ++ [beat]).filter fun p => p.1 == m.epoch)).map Prod.snd).getD _ = _
  rw [List.filter_append]
  by_cases hepoch : beat.1 = m.epoch
  · by_cases hcarries : beat.2 = []
    · simp [hepoch, hcarries, lastObject_append, delivered]
    · simp [hepoch, hcarries, lastObject_append]
  · simp [hepoch, delivered]

/-- A change of user starts an epoch in which nothing was delivered. -/
theorem Slot.delivered_changeUser {m : Metadata} (h : m.Slot) (old next : Bytes) :
    (m.changeUser old next).delivered = lit "\x7b\x7d" := by
  have hnone : (m.acked.filter fun p => p.1 == m.epoch + 1) = [] := by
    refine List.filter_eq_nil_iff.mpr fun p hp => ?_
    have hle : p.1 ≤ m.epoch := h.acked p hp
    simp only [beq_iff_eq]
    omega
  show ((lastObject (m.acked.filter fun p => p.1 == m.epoch + 1)).map Prod.snd).getD _ = _
  rw [hnone]
  rfl

/-- **An ack keeps the law just when it answers the last object built.** -/
theorem Slot.commitOnAck_commit {m : Metadata} (h : m.Slot) (hlaw : m.CommitOnAck)
    (beat : Int × Bytes) : (m.commit beat).CommitOnAck ↔ m.AnswersLast beat := by
  have hdelivered : m.lastAckedJson = m.delivered := commitOnAck_iff.mp hlaw
  rw [commitOnAck_iff, h.committed, delivered_commit]
  unfold AnswersLast
  cases hlast : m.lastBuilt with
  | none =>
    rw [Option.getD_none, hdelivered]
    split
    · rename_i hcarries
      exact ⟨fun heq _ _ => heq.symm, fun hans => (hans hcarries.1 hcarries.2).symm⟩
    · rename_i hcarries
      exact ⟨fun _ hepoch hne => absurd ⟨hepoch, hne⟩ hcarries, fun _ => rfl⟩
  | some json =>
    obtain ⟨p, hp, rfl⟩ := Option.map_eq_some_iff.mp hlast
    obtain ⟨hobject, hepoch⟩ := Option.filter_eq_some_iff.mp hp
    obtain ⟨hmem, hne⟩ := lastObject_mem hobject
    -- the last object built is not the committed one
    have hfresh : p.2 ≠ m.delivered :=
      hdelivered ▸ h.fresh p hmem (by simpa using hepoch) hne
    rw [Option.getD_some]
    split
    · rename_i hcarries
      obtain ⟨hbeat, -⟩ := hcarries
      exact ⟨fun heq => Prod.ext hbeat heq.symm, fun heq => (congrArg Prod.snd heq).symm⟩
    · rename_i hcarries
      constructor
      · exact fun heq => absurd heq hfresh
      · intro heq
        rw [heq] at hcarries
        exact absurd ⟨rfl, hne⟩ hcarries

end Metadata

/-! ## Runs -/

/-- The slot's invariant, and the epochs of the beats. -/
def SlotBeats (c : Config) : Prop :=
  Beats (fun s => s.metadata.Slot ∧ 0 ≤ s.metadata.epoch) (fun s b => b.epoch ≤ s.metadata.epoch) c

variable {c c' : Config} {l : Label}

theorem epoch_le {s s' : State} {a : Act} {i : Input} {new : List Act}
    (h : perform s a i = some (s', new)) : s.metadata.epoch ≤ s'.metadata.epoch := by
  cases perform_metadata h with
  | none same => rw [same]
  | changeUser _ _ _ _ after =>
    rw [after]
    exact Int.le_of_lt (Int.lt_succ _)
  | set _ _ after => rw [after]; exact Int.le_refl _
  | carry _ _ after => rw [after]; exact Int.le_refl _
  | commit _ _ after => rw [after]; exact Int.le_refl _

theorem slotBeats_step (hc : SlotBeats c) (h : step c l = some c') : SlotBeats c' := by
  obtain ⟨⟨hslot, hpos⟩, hqueue, -⟩ := hc.shared
  refine beats_step ?_ (fun _ _ => ⟨fun h => h, fun _ h => h⟩) hc h
  intro a i s' new _ ha hp
  have hle : c.shared.metadata.epoch ≤ s'.metadata.epoch := epoch_le hp
  refine ⟨⟨?_, hpos.trans hle⟩, ?_, fun b hb => Int.le_trans hb hle⟩
  · cases perform_metadata hp with
    | none same => rw [same]; exact hslot
    | changeUser _ _ _ _ after => rw [after]; exact hslot.changeUser _ _
    | set _ _ after => rw [after]; exact hslot.set _ _
    | carry _ _ after => rw [after]; exact hslot.carry
    | commit b act after =>
      rw [after]
      exact hslot.commit (ha b (by rw [act]; rfl))
  · intro x hx
    refine Int.le_trans ?_ hle
    refine hx.holds (R := fun b => b.epoch ≤ c.shared.metadata.epoch) ha hqueue hpos
      (fun _ _ hb => hb) (fun _ hb => hb) (fun _ hb => hb) (fun b hb => ?_)
      (fun _ _ _ => Int.le_refl _)
    unfold Beat.readDevice
    split <;> exact hb

theorem slotBeats_start (o : Launch) : SlotBeats (start o) :=
  beats_start o ⟨Metadata.slot_initial, Int.le_refl 0⟩

/-- Every ack that the step handles answers the last object built. -/
def AcksInOrder (c : Config) (l : Label) : Prop :=
  match Interleave.acting c l with
  | some (.ackMetadata b) => c.shared.metadata.AnswersLast (b.epoch, b.payload.metadataJson)
  | _ => True

instance (c : Config) (l : Label) : Decidable (AcksInOrder c l) := by
  unfold AcksInOrder
  rcases Interleave.acting c l with _ | a
  · exact isTrue trivial
  · rcases a <;> infer_instance

/-- Only an ack can break the law. -/
theorem commitOnAck_keep {s s' : State} {a : Act} {i : Input} {new : List Act}
    (hslot : s.metadata.Slot) (hlaw : s.metadata.CommitOnAck)
    (h : perform s a i = some (s', new)) (hack : ∀ b, a ≠ .ackMetadata b) :
    s'.metadata.CommitOnAck := by
  have hdelivered := Metadata.commitOnAck_iff.mp hlaw
  rw [Metadata.commitOnAck_iff]
  cases perform_metadata h with
  | none same => rw [same]; exact hdelivered
  | changeUser _ _ _ _ after =>
    rw [after, hslot.delivered_changeUser]
    rfl
  | set _ _ after => rw [after]; exact hdelivered
  | carry _ _ after => rw [after]; exact hdelivered
  | commit b act _ => exact absurd act (hack b)

theorem commitOnAck_step (hc : SlotBeats c) (hlaw : c.shared.metadata.CommitOnAck)
    (h : step c l = some c') : c'.shared.metadata.CommitOnAck ↔ AcksInOrder c l := by
  obtain ⟨hslot, -⟩ := hc.shared.1
  unfold AcksInOrder
  rcases Interleave.step_cases h with ⟨t, i, a, rest, s', new, rfl, ht, hp, rfl⟩ |
    ⟨t, k, s', new, rfl, ht, hp, rfl⟩ | ⟨e, -, -⟩
  · rw [Interleave.acting_exec ht]
    by_cases hack : ∃ b, a = .ackMetadata b
    · obtain ⟨b, rfl⟩ := hack
      obtain ⟨rfl, -⟩ := Prod.mk.inj (Option.some.inj hp)
      exact hslot.commitOnAck_commit hlaw _
    · have hkeep := commitOnAck_keep hslot hlaw hp fun b hb => hack ⟨b, hb⟩
      refine iff_of_true hkeep ?_
      split
      · rename_i b hb
        exact absurd ⟨b, Option.some.inj hb⟩ hack
      · trivial
  · obtain ⟨⟨_, _, rfl⟩, -, -⟩ := call_eq hp
    exact iff_of_true hlaw trivial
  · exact e.elim

/-- **Commit-on-ack for the metadata, exactly.** In every state of a run what is committed is
what was delivered, and a map that differs from it is carried, just when every ack of the
run answers the last object built. -/
theorem metadata_commitOnAck (o : Launch) (ls : List Label) :
    Run.AllStates step (fun c => c.shared.metadata.CommitOnAck) (start o) ls ↔
      Run.AllSteps step (fun c l _ => AcksInOrder c l) (start o) ls := by
  refine Run.allStates_iff_allSteps (I := SlotBeats) ?_ ?_ ls (start o) (slotBeats_start o) ?_
  · exact fun _ _ _ hc h => slotBeats_step hc h
  · exact fun _ _ _ hc hlaw h => commitOnAck_step hc hlaw h
  · exact Metadata.commitOnAck_iff.mpr rfl

/-- The host sets a map, and the heartbeat thread queues a beat with it; the map is replaced
and a second beat queued; then the worker delivers the first beat. -/
def twoMapsOneAck : List Label :=
  let setMap (value : UInt8) : List Label :=
    [.call 3 (.setUserMetadata (some [(some [107], some [value])])), .exec 3 {}]
  let beat : List Label := List.replicate 8 (.exec 1 {})
  List.replicate 4 (.exec 0 {}) ++ setMap 49 ++ beat ++ setMap 50 ++ beat ++
    List.replicate 4 (.exec 2 {})

/-- **The ack of the first beat commits the object of the second.** -/
theorem ack_commits_undelivered :
    ¬ ∀ o ls, Run.AllStates step (fun c => c.shared.metadata.CommitOnAck) (start o) ls := by
  intro hall
  have hfails : ¬ Run.AllStates step (fun c => c.shared.metadata.CommitOnAck)
      (start {}) twoMapsOneAck := by decide
  exact hfails (hall {} twoMapsOneAck)

end Tombstone.Session
