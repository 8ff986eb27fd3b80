import Tombstone.Sections

/- Commit-on-ack for the merge marker (`pending_prior_user_id_`, `prior_in_flight_`).

   The guard of `handle_heartbeat_ack` compares the marker in flight with the pending one,
   and every marker of a launch is the same provisional id. This file

   1. shows that the pending marker, the one in flight and those the beats carry are empty or
      the provisional id, on every run (`Marked`);
   2. proves exactly when a marker is cleared as it should be (`marker_commitOnAck`): at every
      ack that clears it, the beat was built since the newest stamping and carried it;
   3. gives the run where the late ack of an older beat clears a newer marker. -/
namespace Tombstone.Session

namespace Identity

/-- Empty, or the provisional id. -/
def IsMarker (u : Identity) (marker : Bytes) : Prop := marker = [] ∨ marker = u.provisionalUserId

/-- The markers, and the slot: it is empty just when no beat built since the last ack carries
a marker. -/
structure Marked (u : Identity) : Prop where
  pending : u.IsMarker u.pendingPriorUserId
  inFlight : u.IsMarker u.priorInFlight
  slot : u.priorInFlight ≠ [] ↔ ∃ marker ∈ u.carriedSinceAck, marker ≠ []

variable {u : Identity}

theorem setUser_slot (userId steamId : CString) :
    (u.setUser userId steamId).priorInFlight = u.priorInFlight ∧
      (u.setUser userId steamId).carriedSinceAck = u.carriedSinceAck := by
  simp only [setUser]
  split
  · exact ⟨rfl, rfl⟩
  · split <;> exact ⟨rfl, rfl⟩

/-- What a call of `set_user` makes of the marker: a logout clears it, a stamping sets it to
the provisional id, and any other login keeps it. -/
theorem setUser_pending (userId steamId : CString) :
    (u.setUser userId steamId).pendingPriorUserId =
      if (clamped userId limits.userId).isEmpty then []
      else if u.stampsOn (clamped userId limits.userId) then u.provisionalUserId
      else u.pendingPriorUserId := by
  simp only [setUser]
  split
  · rfl
  · split <;> rfl

theorem stampsOn_provisional {next : Bytes} (h : u.stampsOn next = true) :
    u.provisionalUserId ≠ [] := by
  simp only [stampsOn, Bool.and_eq_true] at h
  simpa using h.1.1

theorem marked_initial (provisionalUserId : Bytes) : Marked { provisionalUserId } where
  pending := .inl rfl
  inFlight := .inl rfl
  slot := by simp

theorem Marked.setUser (h : u.Marked) (userId steamId : CString) :
    (u.setUser userId steamId).Marked := by
  obtain ⟨hslot, hcarried⟩ := setUser_slot (u := u) userId steamId
  refine ⟨?_, ?_, ?_⟩
  · show _ = _ ∨ _ = _
    rw [setUser_pending, setUser_provisionalUserId]
    split
    · exact .inl rfl
    · split
      · exact .inr rfl
      · exact h.pending
  · show _ = _ ∨ _ = _
    rw [hslot, setUser_provisionalUserId]
    exact h.inFlight
  · rw [hslot, hcarried]
    exact h.slot

theorem Marked.carry (h : u.Marked) : u.carry.Marked := by
  refine ⟨h.pending, ?_, ?_⟩
  · show (if _ then _ else _) = _ ∨ (if _ then _ else _) = _
    split
    · exact h.inFlight
    · exact h.pending
  · show (if _ then _ else _) ≠ [] ↔ ∃ marker ∈ u.carriedSinceAck ++ [u.pendingPriorUserId], marker ≠ []
    split
    · rename_i hempty
      rw [List.isEmpty_iff.mp hempty, h.slot]
      simp
    · rename_i hmarked
      have hne : u.pendingPriorUserId ≠ [] := by simpa using hmarked
      exact iff_of_true hne ⟨_, List.mem_append_right _ List.mem_cons_self, hne⟩

theorem Marked.commit (h : u.Marked) : u.commit.Marked := by
  refine ⟨?_, .inl rfl, by simp [Identity.commit]⟩
  show (if _ then _ else _) = _ ∨ (if _ then _ else _) = _
  split
  · exact .inl rfl
  · exact h.pending

/-- **An ack clears a pending marker just when some beat built since the last ack carried
one**: the comparison with the slot never fails. -/
theorem Marked.commit_clears (h : u.Marked) (hpending : u.pendingPriorUserId ≠ []) :
    u.commit.pendingPriorUserId = [] ↔ ∃ marker ∈ u.carriedSinceAck, marker ≠ [] := by
  rw [← h.slot]
  show (if _ then _ else _) = _ ↔ _
  have hpend : u.pendingPriorUserId = u.provisionalUserId := h.pending.resolve_left hpending
  by_cases hslot : u.priorInFlight = []
  · simp [hslot, hpending]
  · have hflight : u.priorInFlight = u.provisionalUserId := h.inFlight.resolve_left hslot
    rw [hpend] at hpending
    simp [hpend, hflight, hpending]

end Identity

/-! ## Runs -/

variable {c c' : Config} {l : Label}

/-- The markers of the client and of its beats. -/
def MarkedBeats (c : Config) : Prop :=
  Beats (fun s => s.identity.Marked) (fun s b => s.identity.IsMarker b.payload.priorUserId) c

theorem markedBeats_step (hc : MarkedBeats c) (h : step c l = some c') : MarkedBeats c' := by
  obtain ⟨hmarked, hqueue, -⟩ := hc.shared
  refine beats_step ?_ (fun _ _ => ⟨fun h => h, fun _ h => h⟩) hc h
  intro a i s' new _ ha hp
  have hsame := provisional_same hp
  have hkeep : ∀ b : Beat, c.shared.identity.IsMarker b.payload.priorUserId →
      s'.identity.IsMarker b.payload.priorUserId := by
    intro b hb
    unfold Identity.IsMarker
    rw [hsame]
    exact hb
  refine ⟨?_, ?_, hkeep⟩
  · cases perform_identity hp with
    | none same => rw [same]; exact hmarked
    | setUser _ _ _ after => rw [after]; exact hmarked.setUser _ _
    | carry _ _ after => rw [after]; exact hmarked.carry
    | commit _ _ after => rw [after]; exact hmarked.commit
  · intro x hx
    apply hkeep
    refine hx.holds (R := fun b => c.shared.identity.IsMarker b.payload.priorUserId) ha hqueue
      (.inl rfl) (fun _ _ _ => hmarked.pending) (fun _ hb => hb) (fun _ hb => hb)
      (fun b hb => ?_) (fun _ _ hb => hb)
    unfold Beat.readDevice
    split <;> exact hb

theorem markedBeats_start (o : Launch) : MarkedBeats (start o) :=
  beats_start o (Identity.marked_initial _)

/-- A pending marker that this step clears is cleared by a logout, or by the ack of a beat
that was built since the newest stamping and carried it. -/
def ClearedByAck (c : Config) (l : Label) (c' : Config) : Prop :=
  c.shared.identity.pendingPriorUserId ≠ [] → c'.shared.identity.pendingPriorUserId = [] →
    match Interleave.acting c l with
    | some (.setUser userId _) => clamped userId limits.userId = []
    | some (.ackUser b) =>
      b.stamp = c.shared.identity.stampings.length ∧
        b.payload.priorUserId = c.shared.identity.pendingPriorUserId
    | _ => False

instance (c : Config) (l : Label) (c' : Config) : Decidable (ClearedByAck c l c') := by
  unfold ClearedByAck
  rcases Interleave.acting c l with _ | a
  · infer_instance
  · rcases a <;> infer_instance

/-- An ack that is handled while a marker is pending, and after some beat carried one, is of a
beat that was built since the newest stamping and carried a marker itself. -/
def AcksMarker (c : Config) (l : Label) : Prop :=
  match Interleave.acting c l with
  | some (.ackUser b) =>
    c.shared.identity.pendingPriorUserId ≠ [] →
      (∃ marker ∈ c.shared.identity.carriedSinceAck, marker ≠ []) →
        b.stamp = c.shared.identity.stampings.length ∧ b.payload.priorUserId ≠ []
  | _ => True

instance (c : Config) (l : Label) : Decidable (AcksMarker c l) := by
  unfold AcksMarker
  rcases Interleave.acting c l with _ | a
  · exact isTrue trivial
  · rcases a <;> infer_instance

/-- What clears a pending marker, acks apart: a logout. -/
theorem cleared_cases {s s' : State} {a : Act} {i : Input} {new : List Act}
    (h : perform s a i = some (s', new)) (hack : ∀ b, a ≠ .ackUser b)
    (hpending : s.identity.pendingPriorUserId ≠ [])
    (hcleared : s'.identity.pendingPriorUserId = []) :
    ∃ userId steamId, a = .setUser userId steamId ∧ clamped userId limits.userId = [] := by
  cases perform_identity h with
  | none same =>
    rw [same] at hcleared
    exact absurd hcleared hpending
  | setUser userId steamId act after =>
    refine ⟨userId, steamId, act, ?_⟩
    rw [after, Identity.setUser_pending] at hcleared
    split at hcleared
    · rename_i hlogout
      exact List.isEmpty_iff.mp hlogout
    · split at hcleared
      · rename_i hstamps
        exact absurd hcleared (Identity.stampsOn_provisional hstamps)
      · exact absurd hcleared hpending
  | carry _ _ after =>
    rw [after] at hcleared
    exact absurd hcleared hpending
  | commit b act _ => exact absurd act (hack b)

theorem clearedByAck_step (hc : MarkedBeats c) (h : step c l = some c') :
    ClearedByAck c l c' ↔ AcksMarker c l := by
  have hmarked : c.shared.identity.Marked := hc.shared.1
  unfold ClearedByAck AcksMarker
  rcases Interleave.step_cases h with ⟨t, i, a, rest, s', new, rfl, ht, hp, rfl⟩ |
    ⟨t, k, s', new, rfl, ht, hp, rfl⟩ | ⟨e, -, -⟩
  · rw [Interleave.acting_exec ht]
    by_cases hack : ∃ b, a = .ackUser b
    · obtain ⟨b, rfl⟩ := hack
      obtain ⟨rfl, -⟩ := Prod.mk.inj (Option.some.inj hp)
      refine forall_congr' fun hpending => ?_
      show (c.shared.identity.commit.pendingPriorUserId = [] → _) ↔ _
      rw [hmarked.commit_clears hpending]
      refine forall_congr' fun _ => and_congr_right fun _ => ?_
      -- a marker that is not empty is the pending one
      have hbeat : c.shared.identity.IsMarker b.payload.priorUserId :=
        hc.act (List.mem_of_getElem? ht) List.mem_cons_self b rfl
      constructor
      · intro heq
        rw [heq]
        exact hpending
      · intro hne
        rw [hbeat.resolve_left hne, hmarked.pending.resolve_left hpending]
    · refine iff_of_true ?_ ?_
      · intro hpending hcleared
        obtain ⟨userId, steamId, rfl, hlogout⟩ :=
          cleared_cases hp (fun b hb => hack ⟨b, hb⟩) hpending hcleared
        exact hlogout
      · split
        · rename_i b hb
          exact absurd ⟨b, Option.some.inj hb⟩ hack
        · trivial
  · obtain ⟨⟨_, _, rfl⟩, -, -⟩ := call_eq hp
    exact iff_of_true (fun hpending hcleared => absurd hcleared hpending) trivial
  · exact e.elim

/-- **Commit-on-ack for the merge marker, exactly.** Every marker that a step of the run
clears is cleared by a logout or by the ack of a beat that was built since the newest
stamping and carried it, just when every ack of the run that finds a carried marker pending
is of such a beat. -/
theorem marker_commitOnAck (o : Launch) (ls : List Label) :
    Run.AllSteps step ClearedByAck (start o) ls ↔
      Run.AllSteps step (fun c l _ => AcksMarker c l) (start o) ls := by
  refine Run.allSteps_congr (I := MarkedBeats) ?_ ?_ ls (start o) (markedBeats_start o)
  · exact fun _ _ _ hc h => markedBeats_step hc h
  · exact fun _ _ _ hc h => clearedByAck_step hc h

/-- The host logs in before the first beat, logs out and in again while the beat is queued;
then the worker delivers it. -/
def lateAck : List Label :=
  let setUser (userId : CString) : List Label := [.call 3 (.setUser userId none), .exec 3 {}]
  List.replicate 4 (.exec 0 {}) ++ setUser (some (lit "alice")) ++ List.replicate 8 (.exec 1 {}) ++
    setUser none ++ setUser (some (lit "bob")) ++ List.replicate 4 (.exec 2 {})

/-- **The late ack of a beat from before the newest stamping clears the new marker.** -/
theorem lateAck_clears_marker :
    ¬ ∀ o ls, Run.AllSteps step ClearedByAck (start o) ls := by
  intro hall
  have hfails : ¬ Run.AllSteps step ClearedByAck
      (start { provisionalUserId := lit "dev_0123456789abcdef" }) lateAck := by decide
  exact hfails (hall _ lateAck)

end Tombstone.Session
