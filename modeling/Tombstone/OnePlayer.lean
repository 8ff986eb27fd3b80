import Tombstone.Sections

/- Into whom the rows from before a login are merged (`priorUserId`).

   A body that carries the marker asks the server to merge the provisional id's rows into the
   body's user. The marker stays until a beat with it is acked, whoever logs in meanwhile, and
   a crash or bug body reads the user and the marker one after the other. This file

   1. says what the bodies of a launch should agree on (`MergesOnce`), and the condition on
      the logins and on the two reads (`KeepsPlayer`);
   2. shows that under it a pending marker belongs to the user who is set (`Stamped`), and
      every marked body to a stamping of its episode (`Merge.Of`);
   3. proves the law for every such run (`prior_merges_once`), and gives a run where the
      player switches accounts before an ack. -/
namespace Tombstone.Session

variable {s s' : State} {a b : Act} {i : Input} {new : List Act} {c c' : Config} {l : Label}

/-- What a body says of the merge; the last two are proof-only. -/
structure Merge where
  userId : Bytes
  priorUserId : Bytes
  stamper : Bytes
  episode : Nat
  deriving DecidableEq, Repr

def Beat.merge (b : Beat) : Merge :=
  ⟨b.payload.userId, b.payload.priorUserId, b.stamper, b.episode⟩

def Report.merge (r : Report) : Merge := ⟨r.userId, r.priorUserId, r.stamper, r.episode⟩

/-- What every enqueued body says. -/
def State.bodies (s : State) : List Merge := s.beats.map Beat.merge ++ s.reports.map Report.merge

/-- A marked body names the player whose login stamped the marker, and not the provisional
id; all marked bodies of one episode name one player. -/
def MergesOnce (s : State) : Prop :=
  (∀ x ∈ s.bodies, x.priorUserId ≠ [] → x.userId = x.stamper ∧ x.userId ≠ x.priorUserId) ∧
    ∀ x ∈ s.bodies, ∀ y ∈ s.bodies, x.priorUserId ≠ [] → y.priorUserId ≠ [] →
      x.episode = y.episode → x.userId = y.userId

instance (s : State) : Decidable (MergesOnce s) := inferInstanceAs (Decidable (_ ∧ _))

/-- While a marker is pending only its player logs in again; a marker is stamped again in an
episode only for the same player; and a report that reads a pending marker has read the id of
the user who is set. -/
def KeepsPlayer (c : Config) (l : Label) : Prop :=
  match Interleave.acting c l with
  | some (.setUser userId _) => clamped userId limits.userId ≠ [] →
      (c.shared.identity.pendingPriorUserId ≠ [] →
        clamped userId limits.userId = c.shared.identity.userId) ∧
      (c.shared.identity.stampsOn (clamped userId limits.userId) = true →
        ∀ p ∈ c.shared.identity.stampings, p.1 = c.shared.identity.episode →
          p.2 = clamped userId limits.userId)
  | some (.reportPrior r) => c.shared.identity.pendingPriorUserId ≠ [] →
      r.userId = c.shared.identity.effective
  | _ => True

instance (c : Config) (l : Label) : Decidable (KeepsPlayer c l) := by
  unfold KeepsPlayer
  rcases Interleave.acting c l with _ | a
  · exact isTrue trivial
  · rcases a <;> infer_instance

/-! ## The marker and its player -/

namespace Identity

/-- A pending marker is the provisional id, and the user who is set stamped it last, in this
episode; no two players stamped it in one episode. -/
structure Stamped (u : Identity) : Prop where
  pending : u.pendingPriorUserId ≠ [] →
    u.pendingPriorUserId = u.provisionalUserId ∧ u.userId ≠ u.provisionalUserId ∧ u.userId ≠ [] ∧
      u.stampings.getLast? = some (u.episode, u.userId)
  single : ∀ p ∈ u.stampings, ∀ q ∈ u.stampings, p.1 = q.1 → p.2 = q.2

variable {u : Identity}

theorem Stamped.effective (h : u.Stamped) (hpending : u.pendingPriorUserId ≠ []) :
    u.effective = u.userId := by
  obtain ⟨-, -, hne, -⟩ := h.pending hpending
  exact if_neg (by simpa using hne)

theorem Stamped.stamper (h : u.Stamped) (hpending : u.pendingPriorUserId ≠ []) :
    u.stamper = u.userId := by
  obtain ⟨-, -, -, hlast⟩ := h.pending hpending
  simp [Identity.stamper, hlast]

theorem Stamped.mem (h : u.Stamped) (hpending : u.pendingPriorUserId ≠ []) :
    (u.episode, u.userId) ∈ u.stampings :=
  List.mem_of_getLast? (h.pending hpending).2.2.2

theorem stamped_initial (provisionalUserId : Bytes) : Stamped { provisionalUserId } where
  pending h := absurd rfl h
  single := by simp

theorem stampsOn_ne {next : Bytes} (h : u.stampsOn next = true) : next ≠ u.provisionalUserId := by
  simp only [stampsOn, Bool.and_eq_true] at h
  simpa using h.1.2

theorem Stamped.setUser (h : u.Stamped) {userId : CString} (steamId : CString)
    (hkeeps : clamped userId limits.userId ≠ [] →
      (u.pendingPriorUserId ≠ [] → clamped userId limits.userId = u.userId) ∧
      (u.stampsOn (clamped userId limits.userId) = true →
        ∀ p ∈ u.stampings, p.1 = u.episode → p.2 = clamped userId limits.userId)) :
    (u.setUser userId steamId).Stamped := by
  by_cases hlogout : clamped userId limits.userId = []
  · refine ⟨?_, ?_⟩ <;> simp only [Identity.setUser, hlogout, List.isEmpty_nil, if_true]
    · exact fun hpending => absurd rfl hpending
    · exact h.single
  obtain ⟨hsame, hagain⟩ := hkeeps hlogout
  have hlogin : (clamped userId limits.userId).isEmpty = false :=
    List.isEmpty_eq_false_iff.mpr hlogout
  cases hstamps : u.stampsOn (clamped userId limits.userId)
  · -- an ordinary login, or the player of a pending marker again
    refine ⟨?_, ?_⟩ <;>
      simp only [Identity.setUser, hlogin, hstamps, Bool.false_eq_true, if_false]
    · intro hpending
      rw [hsame hpending]
      exact h.pending hpending
    · exact h.single
  · refine ⟨?_, ?_⟩ <;> simp only [Identity.setUser, hlogin, hstamps, Bool.false_eq_true, if_false, if_true]
    · exact fun _ => ⟨trivial, stampsOn_ne hstamps, hlogout, by simp⟩
    · intro p hp q hq hepoch
      have hnew := hagain hstamps
      rcases List.mem_append.mp hp with hp | hp <;> rcases List.mem_append.mp hq with hq | hq
      · exact h.single p hp q hq hepoch
      · rw [List.mem_singleton.mp hq] at hepoch ⊢
        exact hnew p hp hepoch
      · rw [List.mem_singleton.mp hp] at hepoch ⊢
        exact (hnew q hq hepoch.symm).symm
      · rw [List.mem_singleton.mp hp, List.mem_singleton.mp hq]

theorem Stamped.commit (h : u.Stamped) : u.commit.Stamped := by
  refine ⟨?_, h.single⟩
  intro hpending
  simp only [Identity.commit] at hpending ⊢
  split at hpending
  · exact absurd rfl hpending
  · rename_i hkept
    rw [if_neg hkept]
    exact h.pending hpending

end Identity

theorem stamped_step (hs : s.identity.Stamped) (h : perform s a i = some (s', new))
    (hact : Interleave.acting c l = some a) (hshared : c.shared = s) (hcond : KeepsPlayer c l) :
    s'.identity.Stamped := by
  cases perform_identity h with
  | none same => rw [same]; exact hs
  | setUser userId steamId act after =>
    subst act hshared
    unfold KeepsPlayer at hcond
    rw [hact] at hcond
    rw [after]
    exact hs.setUser steamId hcond
  | carry _ _ after => rw [after]; exact ⟨hs.pending, hs.single⟩
  | commit _ _ after => rw [after]; exact hs.commit

/-! ## The bodies -/

/-- A marked body names a player who stamped the marker in its episode, and not the
provisional id. -/
def Merge.Of (u : Identity) (x : Merge) : Prop :=
  x.priorUserId ≠ [] →
    (x.episode, x.userId) ∈ u.stampings ∧ x.userId = x.stamper ∧ x.userId ≠ x.priorUserId

theorem stampings_subset (h : perform s a i = some (s', new)) :
    s.identity.stampings ⊆ s'.identity.stampings := by
  cases perform_identity h with
  | none same => rw [same]; exact List.Subset.refl _
  | setUser userId steamId _ after =>
    rw [after]
    simp only [Identity.setUser]
    split
    · exact List.Subset.refl _
    · split
      · exact List.subset_append_left _ _
      · exact List.Subset.refl _
  | carry _ _ after => rw [after]; exact List.Subset.refl _
  | commit _ _ after => rw [after]; exact List.Subset.refl _

theorem Merge.Of.keep {x : Merge} (hx : x.Of s.identity) (h : perform s a i = some (s', new)) :
    x.Of s'.identity :=
  fun hprior => ⟨stampings_subset h (hx hprior).1, (hx hprior).2⟩

/-- What the snapshot of the marker says of the user who is set. -/
theorem Identity.Stamped.merge {u : Identity} (h : u.Stamped) {userId : Bytes}
    (huser : u.pendingPriorUserId ≠ [] → userId = u.effective) :
    Merge.Of u ⟨userId, u.pendingPriorUserId, u.stamper, u.episode⟩ := by
  intro hpending
  show (u.episode, userId) ∈ u.stampings ∧ userId = u.stamper ∧ userId ≠ u.pendingPriorUserId
  obtain ⟨hprov, hne, -, -⟩ := h.pending hpending
  rw [huser hpending, h.effective hpending, h.stamper hpending, hprov]
  exact ⟨h.mem hpending, rfl, hne⟩

/-- The marker's invariant, and the beats. -/
def MergeBeats (c : Config) : Prop :=
  Beats (fun s => s.identity.Stamped) (fun s b => b.merge.Of s.identity) c

theorem mergeBeats_step (hc : MergeBeats c) (hcond : KeepsPlayer c l) (h : step c l = some c') :
    MergeBeats c' := by
  obtain ⟨hstamped, hqueue, -⟩ := hc.shared
  refine beats_step ?_ (fun _ _ => ⟨fun h => h, fun _ h => h⟩) hc h
  intro a i s' new hact ha hp
  refine ⟨stamped_step hstamped hp hact rfl hcond, fun x hx => ?_, fun b hb => hb.keep hp⟩
  refine Merge.Of.keep (?_ : x.merge.Of c.shared.identity) hp
  refine hx.holds (R := fun b => b.merge.Of c.shared.identity) ha hqueue ?_
    (fun _ _ _ => hstamped.merge fun _ => rfl) (fun _ hb => hb) (fun _ hb => hb)
    (fun b hb => ?_) (fun _ _ hb => hb)
  · exact fun hprior => absurd rfl hprior
  · unfold Beat.readDevice
    split <;> exact hb

theorem mergeBeats_start (o : Launch) : MergeBeats (start o) :=
  beats_start o (Identity.stamped_initial _)

def MergeReports (c : Config) : Prop := Reports (fun s r => r.merge.Of s.identity) c

theorem mergeReports_step (hbeats : MergeBeats c) (hblank : Blank c) (hc : MergeReports c)
    (hcond : KeepsPlayer c l) (h : step c l = some c') : MergeReports c' := by
  have hstamped : c.shared.identity.Stamped := hbeats.shared.1
  refine reports_step ?_ (fun _ _ _ h => h) hc h
  intro a i s' new hact ha hp
  obtain ⟨p, hpm, hheld⟩ := Interleave.acting_held hact
  refine ⟨fun x hx => Merge.Of.keep (?_ : x.merge.Of c.shared.identity) hp,
    fun r hr => hr.keep hp⟩
  cases hx with
  | new kind _ report =>
    rw [report]
    exact fun hprior => absurd rfl hprior
  | user r act report =>
    -- the marker has not been read yet
    rw [act] at hheld
    have hkind : r = { kind := r.kind } := hblank.act hpm hheld
    rw [report, hkind]
    exact fun hprior => absurd rfl hprior
  | prior r act report =>
    unfold KeepsPlayer at hcond
    rw [hact, act] at hcond
    rw [report]
    exact hstamped.merge hcond
  | steam r act report => rw [report]; exact ha r (by rw [act]; rfl)
  | context r act report =>
    have hr : r.merge.Of c.shared.identity := ha r (by rw [act]; rfl)
    rw [report]
    simp only [Report.readContext]
    split <;> exact hr
  | device r act report => rw [report]; exact ha r (by rw [act]; rfl)

theorem mergeReports_start (o : Launch) : MergeReports (start o) := reports_start o

theorem mergesOnce (hbeats : MergeBeats c) (hreports : MergeReports c) : MergesOnce c.shared := by
  obtain ⟨hstamped, -, hmerge⟩ := hbeats.shared
  have hall : ∀ x ∈ c.shared.bodies, x.Of c.shared.identity := by
    intro x hx
    rcases List.mem_append.mp hx with hx | hx
    · obtain ⟨b, hb, rfl⟩ := List.mem_map.mp hx
      exact hmerge b hb
    · obtain ⟨r, hr, rfl⟩ := List.mem_map.mp hx
      exact hreports.shared r hr
  constructor
  · exact fun x hx hprior => (hall x hx hprior).2
  · intro x hx y hy hpx hpy hepisode
    exact hstamped.single _ (hall x hx hpx).1 _ (hall y hy hpy).1 hepisode

/-! ## Runs -/

/-- **The rows from before a login merge into one player.** In a run in which only the player
of a pending marker logs in again, no other player stamps a marker in the same episode, and
no `set_user` changes the user between the two reads of a report, every marked body names the
player whose login stamped the marker, and all of one episode name the same. -/
theorem prior_merges_once (o : Launch) (ls : List Label)
    (hcond : Run.AllSteps step (fun c l _ => KeepsPlayer c l) (start o) ls) :
    Run.AllStates step (fun c => MergesOnce c.shared) (start o) ls := by
  refine Run.allStates_of_steps (I := fun c => MergeBeats c ∧ Blank c ∧ MergeReports c) ?_ ?_ ls
    (start o) ⟨mergeBeats_start o, blank_start o, mergeReports_start o⟩ hcond
  · intro c l c' ⟨hbeats, hblank, hreports⟩ h hc
    exact ⟨mergeBeats_step hbeats hc h, blank_step hblank h,
      mergeReports_step hbeats hblank hreports hc h⟩
  · exact fun c hc => mergesOnce hc.1 hc.2.2

/-- Alice logs in, a beat is built and a crash reported. -/
def aliceCrashes : List Label :=
  List.replicate 4 (.exec 0 {}) ++
    .call 3 (.setUser (some (lit "alice")) none) :: .exec 3 {} :: List.replicate 8 (.exec 1 {}) ++
    .call 3 .reportCrash :: List.replicate 7 (.exec 3 {})

theorem prior_merges_once_alice :
    Run.AllStates step (fun c => MergesOnce c.shared)
      (start { provisionalUserId := lit "dev_0123456789abcdef" }) aliceCrashes :=
  prior_merges_once _ aliceCrashes (by decide)

/-- Alice logs in, a beat is built; Bob logs in before it is acked, and a second beat is
built. -/
def switchBeforeAck : List Label :=
  let setUser (userId : String) : List Label :=
    [.call 3 (.setUser (some (lit userId)) none), .exec 3 {}]
  List.replicate 4 (.exec 0 {}) ++ setUser "alice" ++ List.replicate 8 (.exec 1 {}) ++
    setUser "bob" ++ List.replicate 8 (.exec 1 {})

/-- **One episode's rows are merged into two players.** -/
theorem switchBeforeAck_merges_twice :
    ¬ ∀ o ls, Run.AllStates step (fun c => MergesOnce c.shared) (start o) ls := by
  intro hall
  have hfails : ¬ Run.AllStates step (fun c => MergesOnce c.shared)
      (start { provisionalUserId := lit "dev_0123456789abcdef" }) switchBeforeAck := by decide
  exact hfails (hall _ switchBeforeAck)

end Tombstone.Session
