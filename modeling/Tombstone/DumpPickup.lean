import Tombstone.Launches

/- What becomes of a native dump that a launch took from disk.

   `take_previous` deletes the dump; the report of it is made where session tracking starts,
   of the marker of the session that left it. This file

   1. says when a dump is not lost (`DumpReported`): once consent is given, exactly one report
      was made of it, or a restored crash sidecar superseded it;
   2. proves that the histories that lose no dump are exactly those where consent comes, in a
      launch that took a dump and restored no crash, with unclean-shutdown detection on and a
      marker found (`dump_reported_iff`): from whatever is on disk, for all options, and
      wherever consent is given or withdrawn. -/
namespace Tombstone.Launches

/-- Once there is consent, a dump that was taken has its one report, or is superseded. -/
def DumpReported (s : State) : Prop :=
  ∀ p ∈ s.process, p.consented = true → ∀ dump ∈ p.takenDump,
    p.hasRestoredCrash = true ∨ p.synthetic.filterMap ReportInfo.dump = [dump]

/-- The way from the dump to its report is open: detection is on and there was a marker. -/
def Process.Reaches (p : Process) : Prop :=
  p.takenDump ≠ none → p.hasRestoredCrash = false →
    p.options.enableUncleanShutdownDetection = true ∧ p.foundMarker ≠ none

/-- Where consent first comes, at the end of `init` or later, the way is open. -/
def WayOpen (s : State) : Label → Prop
  | .finishInit _ _ => ∀ p ∈ s.process, p.consent = true → p.Reaches
  | .setConsent granted _ _ =>
    ∀ p ∈ s.process, granted = true → p.consented = false → p.Reaches
  | _ => True

/-! ## Where consent first comes -/

/-- Tracking makes its report of the dump just when the way is open. -/
theorem track_reported {p : Process} (hstarted : p.sessionTrackingStarted = false)
    (hfound : p.previousMarker.map Prod.snd = p.foundMarker)
    (htaken : p.previousNativeDump = p.takenDump) (hnone : p.synthetic = []) (session : Nat) :
    (∀ dump ∈ p.takenDump, p.hasRestoredCrash = true ∨
        (p.track session).synthetic.filterMap ReportInfo.dump = [dump]) ↔ p.Reaches := by
  unfold Process.Reaches
  cases hdump : p.takenDump with
  | none => exact iff_of_true nofun fun h => absurd rfl h
  | some dump =>
    simp only [Option.mem_some_iff, forall_eq', ne_eq, reduceCtorEq, not_false_eq_true,
      forall_const]
    cases hflag : p.hasRestoredCrash with
    | true => exact iff_of_true (.inl rfl) nofun
    | false =>
      simp only [Bool.false_eq_true, false_or, forall_const]
      cases hon : p.options.enableUncleanShutdownDetection with
      | false =>
        rw [Process.track_clean (.inl hon), hnone]
        exact iff_of_false (by simp) nofun
      | true =>
        cases hm : p.previousMarker with
        | none =>
          rw [Process.track_clean (.inr hm), hnone, ← hfound, hm]
          exact iff_of_false (by simp) (by simp)
        | some found =>
          obtain ⟨data, previous⟩ := found
          rw [Process.track_found hstarted hon hm, hflag, hnone, htaken, hdump, ← hfound, hm]
          exact iff_of_true rfl ⟨rfl, nofun⟩

/-- Tracking that has begun, or never will, makes no report. -/
theorem track_idle {p : Process} (h : p.sessionTrackingStarted = true ∨
    p.options.enableUncleanShutdownDetection = false) (session : Nat) : p.track session = p := by
  unfold Process.track
  rcases h with h | h
  · rw [h, Bool.true_or, if_pos rfl]
  · rw [h, Bool.not_false, Bool.or_true, if_pos rfl]

theorem begun_reported {p : Process} (hp : p.Tracked) (hphase : p.phase = .drained)
    (session : Nat) :
    ((p.begun session).consented = true → ∀ dump ∈ p.takenDump, p.hasRestoredCrash = true ∨
        (p.begun session).synthetic.filterMap ReportInfo.dump = [dump]) ↔
      (p.consent = true → p.Reaches) := by
  obtain ⟨hconsented, -⟩ := hp.unready (by rw [hphase]; decide)
  obtain ⟨hstarted, hfound, htaken, hnone⟩ := hp.waiting hconsented
  cases hc : p.consent with
  | false =>
    have hbegun : (p.begun session).consented = false := by
      unfold Process.begun
      simp [hc]
    rw [hbegun]
    exact iff_of_true nofun nofun
  | true =>
    have hkept := (Process.track_kept { p with phase := .ready, consented := true } session).2.2.1
    rw [Process.begun_consented hc, hkept]
    simp only [forall_const]
    exact track_reported (p := { p with phase := .ready, consented := true }) hstarted hfound htaken
      hnone session

theorem consenting_reported {p : Process} (hp : p.Tracked) (granted : Bool) (session : Nat)
    (hlaw : p.consented = true → ∀ dump ∈ p.takenDump, p.hasRestoredCrash = true ∨
      p.synthetic.filterMap ReportInfo.dump = [dump]) :
    ((p.consenting session granted).consented = true → ∀ dump ∈ p.takenDump,
        p.hasRestoredCrash = true ∨
          (p.consenting session granted).synthetic.filterMap ReportInfo.dump = [dump]) ↔
      (granted = true → p.consented = false → p.Reaches) := by
  unfold Process.consenting
  cases granted with
  | false =>
    simp only [Bool.or_false, Bool.false_eq_true, if_false, false_implies, iff_true]
    exact hlaw
  | true =>
    simp only [Bool.or_true, if_true, forall_const]
    have hkept := (Process.track_kept { p with consent := true, consented := true } session).2.2.1
    rw [hkept]
    simp only [forall_const]
    cases hconsented : p.consented with
    | true =>
      -- consent came before: nothing happens
      rw [track_idle (p := { p with consent := true, consented := true }) (hp.done hconsented)]
      exact iff_of_true (hlaw hconsented) nofun
    | false =>
      obtain ⟨hstarted, hfound, htaken, hnone⟩ := hp.waiting hconsented
      simp only [forall_const]
      exact track_reported (p := { p with consent := true, consented := true }) hstarted hfound
        htaken hnone session

/-- **One step**: no dump is lost just when the way is open where consent first comes. -/
theorem dumpReported_step {s s' : State} {l : Label} (hs : Tracked s) (hlaw : DumpReported s)
    (h : step s l = some s') : DumpReported s' ↔ WayOpen s l := by
  cases hp : s.process with
  | none =>
    obtain ⟨o, marker, rfl, rfl⟩ := step_launch hp h
    refine iff_of_true (fun p' hp' hconsented => ?_) trivial
    obtain rfl := Option.some.inj hp'
    cases hconsented
  | some p =>
    rcases stepProcess_process hp (step_running hp h) with
      ⟨body, name, w, rfl, hphase, hnew⟩ | ⟨rfl, hphase, rfl⟩ | ⟨granted, body, name, w, rfl, -, hnew⟩ |
      ⟨hplain, hkept⟩
    · -- the end of `init`
      have hsame := p.begun_same s.sessions w
      unfold DumpReported WayOpen
      simp only [hnew, hp, Option.mem_some_iff, forall_eq']
      rw [hsame.taken, hsame.flag]
      exact begun_reported (hs p hp) hphase s.sessions
    · -- the drain: consent is not looked at yet
      refine iff_of_true (fun p' hp' hconsented => ?_) trivial
      obtain rfl := Option.some.inj hp'
      rw [((hs p hp).unready (by rw [hphase]; decide)).1] at hconsented
      cases hconsented
    · -- consent that comes later
      have hsame := p.consenting_same s.sessions granted w
      unfold DumpReported WayOpen
      simp only [hnew, hp, Option.mem_some_iff, forall_eq']
      rw [hsame.taken, hsame.flag]
      exact consenting_reported (hs p hp) granted s.sessions (hlaw p hp)
    · refine iff_of_true (fun p' hp' => ?_) ?_
      · obtain ⟨w, rfl⟩ := hkept p' hp'
        exact hlaw p hp
      · cases l with
        | drain | finishInit _ _ | setConsent _ _ _ => exact hplain.elim
        | _ => trivial

/-- **No consumed dump is lost**, whatever is on disk to begin with, exactly where consent
finds the way open. -/
theorem dump_reported_iff (marker : Option MarkerFile) (dump : Option Bytes)
    (sidecars : SidecarQueue) (log previousLog : Option LogFile) (ls : List Label) :
    Run.AllStates step DumpReported { marker, dump, sidecars, log, previousLog } ls ↔
      Run.AllSteps step (fun s l _ => WayOpen s l) { marker, dump, sidecars, log, previousLog } ls :=
  Run.allStates_iff_allSteps (I := Tracked) (fun _ _ _ hs h => tracked_step hs h)
    (fun _ _ _ hs hlaw h => dumpReported_step hs hlaw h) ls
    ({ marker, dump, sidecars, log, previousLog } : State) (fun _ hp => by cases hp)
    fun _ hp => by cases hp

instance (s : State) : Decidable (DumpReported s) :=
  inferInstanceAs (Decidable (∀ p ∈ s.process, p.consented = true → ∀ dump ∈ p.takenDump,
    p.hasRestoredCrash = true ∨ p.synthetic.filterMap ReportInfo.dump = [dump]))

/-- The handler is on and unclean-shutdown detection off: the dump of the dead session is
deleted, and no report is ever made of it. -/
theorem dump_lost :
    ¬ ∀ (dump : Option Bytes) (ls : List Label), Run.AllStates step DumpReported { dump } ls := by
  intro hall
  have hfails : ¬ Run.AllStates step DumpReported
      { dump := some (NativeDump.writeDump 11 1 0 []) }
      [.launch { enableNativeCrashHandler := true, enableUncleanShutdownDetection := false }
          { sessionId := lit "a" },
        .drain, .finishInit ⟨_, emptyObject_ne_nil⟩ { stem := lit "0" }] := by
    decide +kernel
  exact hfails (hall _ _)

end Tombstone.Launches
