import Tombstone.Launches

/- Whether every unclean session is represented.

   A launch that finds the marker of a session makes a synthetic report of it, or of the
   native dump it left, unless a crash sidecar was restored; the source means one from that
   session. This file

   1. says when a session is represented (`Represented`): a report was made of it, or a crash
      sidecar that it wrote was restored in this launch;
   2. proves that the histories whose sessions are all represented are exactly those where no
      launch that finds a marker restores only crash sidecars of other sessions
      (`unclean_represented_iff`): with consent and unclean-shutdown detection on at every
      launch, over any number of launches. -/
namespace Tombstone.Launches

/-- A launch with consent and unclean-shutdown detection, as the histories here have them. -/
def Label.detects : Label → Prop
  | .launch o _ => o.consentGranted = true ∧ o.enableUncleanShutdownDetection = true
  | _ => True

/-- Every session whose marker the running process found is reported, or a crash sidecar that it
wrote was restored by this launch. -/
def Represented (s : State) : Prop :=
  ∀ p ∈ s.process, p.phase = .ready → ∀ previous ∈ p.foundMarker,
    (∃ info ∈ p.synthetic, info.subject = previous) ∨ previous ∈ p.restoredCrashes

/-- The crash sidecars that the launch restored, if any, are not all from other sessions than
the one whose marker it found. -/
def OwnCrashRestored (s : State) : Label → Prop
  | .finishInit _ _ => ∀ p ∈ s.process, ∀ previous ∈ p.foundMarker,
      p.restoredCrashes ≠ [] → previous ∈ p.restoredCrashes
  | _ => True

/-- Every process was launched so, and stands where its steps can have brought it. -/
def Detecting (s : State) : Prop :=
  Tracked s ∧ ∀ p ∈ s.process, p.options.consentGranted = true ∧
    p.options.enableUncleanShutdownDetection = true

theorem detecting_step {s s' : State} {l : Label} (hl : l.detects) (hs : Detecting s)
    (h : step s l = some s') : Detecting s' := by
  refine ⟨tracked_step hs.1 h, fun p' hp' => ?_⟩
  cases hp : s.process with
  | none =>
    obtain ⟨o, marker, rfl, rfl⟩ := step_launch hp h
    obtain rfl := Option.some.inj hp'
    exact hl
  | some p =>
    rw [step_options hp h hp']
    exact hs.2 p hp

/-! ## The end of `init` -/

theorem begun_represented {p : Process} (hp : p.Tracked) (hphase : p.phase = .drained)
    (hconsent : p.options.consentGranted = true)
    (hon : p.options.enableUncleanShutdownDetection = true) (session : Nat) :
    (∀ previous ∈ p.foundMarker, (∃ info ∈ (p.begun session).synthetic, info.subject = previous) ∨
        previous ∈ p.restoredCrashes) ↔
      ∀ previous ∈ p.foundMarker, p.restoredCrashes ≠ [] → previous ∈ p.restoredCrashes := by
  obtain ⟨hconsented, hgranted⟩ := hp.unready (by rw [hphase]; decide)
  obtain ⟨hstarted, hfound, -, hnone⟩ := hp.waiting hconsented
  have hflag := hp.restored (by rw [hphase]; decide)
  have hmade : ∀ data previous, p.previousMarker = some (data, previous) →
      (p.begun session).synthetic = if p.hasRestoredCrash then []
        else [⟨session, previous, p.previousNativeDump⟩] := by
    intro data previous hm
    rw [Process.begun_consented (hgranted.trans hconsent),
      Process.track_found (p := { p with phase := .ready, consented := true }) hstarted hon hm, hnone]
    rfl
  rw [← hfound]
  cases hm : p.previousMarker with
  | none => exact iff_of_true nofun nofun
  | some found =>
    simp only [Option.map_some, Option.mem_some_iff, forall_eq', hmade found.1 found.2 hm]
    cases hr : p.restoredCrashes with
    | nil =>
      -- nothing restored: the report is made
      have hunset : p.hasRestoredCrash = false := by rw [hflag, hr]; rfl
      simp [hunset]
    | cons author others =>
      -- withheld
      have hset : p.hasRestoredCrash = true := by rw [hflag, hr]; rfl
      simp [hset]

theorem consenting_represented {p : Process} {previous : Nat} (session : Nat) (granted : Bool)
    (h : ∃ info ∈ p.synthetic, info.subject = previous) :
    ∃ info ∈ (p.consenting session granted).synthetic, info.subject = previous := by
  obtain ⟨info, hinfo, hsubject⟩ := h
  refine ⟨info, ?_, hsubject⟩
  unfold Process.consenting
  cases granted with
  | true => exact Process.track_synthetic _ session hinfo
  | false => exact hinfo

/-- **One step**: represented sessions stay so just when a launch that ends its `init` has
restored no crash, or one of the session whose marker it found. -/
theorem represented_step {s s' : State} {l : Label} (hs : Detecting s) (hlaw : Represented s)
    (h : step s l = some s') : Represented s' ↔ OwnCrashRestored s l := by
  cases hp : s.process with
  | none =>
    obtain ⟨o, marker, rfl, rfl⟩ := step_launch hp h
    refine iff_of_true (fun p' hp' hready => ?_) trivial
    obtain rfl := Option.some.inj hp'
    cases hready
  | some p =>
    obtain ⟨hconsent, hon⟩ := hs.2 p hp
    rcases stepProcess_process hp (step_running hp h) with
      ⟨body, name, w, rfl, hphase, hnew⟩ | ⟨rfl, -, rfl⟩ | ⟨granted, body, name, w, rfl, hphase, hnew⟩ |
      ⟨hplain, hkept⟩
    · -- the end of `init`
      have hsame := p.begun_same s.sessions w
      have hready := p.begun_phase s.sessions
      unfold Represented OwnCrashRestored
      simp only [hnew, hp, Option.mem_some_iff, forall_eq', hready, forall_const]
      rw [hsame.found, hsame.restored]
      exact begun_represented (hs.1 p hp) hphase hconsent hon s.sessions
    · -- the drain: the process is not ready yet
      refine iff_of_true (fun p' hp' hready => ?_) trivial
      obtain rfl := Option.some.inj hp'
      cases hready
    · -- a change of consent takes no report away
      refine iff_of_true (fun p' hp' hready previous hprevious => ?_) trivial
      rw [hnew] at hp'
      obtain rfl := Option.some.inj hp'
      have hsame := p.consenting_same s.sessions granted w
      rw [hsame.found] at hprevious
      rw [hsame.restored]
      exact (hlaw p hp hphase previous hprevious).imp_left
        (consenting_represented s.sessions granted)
    · refine iff_of_true (fun p' hp' => ?_) ?_
      · obtain ⟨w, rfl⟩ := hkept p' hp'
        exact hlaw p hp
      · cases l with
        | drain | finishInit _ _ | setConsent _ _ _ => exact hplain.elim
        | _ => trivial

theorem detecting_start : Detecting {} := by
  constructor
  · intro p hp
    cases hp
  · intro p hp
    cases hp

/-- **Every unclean session is represented**, in every history of launches with consent and
unclean-shutdown detection, exactly where no launch that finds the marker of a session
restores crash sidecars of other sessions only. -/
theorem unclean_represented_iff (ls : List Label) (hls : ∀ l ∈ ls, l.detects) :
    Run.AllStates step Represented {} ls ↔
      Run.AllSteps step (fun s l _ => OwnCrashRestored s l) {} ls :=
  Run.allStates_iff_allSteps_of_labels (A := Label.detects) (I := Detecting)
    (fun _ _ _ hl hs h => detecting_step hl hs h)
    (fun _ _ _ _ hs hlaw h => represented_step hs hlaw h) ls ({} : State) hls detecting_start
    fun _ hp => by cases hp

instance (s : State) : Decidable (Represented s) :=
  inferInstanceAs (Decidable (∀ p ∈ s.process, p.phase = .ready → ∀ previous ∈ p.foundMarker,
    (∃ info ∈ p.synthetic, info.subject = previous) ∨ previous ∈ p.restoredCrashes))

instance (s : State) : DecidablePred (OwnCrashRestored s)
  | .finishInit _ _ => inferInstanceAs (Decidable (∀ p ∈ s.process, ∀ previous ∈ p.foundMarker,
      p.restoredCrashes ≠ [] → previous ∈ p.restoredCrashes))
  | .launch _ _ | .drain | .setConsent _ _ _ | .report _ _ _ _ | .writeLog _ | .trimLog _
  | .respond _ _ _ | .dropOldest | .shutdown _ | .die _ => .isTrue trivial

instance : DecidablePred Label.detects
  | .launch o _ => inferInstanceAs (Decidable (o.consentGranted = true ∧
      o.enableUncleanShutdownDetection = true))
  | .drain | .finishInit _ _ | .setConsent _ _ _ | .report _ _ _ _ | .writeLog _ | .trimLog _
  | .respond _ _ _ | .dropOldest | .shutdown _ | .die _ => .isTrue trivial

/-- A launch with the default options, to the end of `init`; a report it makes gets this name. -/
def launched (stem : Bytes) : List Label :=
  [.launch {} { sessionId := lit "a" }, .drain,
    .finishInit ⟨_, emptyObject_ne_nil⟩ { stem }]

/-- A session that reports a crash and is killed; the server is away. -/
def crashedOnce : List Label :=
  launched (lit "0") ++ [.report false ⟨_, emptyObject_ne_nil⟩ false { stem := lit "1" },
    .die none]

/-- The next launch restores the crash that the dead session reported. -/
theorem crashedOnce_represented :
    Run.AllStates step Represented {} (crashedOnce ++ launched (lit "2")) :=
  (unclean_represented_iff (crashedOnce ++ launched (lit "2")) (by decide)).mpr (by decide +kernel)

/-- The launch after that is killed too, without a crash; the third one restores the first
session's crash again, and withholds the report of the second one's death. -/
theorem killedTwice_unrepresented :
    ¬ ∀ ls : List Label, (∀ l ∈ ls, l.detects) → Run.AllStates step Represented {} ls := by
  intro hall
  have hfails : ¬ Run.AllStates step Represented {}
      (crashedOnce ++ launched (lit "2") ++ [.die none] ++ launched (lit "3")) := by
    decide +kernel
  exact hfails (hall _ (by decide))

end Tombstone.Launches
