import Tombstone.FrameStats
import Tombstone.MonitorInvariant

/- Frames that are reported while beats drain them (`client.cpp`: `report_frame`; `frame_stats.cpp`).

   Any number of threads report frames, and the heartbeat's thread drains them. A spin lock guards the
   accumulator; each statement under it is a step of its own. Proof-only fields keep the frames that
   were let through, and which of them each drain took. -/
namespace Tombstone.FrameWindows
open Monitor FrameAccumulator

structure Data where
  acc : FrameAccumulator := {}
  /-- `capture_allowed`, once the client is initialized. -/
  consent : Bool := true
  /-- What `consume` has returned. -/
  snapshots : List FrameStatsSnapshot := []
  /-- Proof-only: the frames that were let through, those since the last drain, and those of each
  drain. -/
  reported : List Frame := []
  window : List Frame := []
  windows : List (List Frame) := []

inductive Action where
  | report (frameMs : Double)
  -- `sample`
  | countFrame (frame : Frame)
  | addElapsed (frame : Frame)
  | countSlow (frame : Frame)
  | countHitch (frame : Frame)
  | keepWorst (frame : Frame)
  -- `consume`
  | drain
  | clearCount
  | clearElapsed
  | clearSlow
  | clearHitches
  | clearWorst
  | hand (out : FrameStatsSnapshot)
  | setConsent (granted : Bool)

abbrev Act := Monitor.Act Action Empty
abbrev Config := Monitor.Config Data Action Empty

/-- `FrameAccumulator::sample`, for a duration that counts. -/
def sample (frame : Frame) : List Act :=
  [.lock, .act (.countFrame frame), .act (.addElapsed frame), .act (.countSlow frame),
    .act (.countHitch frame), .act (.keepWorst frame), .unlock]

/-- `FrameAccumulator::consume`. -/
def consume : List Act := [.lock, .act .drain]

/-- The resets of `consume`, and its return. -/
def reset (out : FrameStatsSnapshot) : List Act :=
  [.act .clearCount, .act .clearElapsed, .act .clearSlow, .act .clearHitches, .act .clearWorst, .unlock,
    .act (.hand out)]

/-- One action, and what follows from it. -/
def act (s : Data) (_ : Nat) (a : Action) (_ : Unit) : Option (Data × List Act) :=
  match a with
  | .report frameMs =>
    match if s.consent then frameMs.frame? else none with
    | some frame => some ({ s with reported := s.reported ++ [frame] }, sample frame)
    | none => some (s, [])
  | .countFrame frame =>
    -- the count is a `long long`, whose overflow is undefined
    if s.acc.frameCount + 1 < 2 ^ 63 then
      some ({ s with acc := s.acc.countFrame, window := s.window ++ [frame] }, [])
    else none
  | .addElapsed frame => some ({ s with acc := s.acc.addElapsed frame.ms }, [])
  | .countSlow frame => some ({ s with acc := s.acc.countSlow frame.ms }, [])
  | .countHitch frame => some ({ s with acc := s.acc.countHitch frame.ms }, [])
  | .keepWorst frame => some ({ s with acc := s.acc.keepWorst frame.ms }, [])
  | .drain => some ({ s with window := [], windows := s.windows ++ [s.window] }, reset s.acc.snapshot)
  | .clearCount => some ({ s with acc := { s.acc with frameCount := 0 } }, [])
  | .clearElapsed => some ({ s with acc := { s.acc with elapsedMs := .zero } }, [])
  | .clearSlow => some ({ s with acc := { s.acc with slowFrames := 0 } }, [])
  | .clearHitches => some ({ s with acc := { s.acc with hitchFrames := 0 } }, [])
  | .clearWorst => some ({ s with acc := { s.acc with worstFrameMs := .zero } }, [])
  | .hand out => some ({ s with snapshots := s.snapshots ++ [out] }, [])
  | .setConsent granted => some ({ s with consent := granted }, [])

inductive Call where
  | reportFrame (frameMs : Double)
  | consume
  | setConsent (granted : Bool)

def Call.program : Call → List Act
  | .reportFrame frameMs => [.act (.report frameMs)]
  | .consume => FrameWindows.consume
  | .setConsent granted => [.act (.setConsent granted)]

def enter (s : Shared Data) (_ : List (List Act)) (_ : Nat) (k : Call) : Option (Data × List Act) :=
  some (s.data, k.program)

def before : Action → Bool
  | .report _ | .hand _ | .setConsent _ => false
  | _ => true

def after : Action → Bool
  | .drain => false
  | a => before a

/-- There is nothing to wait for. -/
def holds (w : Empty) (_ : Data) (_ : Nat) : Bool := w.elim

def system : System Data Action Empty Unit Call := { act, holds, enter, before, after }

abbrev Label := Monitor.Label Unit Call

def step : Config → Label → Option Config := Monitor.step system

/-- Nothing has been reported. -/
structure Started (c : Config) : Prop where
  shared : c.shared = { data := { consent := c.shared.data.consent }, now := c.shared.now }
  idle : ∀ p ∈ c.threads, p = []

abbrev Reachable (c : Config) : Prop := Run.Reachable step Started c

variable {c c' : Config} {l : Label} {s s' : Data} {now : Nat} {a : Action} {i : Unit} {new p q : List Act}

/-! ## Brackets and sections -/

theorem act_segment (h : system.act s now a i = some (s', new)) :
    Segment system (before a) (after a) new := by
  cases a with
  | report frameMs =>
    simp only [system, act] at h
    split at h
    · obtain ⟨-, rfl⟩ := Prod.mk.inj (Option.some.inj h)
      exact .lock (.act (Action.countFrame _) (.act (Action.addElapsed _) (.act (Action.countSlow _)
        (.act (Action.countHitch _) (.act (Action.keepWorst _) (.unlock (.nil false)))))))
    · obtain ⟨-, rfl⟩ := Prod.mk.inj (Option.some.inj h)
      exact .nil false
  | countFrame frame =>
    obtain ⟨-, h⟩ := Option.ite_none_right_eq_some.1 h
    obtain ⟨-, rfl⟩ := Prod.mk.inj (Option.some.inj h)
    exact .nil true
  | drain =>
    obtain ⟨-, rfl⟩ := Prod.mk.inj (Option.some.inj h)
    exact .act Action.clearCount (.act Action.clearElapsed (.act Action.clearSlow (.act Action.clearHitches
      (.act Action.clearWorst (.unlock (.act (Action.hand _) (.nil false)))))))
  | hand | setConsent =>
    obtain ⟨-, rfl⟩ := Prod.mk.inj (Option.some.inj h)
    exact .nil false
  | _ =>
    obtain ⟨-, rfl⟩ := Prod.mk.inj (Option.some.inj h)
    exact .nil true

theorem segment_program (k : Call) : Segment system false false k.program := by
  cases k with
  | reportFrame frameMs => exact .act (Action.report frameMs) (.nil false)
  | consume => exact .lock (.act Action.drain (.nil false))
  | setConsent granted => exact .act (Action.setConsent granted) (.nil false)

theorem enter_cases {s : Shared Data} {ps : List (List Act)} {t : Nat} {k : Call}
    (h : system.enter s ps t k = some (s', new)) : s' = s.data ∧ new = k.program := by
  obtain ⟨rfl, rfl⟩ := Prod.mk.inj (Option.some.inj h)
  exact ⟨rfl, rfl⟩

theorem balanced : Balanced system where
  segment := act_segment
  entry h := (enter_cases h).2 ▸ segment_program _

/-- What a thread has to do between its sections. -/
inductive Between : List Act → Prop
  | done : Between []
  | report (frameMs : Double) : Between [.act (.report frameMs)]
  | sample (frame : Frame) : Between (FrameWindows.sample frame)
  | consume : Between FrameWindows.consume
  | hand (out : FrameStatsSnapshot) : Between [.act (.hand out)]
  | setConsent (granted : Bool) : Between [.act (.setConsent granted)]

/-- The accumulator holds what the frames since the last drain add up to. -/
def discipline : Discipline Data Action Empty (FrameAccumulator × List Frame) where
  view s := (s.acc, s.window)
  inv g := g.1 = accumulate g.2 ∧ g.2.length < 2 ^ 63
  pre g a := match a with
    | .drain => g.1 = accumulate g.2 ∧ g.2.length < 2 ^ 63
    | _ => True
  out := Between

/-- An action of a section that only works on the accumulator. -/
theorem settles_act {g : FrameAccumulator × List Frame} {a : Action} (hb : before a = true)
    (hpre : discipline.pre g a) (f : FrameAccumulator → FrameAccumulator)
    (hf : ∀ s now i, system.act s now a i = some ({ s with acc := f s.acc }, []))
    (hrest : Settles system discipline (f g.1, g.2) p) : Settles system discipline g (.act a :: p) := by
  refine .act hb hpre fun s now i s' new hview h => ?_
  obtain ⟨rfl, rfl⟩ := Prod.mk.inj (Option.some.inj ((hf s now i).symm.trans h))
  subst hview
  exact hrest

theorem settles_sample {g : FrameAccumulator × List Frame} (hg : discipline.inv g) (frame : Frame) :
    Settles system discipline g (sample frame).tail := by
  obtain ⟨acc, window⟩ := g
  obtain ⟨rfl, -⟩ : acc = accumulate window ∧ _ := hg
  refine .act rfl trivial fun s now i s' new hview h => ?_
  obtain ⟨hroom, h⟩ := Option.ite_none_right_eq_some.1 h
  obtain ⟨rfl, rfl⟩ := Prod.mk.inj (Option.some.inj h)
  obtain ⟨hacc, rfl⟩ := Prod.mk.inj hview
  rw [hacc, accumulate_frameCount] at hroom
  show Settles system discipline (s.acc.countFrame, s.window ++ [frame]) _
  rw [hacc]
  refine settles_act rfl trivial (fun acc => acc.addElapsed frame.ms) (fun _ _ _ => rfl) ?_
  refine settles_act rfl trivial (fun acc => acc.countSlow frame.ms) (fun _ _ _ => rfl) ?_
  refine settles_act rfl trivial (fun acc => acc.countHitch frame.ms) (fun _ _ _ => rfl) ?_
  refine settles_act rfl trivial (fun acc => acc.keepWorst frame.ms) (fun _ _ _ => rfl) ?_
  refine .unlock ⟨?_, ?_⟩ .done
  · simp only [accumulate_append, FrameAccumulator.sample]
  · rw [List.length_append, List.length_singleton]
    exact hroom

theorem settles_consume {g : FrameAccumulator × List Frame} (hg : discipline.inv g) :
    Settles system discipline g consume.tail := by
  refine .act rfl hg fun s now i s' new hview h => ?_
  obtain ⟨rfl, rfl⟩ := Prod.mk.inj (Option.some.inj h)
  refine settles_act rfl trivial (fun acc => { acc with frameCount := 0 }) (fun _ _ _ => rfl) ?_
  refine settles_act rfl trivial (fun acc => { acc with elapsedMs := .zero }) (fun _ _ _ => rfl) ?_
  refine settles_act rfl trivial (fun acc => { acc with slowFrames := 0 }) (fun _ _ _ => rfl) ?_
  refine settles_act rfl trivial (fun acc => { acc with hitchFrames := 0 }) (fun _ _ _ => rfl) ?_
  refine settles_act rfl trivial (fun acc => { acc with worstFrameMs := .zero }) (fun _ _ _ => rfl) ?_
  exact .unlock ⟨rfl, Nat.two_pow_pos 63⟩ (.hand _)

theorem between_act (hp : Between (.act a :: p)) (ha : before a = false)
    (h : system.act s now a i = some (s', new)) :
    Between (new ++ p) ∧ discipline.view s' = discipline.view s := by
  cases hp with
  | report frameMs =>
    simp only [system, act] at h
    split at h
    · obtain ⟨rfl, rfl⟩ := Prod.mk.inj (Option.some.inj h)
      exact ⟨.sample _, rfl⟩
    · obtain ⟨rfl, rfl⟩ := Prod.mk.inj (Option.some.inj h)
      exact ⟨.done, rfl⟩
  | hand | setConsent =>
    obtain ⟨rfl, rfl⟩ := Prod.mk.inj (Option.some.inj h)
    exact ⟨.done, rfl⟩

theorem between_program (k : Call) : Between k.program := by
  cases k with
  | reportFrame frameMs => exact .report frameMs
  | consume => exact .consume
  | setConsent granted => exact .setConsent granted

theorem disciplined : Disciplined system discipline where
  toBalanced := balanced
  lock hp hg := by
    cases hp with
    | sample frame => exact settles_sample hg frame
    | consume => exact settles_consume hg
  notifyAll hp := by cases hp
  act := between_act
  enters h := by
    obtain ⟨rfl, rfl⟩ := enter_cases h
    exact ⟨between_program _, rfl⟩

theorem started_guards (h : Started c) : Guards system discipline c := by
  have hdata : c.shared.data = { consent := c.shared.data.consent } := congrArg Shared.data h.shared
  apply guarded_start
  · exact congrArg Shared.locked h.shared
  · rw [hdata]
    exact ⟨rfl, Nat.two_pow_pos 63⟩
  · intro p hp
    rw [h.idle p hp]
    exact ⟨.nil false, .done⟩

/-! ## Where the frames are -/

/-- The frame that a thread is about to count. -/
def pendingFrame : Act → Multiset Frame
  | .act (.countFrame frame) => {frame}
  | _ => 0

def countedFrames (s : Shared Data) : Multiset Frame := (s.data.windows.flatten ++ s.data.window : List Frame)

/-- The snapshot that a drain is about to return. -/
def pendingSnapshot : Act → Multiset FrameStatsSnapshot
  | .act (.hand out) => {out}
  | _ => 0

def handedSnapshots (s : Shared Data) : Multiset FrameStatsSnapshot := s.data.snapshots

/-- No frame and no snapshot is lost or doubled. -/
structure Accounted (c : Config) : Prop where
  frames : Interleave.total countedFrames pendingFrame c = (c.shared.data.reported : Multiset Frame)
  snapshots : Interleave.total handedSnapshots pendingSnapshot c =
    (c.shared.data.windows.map fun frames => (accumulate frames).snapshot : List FrameStatsSnapshot)
  short : ∀ frames ∈ c.shared.data.windows, frames.length < 2 ^ 63

/-- An action counts the frame that it holds, and lets through the frame that it leaves. -/
theorem act_frames (h : system.act s now a i = some (s', new)) :
    ∃ added : List Frame, s'.reported = s.reported ++ added ∧
      ((s'.windows.flatten ++ s'.window : List Frame) : Multiset Frame) + (new.map pendingFrame).sum =
        ((s.windows.flatten ++ s.window : List Frame) : Multiset Frame) + pendingFrame (.act a) + added := by
  cases a with
  | report frameMs =>
    simp only [system, act] at h
    split at h
    · rename_i frame _
      obtain ⟨rfl, rfl⟩ := Prod.mk.inj (Option.some.inj h)
      exact ⟨[frame], rfl, by simp [pendingFrame, sample]⟩
    · obtain ⟨rfl, rfl⟩ := Prod.mk.inj (Option.some.inj h)
      exact ⟨[], by simp, by simp [pendingFrame]⟩
  | countFrame frame =>
    obtain ⟨-, h⟩ := Option.ite_none_right_eq_some.1 h
    obtain ⟨rfl, rfl⟩ := Prod.mk.inj (Option.some.inj h)
    refine ⟨[], by simp, ?_⟩
    simp [pendingFrame, ← List.append_assoc, ← Multiset.coe_add]
  | drain =>
    obtain ⟨rfl, rfl⟩ := Prod.mk.inj (Option.some.inj h)
    exact ⟨[], by simp, by simp [pendingFrame, reset]⟩
  | _ =>
    obtain ⟨rfl, rfl⟩ := Prod.mk.inj (Option.some.inj h)
    exact ⟨[], by simp, by simp [pendingFrame]⟩

/-- An action returns the snapshot that it holds, and a drain takes that of its window. -/
theorem act_snapshots (h : system.act s now a i = some (s', new))
    (hpre : before a = true → discipline.pre (discipline.view s) a) :
    ∃ drained : List (List Frame), s'.windows = s.windows ++ drained ∧
      (∀ frames ∈ drained, frames.length < 2 ^ 63) ∧
      (s'.snapshots : Multiset FrameStatsSnapshot) + (new.map pendingSnapshot).sum =
        (s.snapshots : Multiset FrameStatsSnapshot) + pendingSnapshot (.act a) +
          (drained.map fun frames => (accumulate frames).snapshot : List FrameStatsSnapshot) := by
  cases a with
  | report frameMs =>
    simp only [system, act] at h
    split at h
    · obtain ⟨rfl, rfl⟩ := Prod.mk.inj (Option.some.inj h)
      exact ⟨[], by simp, by simp, by simp [pendingSnapshot, sample]⟩
    · obtain ⟨rfl, rfl⟩ := Prod.mk.inj (Option.some.inj h)
      exact ⟨[], by simp, by simp, by simp [pendingSnapshot]⟩
  | countFrame frame =>
    obtain ⟨-, h⟩ := Option.ite_none_right_eq_some.1 h
    obtain ⟨rfl, rfl⟩ := Prod.mk.inj (Option.some.inj h)
    exact ⟨[], by simp, by simp, by simp [pendingSnapshot]⟩
  | drain =>
    obtain ⟨hacc, hshort⟩ := hpre rfl
    obtain ⟨rfl, rfl⟩ := Prod.mk.inj (Option.some.inj h)
    have hacc : s.acc = accumulate s.window := hacc
    refine ⟨[s.window], rfl, fun frames hframes => List.mem_singleton.1 hframes ▸ hshort, ?_⟩
    simp [pendingSnapshot, reset, hacc]
  | hand out =>
    obtain ⟨rfl, rfl⟩ := Prod.mk.inj (Option.some.inj h)
    refine ⟨[], by simp, by simp, ?_⟩
    simp [pendingSnapshot, ← Multiset.coe_add]
  | _ =>
    obtain ⟨rfl, rfl⟩ := Prod.mk.inj (Option.some.inj h)
    exact ⟨[], by simp, by simp, by simp [pendingSnapshot]⟩

/-- A step on the lock holds no frame and no snapshot. -/
theorem pending_lock {b : Act} (hb : ∀ x, b ≠ .act x) : pendingFrame b = 0 ∧ pendingSnapshot b = 0 := by
  cases b with
  | act x => exact absurd rfl (hb x)
  | _ => exact ⟨rfl, rfl⟩

theorem pending_program (k : Call) :
    (k.program.map pendingFrame).sum = 0 ∧ (k.program.map pendingSnapshot).sum = 0 := by
  cases k <;> exact ⟨rfl, rfl⟩

theorem accounted_step (hg : Guards system discipline c) (hc : Accounted c) (h : step c l = some c') :
    Accounted c' := by
  cases l with
  | exec t i =>
    obtain ⟨b, rest, u, new, ht, hp, rfl⟩ := Interleave.exec_cases h
    obtain ⟨-, ⟨a, rfl, hact⟩ | ⟨hdata, hb, hnew⟩⟩ := perform_cases hp
    · obtain ⟨added, hreported, hcounted⟩ := act_frames hact
      obtain ⟨drained, hwindows, hshort, hhanded⟩ := act_snapshots hact (hg.pre ht)
      refine ⟨?_, ?_, ?_⟩
      · rw [Interleave.total_exec_gain ht hcounted, hc.frames, hreported, ← Multiset.coe_add]
      · rw [Interleave.total_exec_gain ht hhanded, hc.snapshots, hwindows, List.map_append,
          ← Multiset.coe_add]
      · rw [hwindows]
        exact List.forall_mem_append.2 ⟨hc.short, hshort⟩
    · obtain rfl : new = [] := hnew.resolve_right fun ⟨w, _⟩ => w.elim
      obtain ⟨hnoFrame, hnoSnapshot⟩ := pending_lock hb
      have hcounted : countedFrames u = countedFrames c.shared + pendingFrame b + 0 := by
        rw [hnoFrame, add_zero, add_zero, countedFrames, countedFrames, hdata]
      have hhanded : handedSnapshots u = handedSnapshots c.shared + pendingSnapshot b + 0 := by
        rw [hnoSnapshot, add_zero, add_zero, handedSnapshots, handedSnapshots, hdata]
      refine ⟨?_, ?_, hdata ▸ hc.short⟩
      · rw [Interleave.total_exec_gain ht ((add_zero _).trans hcounted), hc.frames, hdata, add_zero]
      · rw [Interleave.total_exec_gain ht ((add_zero _).trans hhanded), hc.snapshots, hdata, add_zero]
  | call t k => exact k.elim
  | env ev =>
    cases ev with
    | tick elapsed =>
      obtain rfl := tick_cases h
      exact ⟨hc.frames, hc.snapshots, hc.short⟩
    | enter t k =>
      obtain ⟨s', new, ht, hk, rfl⟩ := Monitor.enter_cases h
      obtain ⟨rfl, rfl⟩ := enter_cases hk
      obtain ⟨hnoFrame, hnoSnapshot⟩ := pending_program k
      refine ⟨?_, ?_, hc.short⟩
      · rw [Interleave.total_call_gain ht (congrArg (countedFrames c.shared + ·) hnoFrame), hc.frames,
          add_zero]
      · rw [Interleave.total_call_gain ht (congrArg (handedSnapshots c.shared + ·) hnoSnapshot),
          hc.snapshots, add_zero]

theorem started_accounted (h : Started c) : Accounted c := by
  have hdata : c.shared.data = { consent := c.shared.data.consent } := congrArg Shared.data h.shared
  have hnone {G : Type} [AddCommMonoid G] (w : Act → G) :
      (c.threads.map fun p => (p.map w).sum).sum = 0 := by
    refine Interleave.sum_map_eq_zero fun p hp => ?_
    rw [h.idle p hp]
    rfl
  refine ⟨?_, ?_, ?_⟩
  · rw [Interleave.total, hnone, hdata, countedFrames, hdata]
    rfl
  · rw [Interleave.total, hnone, hdata, handedSnapshots, hdata]
    rfl
  · rw [hdata]
    simp

theorem reachable_accounted (h : Reachable c) : Guards system discipline c ∧ Accounted c := by
  obtain ⟨c₀, ls, hstart, hrun⟩ := h
  have hstep : ∀ d (l : Label) d', Guards system discipline d ∧ Accounted d → step d l = some d' →
      Guards system discipline d' ∧ Accounted d' :=
    fun _ _ _ hd hs => ⟨guarded_step disciplined hd.1 hs, accounted_step hd.1 hd.2 hs⟩
  exact Run.run_inv hstep ⟨started_guards hstart, started_accounted hstart⟩ hrun

/-- **No frame is lost or counted twice.** In every state of every run:

1. the frames that were let through are those of the drains, those since the last drain, and those
   that a thread is about to count;
2. what the drains have returned or are about to return are the snapshots of their windows, one each;
3. while the lock is free, the accumulator holds what the frames since the last drain add up to. -/
theorem frames_counted_once (h : Reachable c) :
    Interleave.total countedFrames pendingFrame c = (c.shared.data.reported : Multiset Frame) ∧
      Interleave.total handedSnapshots pendingSnapshot c =
        (c.shared.data.windows.map fun frames => (accumulate frames).snapshot : List FrameStatsSnapshot) ∧
      (c.shared.locked = false → c.shared.data.acc = accumulate c.shared.data.window) := by
  obtain ⟨hguards, hc⟩ := reachable_accounted h
  exact ⟨hc.frames, hc.snapshots, fun hfree => (hguards.free hfree).1⟩

/-- Two threads; nothing has been reported. -/
def quiet : Config := ⟨{ data := {} }, [[], []]⟩

theorem started_quiet : Started quiet := ⟨rfl, by simp [quiet]⟩

/-- The first thread is at a frame of 20 ms when the second one comes to drain. -/
def meets : List Label :=
  [.env (.enter 0 (.reportFrame ⟨0x4034000000000000⟩)), .exec 0 ((), false), .env (.enter 1 .consume)] ++
    List.replicate 7 (.exec 0 ((), false)) ++ List.replicate 9 (.exec 1 ((), false))

theorem frames_counted_once_meets : ∃ c, Run.run step quiet meets = some c ∧
    c.shared.data.reported.length = 1 ∧ c.shared.data.acc = accumulate c.shared.data.window := by
  have hrun : (Run.run step quiet meets).map (fun c => (c.shared.data.reported.length, c.shared.locked)) =
      some (1, false) := by
    decide +kernel
  obtain ⟨c, hc, hend⟩ := Option.map_eq_some_iff.1 hrun
  obtain ⟨hreported, hfree⟩ := Prod.mk.inj hend
  exact ⟨c, hc, hreported, (frames_counted_once ⟨_, _, started_quiet, hc⟩).2.2 hfree⟩

/-- **Every beat tells the truth about its window.** Each snapshot that `consume` returns is that of the
frames of one drain; if there are any, its numbers are finite and within the limits of the wire. -/
theorem snapshots_describe (h : Reachable c) {out : FrameStatsSnapshot}
    (hout : out ∈ c.shared.data.snapshots) : ∃ frames ∈ c.shared.data.windows, out.Describes frames ∧
      (out.valid = true → ∃ f : FilledRuns.Frames,
        out.fpsAvg.map Double.ofMagnitude = some f.fpsAvg ∧
          out.slowFramePct.map Double.ofMagnitude = some f.slowFramePct ∧ f.hitchCount = out.hitchCount ∧
          f.worstFrameMs = out.worstFrameMs ∧ 0 ≤ f.hitchCount ∧ f.hitchCount ≤ maxHitchCount ∧
          0 ≤ f.worstFrameMs ∧ f.worstFrameMs ≤ maxWorstFrameMs) := by
  obtain ⟨-, hc⟩ := reachable_accounted h
  have hmem : out ∈ Interleave.total handedSnapshots pendingSnapshot c := Interleave.mem_total.2 (.inl hout)
  rw [hc.snapshots, Multiset.mem_coe] at hmem
  obtain ⟨frames, hframes, rfl⟩ := List.mem_map.1 hmem
  have hdescribes := snapshot_describes (hc.short frames hframes)
  exact ⟨frames, hframes, hdescribes, fun hvalid => hdescribes.wire (hdescribes.valid.1 hvalid)⟩

theorem snapshots_describe_meets : ∃ c out frames, Run.run step quiet meets = some c ∧
    out ∈ c.shared.data.snapshots ∧ out.valid = true ∧ out.Describes frames := by
  have hrun : (Run.run step quiet meets).map (fun c => c.shared.data.snapshots.map (·.valid)) =
      some [true] := by
    decide +kernel
  obtain ⟨c, hc, hend⟩ := Option.map_eq_some_iff.1 hrun
  obtain ⟨out, hout, hvalid⟩ := List.mem_map.1 (hend ▸ List.mem_singleton_self true)
  obtain ⟨frames, -, hdescribes, -⟩ := snapshots_describe ⟨_, _, started_quiet, hc⟩ hout
  exact ⟨c, out, frames, hc, hout, hvalid, hdescribes⟩

end Tombstone.FrameWindows
