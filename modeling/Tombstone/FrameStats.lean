import Mathlib.Algebra.Order.Floor.Ring
import Mathlib.Data.Rat.Floor
import Tombstone.FilledRuns
import Tombstone.NearestEven

/- The frame statistics of a heartbeat interval (`frame_stats.h`, `frame_stats.cpp`).

   The accumulator is fed the duration of every frame, and drained into a snapshot for each beat.
   Its arithmetic is that of doubles, which it only ever meets as numbers that are not negative:
   `sample` ignores any other duration. The statements of `sample` are functions of their own here,
   so that they can be taken one at a time. -/
namespace Tombstone
open NearestEven

/-- The doubles that are not negative; the patterns are their bits. -/
def doubles : Grid ℚ := binary ℚ 52 11

abbrev Magnitude := Point doubles

/-- A duration that counts: `std::isfinite(frame_ms)`, and not `frame_ms <= 0.0`. -/
structure Frame where
  ms : Magnitude
  pos : Point.zero < ms
  finite : ms < Point.infinity

theorem Double.lt_top {d : Double} (h : d.finitePositive = true) : d.bits.toNat < doubles.top :=
  UInt64.lt_iff_toNat_lt.1 (of_decide_eq_true h).2

/-- What `sample` makes of a duration. -/
def Double.frame? (d : Double) : Option Frame :=
  if h : d.finitePositive = true then
    some ⟨⟨d.bits.toNat, (Double.lt_top h).le⟩, UInt64.lt_iff_toNat_lt.1 (of_decide_eq_true h).1,
      Double.lt_top h⟩
  else none

/-- The double of a number, by its bits. -/
def Double.ofMagnitude (m : Magnitude) : Double := ⟨UInt64.ofNat m.index⟩

namespace FrameAccumulator

def slowFrameMs : Magnitude := .ofExact 33.4
def hitchFrameMs : Magnitude := .ofExact 250
def maxFps : Magnitude := .ofExact 1000
def maxHitchCount : Nat := 1000000
def maxWorstFrameMs : Int := 10000000

end FrameAccumulator

structure FrameAccumulator where
  frameCount : Nat := 0
  elapsedMs : Magnitude := .zero
  slowFrames : Nat := 0
  hitchFrames : Nat := 0
  worstFrameMs : Magnitude := .zero

/-- `FrameStatsSnapshot`; `none` stands for a result that is not a number. -/
structure FrameStatsSnapshot where
  valid : Bool := false
  fpsAvg : Option Magnitude := some .zero
  slowFramePct : Option Magnitude := some .zero
  hitchCount : Int := 0
  worstFrameMs : Int := 0

namespace FrameAccumulator

/-! ## The statements of `sample` -/

def countFrame (acc : FrameAccumulator) : FrameAccumulator := { acc with frameCount := acc.frameCount + 1 }

def addElapsed (acc : FrameAccumulator) (frameMs : Magnitude) : FrameAccumulator :=
  { acc with elapsedMs := acc.elapsedMs.add frameMs }

def countSlow (acc : FrameAccumulator) (frameMs : Magnitude) : FrameAccumulator :=
  if slowFrameMs < frameMs then { acc with slowFrames := acc.slowFrames + 1 } else acc

def countHitch (acc : FrameAccumulator) (frameMs : Magnitude) : FrameAccumulator :=
  if hitchFrameMs < frameMs ∧ acc.hitchFrames < maxHitchCount then
    { acc with hitchFrames := acc.hitchFrames + 1 }
  else acc

def keepWorst (acc : FrameAccumulator) (frameMs : Magnitude) : FrameAccumulator :=
  if acc.worstFrameMs < frameMs then { acc with worstFrameMs := frameMs } else acc

/-- `FrameAccumulator::sample`, for a duration that counts. -/
def sample (acc : FrameAccumulator) (frameMs : Magnitude) : FrameAccumulator :=
  ((((acc.countFrame).addElapsed frameMs).countSlow frameMs).countHitch frameMs).keepWorst frameMs

/-! ## `consume` -/

/-- `if (x > max) x = max`, which leaves what is not a number as it is. -/
def capped (max : Magnitude) (x : Option Magnitude) : Option Magnitude :=
  x.map fun x => if max < x then max else x

/-- What `consume` returns. -/
def snapshot (acc : FrameAccumulator) : FrameStatsSnapshot :=
  if 0 < acc.frameCount ∧ Point.zero < acc.elapsedMs then
    let frames : Magnitude := .ofExact acc.frameCount
    let slow : Magnitude := .ofExact acc.slowFrames
    let maxWorst : Magnitude := .ofExact maxWorstFrameMs
    { valid := true
      fpsAvg := capped maxFps ((frames.mul (.ofExact 1000)).bind fun total => total.div acc.elapsedMs)
      slowFramePct := capped (.ofExact 100) ((slow.mul (.ofExact 100)).bind fun total => total.div frames)
      hitchCount := acc.hitchFrames
      worstFrameMs := ⌊(if maxWorst < acc.worstFrameMs then maxWorst else acc.worstFrameMs).value⌋ }
  else {}

/-- The accumulator after these frames. -/
def accumulate (frames : List Frame) : FrameAccumulator :=
  frames.foldl (fun acc frame => acc.sample frame.ms) {}

/-! ## What the frames of a window add up to -/

variable {acc : FrameAccumulator} {m : Magnitude} {frames : List Frame}

@[simp] theorem sample_frameCount : (acc.sample m).frameCount = acc.frameCount + 1 := by
  simp only [sample, keepWorst, countHitch, countSlow, addElapsed, countFrame]
  split_ifs <;> rfl

@[simp] theorem sample_elapsedMs : (acc.sample m).elapsedMs = acc.elapsedMs.add m := by
  simp only [sample, keepWorst, countHitch, countSlow, addElapsed, countFrame]
  split_ifs <;> rfl

@[simp] theorem sample_slowFrames :
    (acc.sample m).slowFrames = acc.slowFrames + if slowFrameMs < m then 1 else 0 := by
  simp only [sample, keepWorst, countHitch, countSlow, addElapsed, countFrame]
  split_ifs <;> rfl

@[simp] theorem sample_hitchFrames : (acc.sample m).hitchFrames =
    acc.hitchFrames + if hitchFrameMs < m ∧ acc.hitchFrames < maxHitchCount then 1 else 0 := by
  simp only [sample, keepWorst, countHitch, countSlow, addElapsed, countFrame]
  split_ifs <;> rfl

@[simp] theorem sample_worstFrameMs : (acc.sample m).worstFrameMs = max acc.worstFrameMs m := by
  have hsame : ((((acc.countFrame).addElapsed m).countSlow m).countHitch m).worstFrameMs =
      acc.worstFrameMs := by
    simp only [countHitch, countSlow, addElapsed, countFrame]
    split_ifs <;> rfl
  rw [sample, keepWorst, hsame]
  split
  · rename_i hworse
    exact (max_eq_right hworse.le).symm
  · rename_i hkept
    exact hsame.trans (max_eq_left (not_lt.1 hkept)).symm

theorem accumulate_append (frames : List Frame) (frame : Frame) :
    accumulate (frames ++ [frame]) = (accumulate frames).sample frame.ms := by
  simp [accumulate]

theorem accumulate_frameCount (frames : List Frame) : (accumulate frames).frameCount = frames.length := by
  induction frames using List.reverseRecOn with
  | nil => rfl
  | append_singleton frames frame ih =>
    rw [accumulate_append, sample_frameCount, ih, List.length_append, List.length_singleton]

theorem accumulate_slowFrames (frames : List Frame) :
    (accumulate frames).slowFrames = frames.countP fun frame => slowFrameMs < frame.ms := by
  induction frames using List.reverseRecOn with
  | nil => rfl
  | append_singleton frames frame ih =>
    rw [accumulate_append, sample_slowFrames, ih, List.countP_append, List.countP_singleton]
    simp only [decide_eq_true_eq]

theorem accumulate_hitchFrames (frames : List Frame) : (accumulate frames).hitchFrames =
    min (frames.countP fun frame => hitchFrameMs < frame.ms) maxHitchCount := by
  induction frames using List.reverseRecOn with
  | nil => rfl
  | append_singleton frames frame ih =>
    rw [accumulate_append, sample_hitchFrames, ih, List.countP_append, List.countP_singleton]
    by_cases hhitch : hitchFrameMs < frame.ms
    · simp only [hhitch, true_and, decide_true, if_true]
      split <;> omega
    · simp only [hhitch, false_and, decide_false, Bool.false_eq_true, if_false]
      omega

theorem accumulate_elapsedMs_pos (h : frames ≠ []) : Point.zero < (accumulate frames).elapsedMs := by
  rcases List.eq_nil_or_concat' frames with rfl | ⟨frames, frame, rfl⟩
  · exact absurd rfl h
  · rw [accumulate_append, sample_elapsedMs]
    exact frame.pos.trans_le (Point.le_add _ _)

theorem le_accumulate_worstFrameMs : ∀ frame ∈ frames, frame.ms ≤ (accumulate frames).worstFrameMs := by
  induction frames using List.reverseRecOn with
  | nil => simp
  | append_singleton frames last ih =>
    intro frame hframe
    rw [accumulate_append, sample_worstFrameMs]
    rcases List.mem_append.1 hframe with hold | hlast
    · exact (ih frame hold).trans (le_max_left _ _)
    · rw [List.mem_singleton.1 hlast]
      exact le_max_right _ _

theorem accumulate_worstFrameMs (h : frames ≠ []) :
    ∃ frame ∈ frames, (accumulate frames).worstFrameMs = frame.ms := by
  induction frames using List.reverseRecOn with
  | nil => exact absurd rfl h
  | append_singleton frames last ih =>
    rw [accumulate_append, sample_worstFrameMs]
    rcases max_choice (accumulate frames).worstFrameMs last.ms with hkept | hnew
    · rcases eq_or_ne frames [] with rfl | hne
      · refine ⟨last, by simp, max_eq_right ?_⟩
        exact last.pos.le
      · obtain ⟨frame, hframe, hworst⟩ := ih hne
        exact ⟨frame, List.mem_append_left _ hframe, hkept.trans hworst⟩
    · exact ⟨last, by simp, hnew⟩

/-! ## The wire contract -/

/-- A whole number that fits in the fraction is a double. -/
theorem ofExact_natCast {n : ℕ} (hn : n < 2 ^ 53) :
    (Point.ofExact (n : ℚ) : Magnitude) < Point.infinity ∧ (Point.ofExact (n : ℚ) : Magnitude).value = n := by
  obtain ⟨a, hfinite, hvalue⟩ := exists_value ℚ (p := 52) (e := 11) (j := 0) hn (by decide)
  rw [pow_zero, mul_one] at hvalue
  have hsame : (Point.ofExact (n : ℚ) : Magnitude) = a := by
    rw [← hvalue]
    exact Point.ofExact_value a
  rw [hsame]
  exact ⟨hfinite, hvalue⟩

/-- What is no larger than that, times a power of two, is not rounded to infinity. -/
theorem ofExact_lt_infinity {x : ℚ} (n j : ℕ) (hn : n < 2 ^ 53) (hj : j < 970) (hx : 0 ≤ x)
    (hle : x ≤ n * 2 ^ j) : (Point.ofExact x : Magnitude) < Point.infinity ∧
      (Point.ofExact x : Magnitude).value ≤ n * 2 ^ j := by
  obtain ⟨a, hfinite, hvalue⟩ := exists_value ℚ (p := 52) (e := 11) (j := j) hn (by norm_num; omega)
  have hbelow : (Point.ofExact x : Magnitude) ≤ a := Point.ofExact_le hx (hle.trans_eq hvalue.symm)
  exact ⟨hbelow.trans_lt hfinite, hvalue ▸ Point.value_le.2 hbelow⟩

theorem capped_some (max x : Magnitude) : capped max (some x) = some (min x max) := by
  rw [capped, Option.map_some, min_def]
  congr 1
  split_ifs <;> first | rfl | exact le_antisymm (by order) (by order)

/-- A count times a small number, by a number above zero: an average or a percentage. -/
theorem ratio_isSome {count k : ℕ} {per : Magnitude} (hcount : count < 2 ^ 63) (hk : k < 2 ^ 53)
    (hper : Point.zero < per) : ∃ q : Magnitude,
      (((Point.ofExact (count : ℚ) : Magnitude).mul (.ofExact (k : ℚ))).bind fun total => total.div per) =
        some q := by
  have hle : (count : ℚ) ≤ ((1 : ℕ) : ℚ) * 2 ^ 63 := by
    rw [Nat.cast_one, one_mul]
    exact_mod_cast hcount.le
  obtain ⟨hfinite, hbound⟩ := ofExact_lt_infinity 1 63 (by norm_num) (by norm_num) (Nat.cast_nonneg count) hle
  obtain ⟨hkfinite, hkvalue⟩ := ofExact_natCast hk
  rw [Point.mul_finite hfinite hkfinite, Option.bind_some, hkvalue]
  apply Point.div_isSome _ hper
  refine (ofExact_lt_infinity k 63 hk (by norm_num) ?_ ?_).1
  · exact mul_nonneg (Point.value_nonneg _) (Nat.cast_nonneg k)
  · calc (Point.ofExact (count : ℚ) : Magnitude).value * k ≤ ((1 : ℕ) : ℚ) * 2 ^ 63 * k :=
          mul_le_mul_of_nonneg_right hbound (Nat.cast_nonneg k)
      _ = k * 2 ^ 63 := by ring

/-- Where nothing is lost on the way, it is the exact ratio, rounded once. -/
theorem ratio_eq {count k : ℕ} {per : Magnitude} (hcount : count < 2 ^ 53) (hk : k < 2 ^ 53)
    (htotal : count * k < 2 ^ 53) (hper : Point.zero < per) (hfinite : per < Point.infinity) :
    (((Point.ofExact (count : ℚ) : Magnitude).mul (.ofExact (k : ℚ))).bind fun total => total.div per) =
      some (.ofExact (count * k / per.value)) := by
  obtain ⟨hleft, hcountValue⟩ := ofExact_natCast hcount
  obtain ⟨hright, hkValue⟩ := ofExact_natCast hk
  obtain ⟨hproduct, hvalue⟩ := ofExact_natCast htotal
  rw [Nat.cast_mul] at hproduct hvalue
  rw [Point.mul_finite hleft hright, hcountValue, hkValue, Option.bind_some, Point.div, if_neg hproduct.ne,
    if_neg hfinite.ne, if_neg hper.ne', hvalue]

end FrameAccumulator

open FrameAccumulator

/-- **What a beat says about the frames of its window.** The rates are right to the last bit as long as
counts times 1000, or times 100, are exact; nothing ever exceeds what the server takes. -/
structure FrameStatsSnapshot.Describes (frames : List Frame) (s : FrameStatsSnapshot) : Prop where
  valid : s.valid = true ↔ frames ≠ []
  fpsAvg : ∃ fps, s.fpsAvg = some fps ∧ fps ≤ maxFps
  fpsAvg_eq : frames ≠ [] → frames.length * 1000 < 2 ^ 53 → (accumulate frames).elapsedMs < Point.infinity →
    s.fpsAvg = some (min (.ofExact (frames.length * 1000 / (accumulate frames).elapsedMs.value)) maxFps)
  slowFramePct : ∃ pct, s.slowFramePct = some pct ∧ pct ≤ .ofExact 100
  slowFramePct_eq : frames ≠ [] → frames.length * 100 < 2 ^ 53 → s.slowFramePct =
    some (.ofExact ((frames.countP fun frame => slowFrameMs < frame.ms) * 100 / frames.length))
  hitchCount : s.hitchCount = min (frames.countP fun frame => hitchFrameMs < frame.ms) maxHitchCount
  worstFrameMs : frames ≠ [] → ∃ worst ∈ frames, (∀ frame ∈ frames, frame.ms ≤ worst.ms) ∧
    s.worstFrameMs = min ⌊worst.ms.value⌋ maxWorstFrameMs

variable {frames : List Frame}

/-- The condition that `consume` tests. -/
theorem accumulate_sampled (h : frames ≠ []) :
    0 < (accumulate frames).frameCount ∧ Point.zero < (accumulate frames).elapsedMs := by
  refine ⟨?_, accumulate_elapsedMs_pos h⟩
  rw [accumulate_frameCount]
  exact List.length_pos_of_ne_nil h

theorem snapshot_fpsAvg (h : frames ≠ []) : (accumulate frames).snapshot.fpsAvg =
    capped maxFps (((Point.ofExact (frames.length : ℚ) : Magnitude).mul (.ofExact ((1000 : ℕ) : ℚ))).bind
      fun total => total.div (accumulate frames).elapsedMs) := by
  rw [snapshot, if_pos (accumulate_sampled h), accumulate_frameCount, Nat.cast_ofNat]

theorem snapshot_slowFramePct (h : frames ≠ []) : (accumulate frames).snapshot.slowFramePct =
    capped (.ofExact 100) (((Point.ofExact ((frames.countP fun frame => slowFrameMs < frame.ms : ℕ) : ℚ) :
      Magnitude).mul (.ofExact ((100 : ℕ) : ℚ))).bind
        fun total => total.div (.ofExact (frames.length : ℚ))) := by
  rw [snapshot, if_pos (accumulate_sampled h), accumulate_frameCount, accumulate_slowFrames, Nat.cast_ofNat]

/-- There is a double above zero for the number of frames. -/
theorem ofExact_length_pos (h : frames ≠ []) :
    Point.zero < (Point.ofExact (frames.length : ℚ) : Magnitude) := by
  have hone : Point.zero < (Point.ofExact ((1 : ℕ) : ℚ) : Magnitude) := by
    rw [← not_le, ← Point.value_le, (ofExact_natCast (by norm_num)).2, Point.value_zero]
    norm_num
  apply hone.trans_le
  apply Point.ofExact_mono
  · exact Nat.cast_nonneg 1
  · exact Nat.cast_le.2 (List.length_pos_of_ne_nil h)

theorem snapshot_worstFrameMs (h : frames ≠ []) : ∃ worst ∈ frames,
    (∀ frame ∈ frames, frame.ms ≤ worst.ms) ∧
      (accumulate frames).snapshot.worstFrameMs = min ⌊worst.ms.value⌋ maxWorstFrameMs := by
  obtain ⟨worst, hmem, hworst⟩ := accumulate_worstFrameMs h
  refine ⟨worst, hmem, fun frame hframe => hworst ▸ le_accumulate_worstFrameMs frame hframe, ?_⟩
  have hlimit : (Point.ofExact (maxWorstFrameMs : ℚ) : Magnitude).value = maxWorstFrameMs := by
    have hvalue := (ofExact_natCast (n := 10000000) (by norm_num)).2
    exact_mod_cast hvalue
  rw [snapshot, if_pos (accumulate_sampled h), hworst]
  dsimp only
  split
  · rename_i hover
    rw [hlimit, Int.floor_intCast, min_eq_right]
    rw [Int.le_floor, ← hlimit]
    exact Point.value_le.2 hover.le
  · rename_i hunder
    refine (min_eq_left ?_).symm
    rw [Int.floor_le_iff, ← hlimit]
    calc worst.ms.value ≤ _ := Point.value_le.2 (not_lt.1 hunder)
      _ < _ := lt_add_one _

/-- The snapshot of an interval without frames. -/
theorem describes_nil : FrameStatsSnapshot.Describes [] {} where
  valid := by simp
  fpsAvg := ⟨_, rfl, Point.zero_le _⟩
  fpsAvg_eq h := absurd rfl h
  slowFramePct := ⟨_, rfl, Point.zero_le _⟩
  slowFramePct_eq h := absurd rfl h
  hitchCount := rfl
  worstFrameMs h := absurd rfl h

/-- The share of the slow frames that are among `n` is no more than all of them. -/
theorem percent_le {c n : ℕ} (h : c ≤ n) : (c : ℚ) * 100 / n ≤ 100 := by
  apply div_le_of_le_mul₀ (Nat.cast_nonneg n) (by norm_num)
  rw [mul_comm (100 : ℚ)]
  exact mul_le_mul_of_nonneg_right (Nat.cast_le.2 h) (by norm_num)

theorem snapshot_describes (hlength : frames.length < 2 ^ 63) :
    (accumulate frames).snapshot.Describes frames := by
  rcases eq_or_ne frames [] with rfl | hne
  · exact describes_nil
  have hslow : (frames.countP fun frame => slowFrameMs < frame.ms) ≤ frames.length := List.countP_le_length
  have hvalid : (accumulate frames).snapshot.valid = true := by
    rw [snapshot, if_pos (accumulate_sampled hne)]
  refine ⟨iff_of_true hvalid hne, ?_, fun _ hexact hfinite => ?_, ?_, fun _ hexact => ?_, ?_,
    fun _ => snapshot_worstFrameMs hne⟩
  · obtain ⟨fps, hfps⟩ := ratio_isSome hlength (k := 1000) (by norm_num) (accumulate_elapsedMs_pos hne)
    rw [snapshot_fpsAvg hne, hfps, capped_some]
    exact ⟨_, rfl, min_le_right _ _⟩
  · have hcount : frames.length < 2 ^ 53 := by omega
    rw [snapshot_fpsAvg hne, ratio_eq hcount (by norm_num) hexact (accumulate_elapsedMs_pos hne) hfinite,
      capped_some, Nat.cast_ofNat]
  · obtain ⟨pct, hpct⟩ := ratio_isSome (hslow.trans_lt hlength) (k := 100) (by norm_num)
      (ofExact_length_pos hne)
    rw [snapshot_slowFramePct hne, hpct, capped_some]
    exact ⟨_, rfl, min_le_right _ _⟩
  · obtain ⟨hfinite, hvalue⟩ := ofExact_natCast (n := frames.length) (by omega)
    rw [snapshot_slowFramePct hne, ratio_eq (by omega) (by norm_num) (by omega) (ofExact_length_pos hne) hfinite,
      capped_some, hvalue, Nat.cast_ofNat, min_eq_left]
    apply Point.ofExact_mono
    · exact div_nonneg (mul_nonneg (Nat.cast_nonneg _) (by norm_num)) (Nat.cast_nonneg _)
    · exact percent_le hslow
  · rw [snapshot, if_pos (accumulate_sampled hne), accumulate_hitchFrames]

/-! ## What a beat takes -/

theorem Double.isFinite_ofMagnitude {m : Magnitude} (h : m < Point.infinity) :
    (Double.ofMagnitude m).isFinite = true := by
  have hlt : m.index < 0x7FF0000000000000 := h
  rcases Nat.eq_zero_or_pos m.index with hzero | hpos
  · rw [Double.ofMagnitude, hzero]
    decide
  · apply Double.isFinite_of_finitePositive
    have hbits : (UInt64.ofNat m.index).toNat = m.index := UInt64.toNat_ofNat_of_lt' (hlt.trans (by decide))
    apply decide_eq_true
    rw [Double.ofMagnitude, UInt64.lt_iff_toNat_lt, UInt64.lt_iff_toNat_lt, hbits]
    exact ⟨hpos, hlt⟩

/-- What a snapshot says can go on the wire: its rates are finite, and all of it is within the limits. -/
theorem FrameStatsSnapshot.Describes.wire {s : FrameStatsSnapshot} (h : s.Describes frames)
    (hne : frames ≠ []) : ∃ f : FilledRuns.Frames, s.fpsAvg.map Double.ofMagnitude = some f.fpsAvg ∧
      s.slowFramePct.map Double.ofMagnitude = some f.slowFramePct ∧ f.hitchCount = s.hitchCount ∧
      f.worstFrameMs = s.worstFrameMs ∧ 0 ≤ f.hitchCount ∧ f.hitchCount ≤ maxHitchCount ∧
      0 ≤ f.worstFrameMs ∧ f.worstFrameMs ≤ maxWorstFrameMs := by
  obtain ⟨fps, hfps, hfpsLimit⟩ := h.fpsAvg
  obtain ⟨pct, hpct, hpctLimit⟩ := h.slowFramePct
  obtain ⟨worst, -, -, hworst⟩ := h.worstFrameMs hne
  have hmaxFps : maxFps < Point.infinity := (ofExact_natCast (n := 1000) (by norm_num)).1
  have hmaxPct : (Point.ofExact 100 : Magnitude) < Point.infinity :=
    (ofExact_natCast (n := 100) (by norm_num)).1
  refine ⟨⟨_, _, s.hitchCount, s.worstFrameMs, Double.isFinite_ofMagnitude (hfpsLimit.trans_lt hmaxFps),
    Double.isFinite_ofMagnitude (hpctLimit.trans_lt hmaxPct)⟩, ?_, ?_, rfl, rfl, ?_⟩
  · rw [hfps, Option.map_some]
  · rw [hpct, Option.map_some]
  · dsimp only
    rw [h.hitchCount, hworst]
    refine ⟨Nat.cast_nonneg _, ?_, le_min ?_ (by decide), min_le_right _ _⟩
    · exact Nat.cast_le.2 (min_le_right _ _)
    · exact Int.floor_nonneg.2 (Point.value_nonneg _)

end Tombstone
