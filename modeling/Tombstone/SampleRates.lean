import Tombstone.BoundedTable
import Tombstone.Captures

/- The keep rates that the host sets (`sampler.h`, `sampler.cpp`, `client_reports.cpp`:
   `set_sample_rate`).

   A rate is clamped and kept by name, in a table that drops a new name once it is full. Rates and
   rolls are doubles, compared as such: nothing is below or above what is not a number. -/
namespace Tombstone

def Double.zero : Double := ⟨0⟩
def Double.one : Double := ⟨0x3FF0000000000000⟩

def Double.isNan (d : Double) : Bool := decide (0x7FF0000000000000 < d.bits &&& 0x7FFFFFFFFFFFFFFF)

/-- Where a number stands among the doubles; the two zeros stand in one place. -/
def Double.rank (d : Double) : Int :=
  if d.bits < 0x8000000000000000 then d.bits.toNat else 0x8000000000000000 - d.bits.toNat

/-- `a < b`. -/
def Double.less (a b : Double) : Bool := !a.isNan && !b.isNan && decide (a.rank < b.rank)

/-- `a <= b`. -/
def Double.atMost (a b : Double) : Bool := !a.isNan && !b.isNan && decide (a.rank ≤ b.rank)

namespace Sampler

def maxEntries : Nat := 256

/-- `std::clamp(rate, 0.0, 1.0)`. -/
def clampedRate (rate : Double) : Double :=
  if rate.less .zero then .zero else if Double.one.less rate then .one else rate

/-- `Sampler::set_rate`. -/
def setRate (s : Sampler) (name : Bytes) (rate : Double) : Sampler :=
  if name.isEmpty then s
  else { rates := BoundedTable.put maxEntries s.rates (name, clampedRate rate) }

/-- `Sampler::keep`. -/
def keep (rate roll : Double) : Bool := roll.less rate

/-- What `should_keep` makes of a rate that it finds, with this roll of the engine. -/
def rolled (roll rate : Double) : Bool :=
  if Double.one.atMost rate then true
  else if rate.atMost .zero then false
  else keep rate roll

/-- `Client::set_sample_rate`. -/
def setSampleRate (s : Sampler) (call : CString × Double) : Sampler :=
  if CString.blank call.1 then s else s.setRate (call.1.getD []) call.2

variable {s : Sampler} {name : Bytes} {rate roll : Double} {calls : List (CString × Double)}

theorem shouldKeep_eq (s : Sampler) (name : Bytes) (decides : Double → Bool) :
    s.shouldKeep name decides = (s.rates.lookup name).all decides := by
  unfold shouldKeep
  cases s.rates.lookup name <;> rfl

/-! ## What is set -/

/-- A rate between zero and one, or none that is a number. -/
def InRange (rate : Double) : Prop := rate.less .zero = false ∧ Double.one.less rate = false

theorem inRange_clampedRate (rate : Double) : InRange (clampedRate rate) := by
  unfold clampedRate
  split_ifs with hneg hbig
  · exact ⟨by decide, by decide⟩
  · exact ⟨by decide, by decide⟩
  · exact ⟨Bool.eq_false_iff.2 hneg, Bool.eq_false_iff.2 hbig⟩

theorem less_iff {a b : Double} : a.less b = true ↔ a.isNan = false ∧ b.isNan = false ∧ a.rank < b.rank := by
  simp [Double.less, and_assoc]

theorem atMost_iff {a b : Double} :
    a.atMost b = true ↔ a.isNan = false ∧ b.isNan = false ∧ a.rank ≤ b.rank := by
  simp [Double.atMost, and_assoc]

/-- What is below zero is kept as rarely as zero, and what is above one as often as one. -/
theorem rolled_clampedRate (roll rate : Double) : rolled roll (clampedRate rate) = rolled roll rate := by
  have hzero : Double.zero.rank < Double.one.rank := by decide
  unfold clampedRate
  split_ifs with hneg hbig
  · obtain ⟨hrate, hnan, hlt⟩ := less_iff.1 hneg
    have hsmall : ¬ Double.one.atMost rate = true := fun h => by
      obtain ⟨-, -, hle⟩ := atMost_iff.1 h
      omega
    have hdrop : rate.atMost .zero = true := atMost_iff.2 ⟨hrate, hnan, Int.le_of_lt hlt⟩
    rw [rolled, rolled, if_neg hsmall, if_pos hdrop, if_neg (by decide), if_pos (by decide)]
  · obtain ⟨hnan, hrate, hlt⟩ := less_iff.1 hbig
    have hkeep : Double.one.atMost rate = true := atMost_iff.2 ⟨hnan, hrate, Int.le_of_lt hlt⟩
    rw [rolled, rolled, if_pos hkeep, if_pos (by decide)]
  · rfl

/-! ## After any calls -/

/-- The calls that name a stream. -/
def named (calls : List (CString × Double)) : List (Bytes × Double) :=
  (calls.filter fun c => !CString.blank c.1).map fun c => (c.1.getD [], c.2)

/-- The streams that there is room for: the first ones that were named. -/
def heard (calls : List (CString × Double)) : List Bytes :=
  ((named calls).map Prod.fst).eraseDups.take maxEntries

/-- The rate that was last set for a stream. -/
def lastRate (calls : List (CString × Double)) (name : Bytes) : Option Double :=
  (named calls).reverse.lookup name

def entry (e : Bytes × Double) : Bytes × Double := (e.1, clampedRate e.2)

theorem named_concat (call : CString × Double) : named (calls ++ [call]) =
    named calls ++ if CString.blank call.1 then [] else [(call.1.getD [], call.2)] := by
  unfold named
  rw [List.filter_append, List.map_append]
  cases hblank : CString.blank call.1 <;> simp [hblank]

/-- The rates are those of a bounded table. -/
theorem rates_eq (calls : List (CString × Double)) :
    (calls.foldl setSampleRate {}).rates = BoundedTable.filled maxEntries ((named calls).map entry) := by
  induction calls using List.reverseRecOn with
  | nil => rfl
  | append_singleton calls call ih =>
    rw [List.foldl_append, List.foldl_cons, List.foldl_nil, named_concat]
    generalize calls.foldl setSampleRate {} = s at ih
    unfold setSampleRate
    split_ifs with hblank
    · rw [List.append_nil, ih]
    · have hname : ¬ (call.1.getD []).isEmpty = true := hblank
      rw [setRate, if_neg hname, ih, List.map_append]
      exact (BoundedTable.filled_concat _).symm

theorem keys_entry (es : List (Bytes × Double)) : BoundedTable.keys (es.map entry) = es.map Prod.fst :=
  List.map_map

theorem lookup_entry (es : List (Bytes × Double)) (name : Bytes) :
    (es.map entry).lookup name = (es.lookup name).map clampedRate := by
  induction es with
  | nil => rfl
  | cons e es ih =>
    rw [List.map_cons, entry, List.lookup_cons, List.lookup_cons, ih]
    split <;> rfl

theorem exists_lastRate (h : name ∈ heard calls) : ∃ rate, lastRate calls name = some rate := by
  have hname : name ∈ (named calls).map Prod.fst := List.mem_eraseDups.1 (List.mem_of_mem_take h)
  obtain ⟨e, he, rfl⟩ := List.mem_map.1 hname
  apply Option.isSome_iff_exists.1
  exact List.lookup_isSome_iff.2 ⟨e, List.mem_reverse.2 he, beq_self_eq_true _⟩

/-- **The rate that was last set decides**, for the first 256 streams that are named: `should_keep` keeps
every sample of a rate from one on, none of a rate up to zero, and else what is rolled below the rate.
Every sample of another stream is kept. The table never outgrows its bound, and its rates are clamped. -/
theorem last_rate_decides (calls : List (CString × Double)) (name : Bytes) (roll : Double) :
    (calls.foldl setSampleRate {}).rates.length ≤ maxEntries ∧
      (∀ e ∈ (calls.foldl setSampleRate {}).rates, InRange e.2) ∧
      (name ∈ heard calls → ∃ rate, lastRate calls name = some rate ∧
        (calls.foldl setSampleRate {}).shouldKeep name (rolled roll) = rolled roll rate) ∧
      (name ∉ heard calls → (calls.foldl setSampleRate {}).shouldKeep name (rolled roll) = true) := by
  have hkeys : (BoundedTable.keys ((named calls).map entry)).eraseDups.take maxEntries = heard calls := by
    rw [keys_entry, heard]
  rw [shouldKeep_eq, rates_eq]
  refine ⟨BoundedTable.length_filled _ _, fun e he => ?_, fun hheard => ?_, fun hnot => ?_⟩
  · obtain ⟨e, -, rfl⟩ := List.mem_map.1 (BoundedTable.mem_filled he)
    exact inRange_clampedRate e.2
  · obtain ⟨rate, hrate⟩ := exists_lastRate hheard
    refine ⟨rate, hrate, ?_⟩
    rw [BoundedTable.lookup_filled (hkeys ▸ hheard), ← List.map_reverse, lookup_entry]
    show ((lastRate calls name).map clampedRate).all (rolled roll) = rolled roll rate
    rw [hrate]
    exact rolled_clampedRate roll rate
  · rw [BoundedTable.lookup_filled_none (hkeys ▸ hnot)]
    rfl

/-- A stream that was kept at first, and is dropped since. -/
theorem last_rate_decides_lowered (roll : Double) :
    ([(some [102], Double.one), (none, .zero), (some [102], .zero)].foldl setSampleRate {}).shouldKeep [102]
      (rolled roll) = false := by
  obtain ⟨-, -, hheard, -⟩ := last_rate_decides [(some [102], .one), (none, .zero), (some [102], .zero)] [102] roll
  obtain ⟨rate, hrate, hkeep⟩ := hheard (by decide)
  have hzero : Double.zero = rate := Option.some.inj hrate
  rw [hkeep, ← hzero]
  rfl

end Sampler
end Tombstone
