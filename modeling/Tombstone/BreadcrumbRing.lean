import Tombstone.Bytes

/- The trail of the most recent breadcrumbs (`breadcrumb_ring.h`, `breadcrumb_ring.cpp`): a
   fixed number of slots, overwritten oldest first.

   Every crumb carries a serial number, which no operation reads: it lets a statement follow
   one crumb from the call that left it. -/
namespace Tombstone

/-- One breadcrumb; `serial` is proof-only. -/
structure Breadcrumb where
  tsIso : Bytes := []
  level : Bytes := []
  message : Bytes := []
  serial : Nat := 0
  deriving DecidableEq, Repr

/-- The slots, where the next crumb goes, and how many slots are in use. -/
structure BreadcrumbRing where
  slots : List Breadcrumb
  head : Nat
  count : Nat
  head_lt : head < slots.length
  count_le : count ≤ slots.length
  deriving DecidableEq

namespace BreadcrumbRing

def defaultCapacity : Nat := 64
def maxMessageBytes : Nat := 512
def maxLevelBytes : Nat := 16

variable {r : BreadcrumbRing} {level message tsIso : Bytes} {serial : Nat}

/-- The constructor: a capacity of 0 stands for the default. -/
def ofCapacity (capacity : Nat) : BreadcrumbRing where
  slots := List.replicate (if 0 < capacity then capacity else defaultCapacity) {}
  head := 0
  count := 0
  head_lt := by
    rw [List.length_replicate]
    split
    · assumption
    · decide
  count_le := Nat.zero_le _

/-- What `add` stores. -/
def crumb (level message tsIso : Bytes) (serial : Nat) : Breadcrumb :=
  { tsIso
    level := utf8SafeTruncate level maxLevelBytes
    message := utf8SafeTruncate message maxMessageBytes
    serial }

/-- `BreadcrumbRing::add`: an empty message is ignored. -/
def add (r : BreadcrumbRing) (level message tsIso : Bytes) (serial : Nat) : BreadcrumbRing :=
  if message.isEmpty then r
  else
    { slots := r.slots.set r.head (crumb level message tsIso serial)
      head := (r.head + 1) % r.slots.length
      count := if r.count < r.slots.length then r.count + 1 else r.count
      head_lt := by
        rw [List.length_set]
        exact Nat.mod_lt _ (Nat.zero_lt_of_lt r.head_lt)
      count_le := by
        have := r.count_le
        rw [List.length_set]
        split <;> omega }

/-- The slot of the `i`-th crumb, oldest first. -/
def position (r : BreadcrumbRing) (i : Nat) : Nat :=
  ((r.head + r.slots.length - r.count) % r.slots.length + i) % r.slots.length

/-- `BreadcrumbRing::snapshot`, oldest first. -/
def snapshot (r : BreadcrumbRing) : List Breadcrumb :=
  (List.range r.count).map fun i => r.slots.getD (r.position i) {}

/-- `BreadcrumbRing::clear`: the slots are scrubbed too. -/
def clear (r : BreadcrumbRing) : BreadcrumbRing where
  slots := r.slots.map fun _ => {}
  head := 0
  count := 0
  head_lt := by
    rw [List.length_map]
    exact Nat.zero_lt_of_lt r.head_lt
  count_le := Nat.zero_le _

/-! ## The ring is a bounded list -/

@[simp] theorem snapshot_ofCapacity (capacity : Nat) : (ofCapacity capacity).snapshot = [] := rfl

@[simp] theorem snapshot_clear (r : BreadcrumbRing) : r.clear.snapshot = [] := rfl

@[simp] theorem length_snapshot (r : BreadcrumbRing) : r.snapshot.length = r.count := by
  simp [snapshot]

theorem add_capacity (r : BreadcrumbRing) (level message tsIso : Bytes) (serial : Nat) :
    (r.add level message tsIso serial).slots.length = r.slots.length := by
  unfold add
  split
  · rfl
  · exact List.length_set

/-- One wrap. -/
theorem mod_wrap {x n : Nat} (hle : n ≤ x) (hlt : x < 2 * n) : x % n = x - n := by
  rw [Nat.mod_eq_sub_mod hle]
  exact Nat.mod_eq_of_lt (by omega)

/-- The slots in use are those before `head`, going round. -/
theorem position_eq (r : BreadcrumbRing) {i : Nat} (hi : i < r.count) :
    r.position i = if r.count ≤ r.head + i then r.head + i - r.count
      else r.head + i + r.slots.length - r.count := by
  have hhead := r.head_lt
  have hcount := r.count_le
  have hstart : (r.head + r.slots.length - r.count) % r.slots.length =
      if r.count ≤ r.head then r.head - r.count else r.head + r.slots.length - r.count := by
    split
    · rw [mod_wrap (by omega) (by omega)]
      omega
    · exact Nat.mod_eq_of_lt (by omega)
  unfold position
  rw [hstart]
  split
  · rw [if_pos (by omega), Nat.mod_eq_of_lt (by omega)]
    omega
  · split
    · rw [mod_wrap (by omega) (by omega)]
      omega
    · rw [Nat.mod_eq_of_lt (by omega)]
      omega

/-- How many crumbs a new one drops. -/
def overwritten (r : BreadcrumbRing) : Nat := r.count + 1 - r.slots.length

/-- Where `add` moves the ring to: the crumbs that stay keep their slots, and the new one
takes `head`. -/
theorem add_moves (r : BreadcrumbRing) (level tsIso : Bytes) (serial : Nat) (h : message ≠ []) :
    let r' := r.add level message tsIso serial
    r'.slots = r.slots.set r.head (crumb level message tsIso serial) ∧
      r'.count = r.count - r.overwritten + 1 ∧
      (∀ i < r.count - r.overwritten, r'.position i = r.position (i + r.overwritten)) ∧
      r'.position (r.count - r.overwritten) = r.head := by
  have hhead := r.head_lt
  have hcount := r.count_le
  have hempty : message.isEmpty = false := by simpa using h
  have hslots : (r.add level message tsIso serial).slots.length = r.slots.length :=
    add_capacity r level message tsIso serial
  have hnew : (r.add level message tsIso serial).head =
      if r.head + 1 < r.slots.length then r.head + 1 else 0 := by
    simp only [add, hempty, Bool.false_eq_true, if_false]
    split
    · exact Nat.mod_eq_of_lt ‹_›
    · rw [mod_wrap (by omega) (by omega)]
      omega
  have hused : (r.add level message tsIso serial).count = r.count - r.overwritten + 1 := by
    simp only [add, hempty, Bool.false_eq_true, if_false, overwritten]
    split <;> omega
  have hposition : ∀ i < r.count - r.overwritten + 1,
      (r.add level message tsIso serial).position i =
        if i = r.count - r.overwritten then r.head else r.position (i + r.overwritten) := by
    intro i hi
    rw [position_eq _ (by omega), hslots, hnew, hused]
    unfold overwritten at hi ⊢
    by_cases hlast : i = r.count - (r.count + 1 - r.slots.length)
    · rw [if_pos hlast]
      split <;> split <;> omega
    · rw [if_neg hlast, position_eq r (by omega)]
      split <;> split <;> split <;> omega
  refine ⟨by simp only [add, hempty, Bool.false_eq_true, if_false], hused, fun i hi => ?_, ?_⟩
  · rw [hposition i (by omega), if_neg (by omega)]
  · rw [hposition _ (by omega), if_pos rfl]

/-- **A full ring loses its oldest crumb to a new one.** -/
theorem snapshot_add (r : BreadcrumbRing) (level tsIso : Bytes) (serial : Nat)
    (h : message ≠ []) :
    (r.add level message tsIso serial).snapshot =
      r.snapshot.drop r.overwritten ++ [crumb level message tsIso serial] := by
  obtain ⟨hslots, hcount, hkept, hlast⟩ := r.add_moves level tsIso serial h
  have hdrop : r.snapshot.drop r.overwritten = (List.range (r.count - r.overwritten)).map
      fun i => r.slots.getD (r.position (i + r.overwritten)) {} := by
    apply List.ext_getElem
    · simp
    · intro i _ _
      simp [snapshot, Nat.add_comm]
  have hstays : ∀ i < r.count - r.overwritten, r.position (i + r.overwritten) ≠ r.head := by
    intro i hi
    rw [position_eq r (by omega)]
    have hhead := r.head_lt
    have hle := r.count_le
    unfold overwritten at hi ⊢
    split <;> omega
  rw [snapshot, hcount, List.range_succ, List.map_append, hdrop, List.map_singleton, hlast, hslots]
  congr 1
  · apply List.map_congr_left
    intro i hi
    have hi := List.mem_range.mp hi
    rw [hkept i hi, List.getD_eq_getElem?_getD, List.getElem?_set_ne (hstays i hi).symm,
      List.getD_eq_getElem?_getD]
  · rw [List.getD_eq_getElem?_getD, List.getElem?_set_self r.head_lt]
    rfl

/-- An empty message is no crumb. -/
theorem add_empty (r : BreadcrumbRing) (level tsIso : Bytes) (serial : Nat) :
    r.add level [] tsIso serial = r := rfl

end BreadcrumbRing

end Tombstone
