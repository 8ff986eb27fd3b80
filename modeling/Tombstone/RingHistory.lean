import Mathlib.Data.List.DropRight
import Tombstone.BreadcrumbRing
import Tombstone.Buffers

/- What a ring remembers of a run of its calls: the crumbs that were added since the latest
   `clear`, the last of them as far as there are slots. -/
namespace Tombstone.BreadcrumbRing

open Buffers (lastOf pushDroppingOldest foldl_pushDroppingOldest)

/-- A call that writes the ring. -/
inductive Op
  | add (level message tsIso : Bytes) (serial : Nat)
  | clear
  deriving DecidableEq, Repr

namespace Op

def perform (r : BreadcrumbRing) : Op → BreadcrumbRing
  | add level message tsIso serial => r.add level message tsIso serial
  | clear => r.clear

/-- The crumb a call adds. -/
def crumbOf : Op → Option Breadcrumb
  | add level message tsIso serial =>
    if message.isEmpty then none else some (crumb level message tsIso serial)
  | clear => none

end Op

/-- The calls since the latest `clear`. -/
def sinceClear (ops : List Op) : List Op := ops.rtakeWhile fun op => op != .clear

/-- The crumbs of these calls, oldest first. -/
def added (ops : List Op) : List Breadcrumb := (sinceClear ops).filterMap Op.crumbOf

variable {r : BreadcrumbRing} {level message tsIso : Bytes} {serial : Nat}

theorem added_add (ops : List Op) : added (ops ++ [.add level message tsIso serial]) =
    added ops ++ (Op.crumbOf (.add level message tsIso serial)).toList := by
  unfold added sinceClear
  rw [List.rtakeWhile_concat_pos _ _ _ (by simp), List.filterMap_append]
  cases h : Op.crumbOf (.add level message tsIso serial) <;> simp [h]

theorem added_clear (ops : List Op) : added (ops ++ [.clear]) = [] := by
  simp [added, sinceClear]

/-- A ring is a buffer that drops its oldest crumb. -/
theorem snapshot_push (r : BreadcrumbRing) (h : message ≠ []) :
    (r.add level message tsIso serial).snapshot =
      pushDroppingOldest r.slots.length r.snapshot (crumb level message tsIso serial) := by
  have hcount := r.count_le
  rw [snapshot_add r level tsIso serial h]
  unfold pushDroppingOldest overwritten
  rw [length_snapshot]
  split
  · rw [show r.count + 1 - r.slots.length = 1 by omega, List.drop_one]
  · rw [show r.count + 1 - r.slots.length = 0 by omega, List.drop_zero]

theorem perform_capacity (r : BreadcrumbRing) (op : Op) :
    (op.perform r).slots.length = r.slots.length := by
  cases op with
  | add level message tsIso serial => exact add_capacity r level message tsIso serial
  | clear => exact List.length_map _

/-- What a slot may hold after a call: what it held, unless the call is a `clear`, or the
crumb that the call adds. -/
theorem mem_slots_add {slot : Breadcrumb}
    (h : slot ∈ (r.add level message tsIso serial).slots) :
    slot ∈ r.slots ∨ Op.crumbOf (.add level message tsIso serial) = some slot := by
  unfold add at h
  split at h
  · exact .inl h
  · next hmessage =>
    apply (List.mem_or_eq_of_mem_set h).imp id
    intro heq
    simp [Op.crumbOf, hmessage, heq]

theorem slots_clear (r : BreadcrumbRing) :
    r.clear.slots = List.replicate r.slots.length {} := List.map_const' ..

/-- What holds of a ring after the calls `ops`. -/
structure Remembers (capacity : Nat) (ops : List Op) (r : BreadcrumbRing) : Prop where
  size : r.slots.length = capacity
  shown : r.snapshot = (added ops).foldl (pushDroppingOldest capacity) []
  held : ∀ slot ∈ r.slots, slot = {} ∨ slot ∈ added ops

theorem Remembers.start {capacity : Nat} (h : 0 < capacity) :
    Remembers capacity [] (ofCapacity capacity) where
  size := by simp [ofCapacity, h]
  shown := by simp [added, sinceClear]
  held := by
    intro slot hslot
    exact .inl (List.eq_of_mem_replicate hslot)

theorem Remembers.step {capacity : Nat} {ops : List Op} (h : Remembers capacity ops r) (op : Op) :
    Remembers capacity (ops ++ [op]) (op.perform r) where
  size := (perform_capacity r op).trans h.size
  shown := by
    cases op with
    | add level message tsIso serial =>
      rw [added_add, List.foldl_append, ← h.shown]
      by_cases hmessage : message = []
      · subst hmessage
        rfl
      · rw [Op.perform, snapshot_push r hmessage, h.size]
        simp [Op.crumbOf, hmessage]
    | clear => simp [added_clear, Op.perform]
  held := by
    intro slot hslot
    cases op with
    | add level message tsIso serial =>
      rw [added_add, List.mem_append]
      rcases mem_slots_add hslot with hold | hnew
      · exact (h.held slot hold).imp id .inl
      · simp [hnew]
    | clear =>
      rw [Op.perform, slots_clear] at hslot
      exact .inl (List.eq_of_mem_replicate hslot)

theorem remembers {capacity : Nat} (h : 0 < capacity) (ops : List Op) :
    Remembers capacity ops (ops.foldl Op.perform (ofCapacity capacity)) := by
  induction ops using List.reverseRecOn with
  | nil => exact .start h
  | append_singleton ops op ih =>
    rw [List.foldl_append]
    exact ih.step op

/-- **The ring is a bounded list.** After any calls, the snapshot is the last of the crumbs
that were added since the latest `clear`, and no slot holds anything else; a `clear` leaves
nothing in any slot. -/
theorem snapshot_history {capacity : Nat} (h : 0 < capacity) (ops : List Op) :
    let r := ops.foldl Op.perform (ofCapacity capacity)
    r.snapshot = lastOf (min capacity (added ops).length) (added ops) ∧
      (∀ slot ∈ r.slots, slot = {} ∨ slot ∈ added ops) ∧
      r.clear.slots = List.replicate capacity {} := by
  intro r
  have hr := remembers h ops
  refine ⟨?_, hr.held, ?_⟩
  · rw [hr.shown, foldl_pushDroppingOldest h]
    unfold lastOf
    congr 1
    omega
  · rw [slots_clear, hr.size]

/-- A ring of two slots, filled past its end, cleared, and filled past its end again. -/
theorem snapshot_history_wraps :
    let crumbs := [lit "a", lit "b", lit "c"].map fun m => Op.add (lit "log") m (lit "t") 0
    ((crumbs ++ .clear :: .add [] [] [] 0 :: crumbs).foldl Op.perform (ofCapacity 2)).snapshot =
      [crumb (lit "log") (lit "b") (lit "t") 0, crumb (lit "log") (lit "c") (lit "t") 0] := by
  intro crumbs
  rw [(snapshot_history (by decide) (crumbs ++ .clear :: .add [] [] [] 0 :: crumbs)).1]
  decide

end Tombstone.BreadcrumbRing
