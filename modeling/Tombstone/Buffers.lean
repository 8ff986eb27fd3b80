import Mathlib.Data.List.Induction

/- Bounded buffers that are filled one element at a time: one that drops its oldest element
   when it is full, and one that refuses the newest. -/
namespace Tombstone.Buffers

variable {α β : Type}

/-- Put `a` behind `l`, dropping the oldest of `bound` elements. -/
def pushDroppingOldest (bound : Nat) (l : List α) (a : α) : List α :=
  (if bound ≤ l.length then l.tail else l) ++ [a]

/-- Put `a` behind `l`, unless it has `bound` elements. -/
def pushUnlessFull (bound : Nat) (l : List α) (a : α) : List α :=
  if bound ≤ l.length then l else l ++ [a]

/-- The last `n` elements. -/
def lastOf (n : Nat) (l : List α) : List α := l.drop (l.length - n)

theorem length_lastOf (n : Nat) (l : List α) : (lastOf n l).length = min n l.length := by
  unfold lastOf
  rw [List.length_drop]
  omega

/-- **A buffer that drops its oldest keeps the last elements.** -/
theorem foldl_pushDroppingOldest {bound : Nat} (hbound : 0 < bound) (l : List α) :
    l.foldl (pushDroppingOldest bound) [] = lastOf bound l := by
  induction l using List.reverseRecOn with
  | nil => simp [lastOf]
  | append_singleton l a ih =>
    rw [List.foldl_append, ih, List.foldl_cons, List.foldl_nil]
    unfold pushDroppingOldest
    rw [length_lastOf]
    unfold lastOf
    rw [List.length_append, List.length_singleton]
    split
    · rw [List.tail_drop, List.drop_append_of_le_length (by omega)]
      congr 2
      omega
    · have hnone : l.length + 1 - bound = 0 := by omega
      rw [hnone, List.drop_zero, show l.length - bound = 0 by omega, List.drop_zero]

theorem push_lastOf {bound : Nat} (hbound : 0 < bound) (l : List α) (a : α) :
    pushDroppingOldest bound (lastOf bound l) a = lastOf bound (l ++ [a]) := by
  rw [← foldl_pushDroppingOldest hbound, ← foldl_pushDroppingOldest hbound, List.foldl_append]
  rfl

theorem lastOf_map (n : Nat) (f : α → β) (l : List α) : lastOf n (l.map f) = (lastOf n l).map f := by
  unfold lastOf
  rw [List.length_map, List.map_drop]

theorem lastOf_lastOf (n : Nat) (l : List α) : lastOf n (lastOf n l) = lastOf n l := by
  unfold lastOf
  rw [List.drop_drop, List.length_drop]
  congr 1
  omega

/-- **A buffer that refuses the newest keeps the first elements.** -/
theorem foldl_pushUnlessFull (bound : Nat) (l : List α) :
    l.foldl (pushUnlessFull bound) [] = l.take bound := by
  induction l using List.reverseRecOn with
  | nil => simp
  | append_singleton l a ih =>
    rw [List.foldl_append, ih, List.foldl_cons, List.foldl_nil]
    unfold pushUnlessFull
    rw [List.length_take]
    split
    · rw [List.take_append_of_le_length (by omega)]
    · rw [List.take_of_length_le (by omega), List.take_of_length_le]
      rw [List.length_append, List.length_singleton]
      omega

end Tombstone.Buffers
