import Tombstone.Payloads
import Tombstone.RetryAfter

/- The bounded buffer of serialized telemetry items (`batch.h`, `batch.cpp`).

   Every item carries a serial number, which no operation reads: it lets a statement
   follow one item through the buffer, an envelope and the queue. -/
namespace Tombstone

/-- One serialized item; `serial` is proof-only. -/
structure Item where
  text : Bytes
  serial : Nat
  deriving DecidableEq, Repr

structure Batch where
  items : List Item := []
  /-- When the age clock started: the first add into an empty buffer. -/
  firstAdd : Nat := 0
  deriving DecidableEq, Repr

/-- One drained envelope: its text, and the items it was built from (proof-only). -/
structure Envelope where
  text : Bytes
  items : List Item
  deriving DecidableEq, Repr

namespace Batch

def maxItems : Nat := 256
def flushCount : Nat := 50
def maxBatchBytes : Nat := 512 * 1024
def flushAge : Nat := seconds 10

/-- What `add` drops: the oldest item of a full buffer. -/
def overflow (b : Batch) : List Item :=
  if maxItems ≤ b.items.length then b.items.take 1 else []

/-- `Batch::add`: the buffer after it, and whether the count trigger is now satisfied. -/
def add (b : Batch) (now : Nat) (item : Item) : Batch × Bool :=
  let kept := if maxItems ≤ b.items.length then b.items.drop 1 else b.items
  let items := kept ++ [item]
  ({ items, firstAdd := if b.items.isEmpty then now else b.firstAdd },
    decide (flushCount ≤ items.length))

def hasItems (b : Batch) : Bool := !b.items.isEmpty

def ready (b : Batch) (now : Nat) (force : Bool) : Bool :=
  b.hasItems && (force || decide (flushCount ≤ b.items.length) || decide (flushAge ≤ now - b.firstAdd))

/-- `next_bytes`: the item and the comma before it. -/
def nextBytes (drained : List Item) (item : Item) : Nat :=
  item.text.length + (if drained.isEmpty then 0 else 1)

/-- The loop of `drain_locked`: the items of one envelope, and what stays. -/
def drainLoop (bytes : Nat) (drained : List Item) : List Item → List Item × List Item
  | [] => (drained, [])
  | item :: rest =>
    if !drained.isEmpty && decide (maxBatchBytes < bytes + nextBytes drained item) then
      (drained, item :: rest)
    else if maxBatchBytes ≤ bytes + nextBytes drained item then (drained ++ [item], rest)
    else drainLoop (bytes + nextBytes drained item) (drained ++ [item]) rest

/-- `drain_locked`: one envelope, and the items it leaves. -/
def drainLocked (sentAtIso : Bytes) (items : List Item) : Envelope × List Item :=
  let (drained, rest) := drainLoop (buildBatchEnvelope sentAtIso []).length [] items
  ({ text := buildBatchEnvelope sentAtIso (drained.map Item.text), items := drained }, rest)

/-- The loop of `drain_envelopes_if_ready`. Every envelope takes at least one item, so the
length of the buffer bounds it (`drainAll_items`). -/
def drainAll (sentAtIso : Bytes) : Nat → List Item → List Envelope
  | 0, _ => []
  | _ + 1, [] => []
  | fuel + 1, item :: rest =>
    let (envelope, left) := drainLocked sentAtIso (item :: rest)
    envelope :: drainAll sentAtIso fuel left

/-- `Batch::drain_envelopes_if_ready`. -/
def drainEnvelopesIfReady (b : Batch) (sentAtIso : Bytes) (now : Nat) (force : Bool) :
    Batch × List Envelope :=
  if b.ready now force then
    ({ b with items := [] }, drainAll sentAtIso b.items.length b.items)
  else (b, [])

/-! ## What a drain does to the items -/

theorem drainLoop_append (bytes : Nat) (drained items : List Item) :
    (drainLoop bytes drained items).1 ++ (drainLoop bytes drained items).2 = drained ++ items := by
  induction items generalizing bytes drained with
  | nil => simp [drainLoop]
  | cons item rest ih =>
    simp only [drainLoop]
    split
    · rfl
    · split
      · simp
      · rw [ih]
        simp

theorem drainLoop_prefix (bytes : Nat) (drained items : List Item) :
    ∃ taken, (drainLoop bytes drained items).1 = drained ++ taken := by
  induction items generalizing bytes drained with
  | nil => exact ⟨[], by simp [drainLoop]⟩
  | cons item rest ih =>
    simp only [drainLoop]
    split
    · exact ⟨[], by simp⟩
    · split
      · exact ⟨[item], rfl⟩
      · obtain ⟨taken, ht⟩ := ih (bytes + nextBytes drained item) (drained ++ [item])
        exact ⟨item :: taken, by rw [ht]; simp⟩

/-- The first item of a buffer always goes into the envelope. -/
theorem drainLoop_takes_first (bytes : Nat) (item : Item) (rest : List Item) :
    1 ≤ (drainLoop bytes [] (item :: rest)).1.length := by
  simp only [drainLoop, List.isEmpty_nil, Bool.not_true, Bool.false_and, Bool.false_eq_true,
    if_false]
  split
  · simp
  · obtain ⟨taken, ht⟩ := drainLoop_prefix (bytes + nextBytes [] item) ([] ++ [item]) rest
    rw [ht]
    simp

theorem drainLocked_items (sentAtIso : Bytes) (items : List Item) :
    (drainLocked sentAtIso items).1.items ++ (drainLocked sentAtIso items).2 = items := by
  have h := drainLoop_append (buildBatchEnvelope sentAtIso []).length [] items
  simpa [drainLocked] using h

theorem drainLocked_shrinks (sentAtIso : Bytes) (item : Item) (rest : List Item) :
    (drainLocked sentAtIso (item :: rest)).2.length ≤ rest.length := by
  have happ := congrArg List.length (drainLocked_items sentAtIso (item :: rest))
  have hone : 1 ≤ (drainLocked sentAtIso (item :: rest)).1.items.length :=
    drainLoop_takes_first _ item rest
  simp only [List.length_append, List.length_cons] at happ
  omega

/-- **A drain empties the buffer**: the envelopes carry every item, each once, in order. -/
theorem drainAll_items (sentAtIso : Bytes) : ∀ (fuel : Nat) (items : List Item),
    items.length ≤ fuel → (drainAll sentAtIso fuel items).flatMap Envelope.items = items := by
  intro fuel
  induction fuel with
  | zero =>
    intro items h
    rw [List.eq_nil_of_length_eq_zero (Nat.le_zero.mp h)]
    rfl
  | succ fuel ih =>
    intro items h
    cases items with
    | nil => rfl
    | cons item rest =>
      have hshrink := drainLocked_shrinks sentAtIso item rest
      have hleft := ih (drainLocked sentAtIso (item :: rest)).2 (by
        simp only [List.length_cons] at h
        omega)
      simp only [drainAll, List.flatMap_cons]
      rw [hleft, drainLocked_items]

theorem drainEnvelopes_items (b : Batch) (sentAtIso : Bytes) (now : Nat) (force : Bool) :
    (b.drainEnvelopesIfReady sentAtIso now force).2.flatMap Envelope.items ++
      (b.drainEnvelopesIfReady sentAtIso now force).1.items = b.items := by
  simp only [drainEnvelopesIfReady]
  split
  · simp [drainAll_items]
  · simp

theorem add_items (b : Batch) (now : Nat) (item : Item) :
    b.overflow ++ (b.add now item).1.items = b.items ++ [item] := by
  simp only [overflow, add]
  split
  · rw [← List.append_assoc, List.take_append_drop]
  · rfl

/-- A forced drain leaves nothing behind. -/
theorem drainEnvelopes_force (b : Batch) (sentAtIso : Bytes) (now : Nat) :
    (b.drainEnvelopesIfReady sentAtIso now true).1.items = [] := by
  simp only [drainEnvelopesIfReady, ready, hasItems, Bool.true_or, Bool.and_true]
  split
  · rfl
  · rename_i h
    simpa using h

end Batch

end Tombstone
