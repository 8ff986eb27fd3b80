import Mathlib.Data.List.Nodup
import Mathlib.Data.List.Range
import Tombstone.BatchDrain

/- A batch over whole runs of `add`, `drain_if_ready` and `drain_envelopes_if_ready`.

   The accounts beside the buffer are proof-only: what was added and when, what left in
   envelopes, and what a full buffer dropped. Items are numbered in the order of their adds,
   so equal texts stay apart. The one time stamp `first_add_` survives partial drains; that it
   is never later than the add of any buffered item (`Accounts.Ok.age`) is what makes the age
   trigger overlook none. -/
namespace Tombstone.Batch

/-- `Batch::drain_if_ready`: one envelope; what does not fit stays. -/
def drainIfReady (b : Batch) (sentAtIso : Bytes) (now : Nat) (force : Bool) : Batch × Option Envelope :=
  if b.ready now force then
    let (envelope, rest) := drainLocked sentAtIso b.items
    ({ b with items := rest }, some envelope)
  else (b, none)

/-- What both drains do: envelopes take items from the front, and the age clock stays. -/
structure Drains (sentAtIso : Bytes) (b b' : Batch) (envelopes : List Envelope) : Prop where
  firstAdd : b'.firstAdd = b.firstAdd
  split : envelopes.flatMap Envelope.items ++ b'.items = b.items
  texts : ∀ e ∈ envelopes, e.text = envelopeText sentAtIso (e.items.map Item.text)

theorem items_of_ready {b : Batch} {now : Nat} {force : Bool} (h : b.ready now force = true) :
    b.items ≠ [] := by
  intro hempty
  simp [ready, hasItems, hempty] at h

theorem drains_none (sentAtIso : Bytes) (b : Batch) : Drains sentAtIso b b [] := ⟨rfl, rfl, nofun⟩

theorem drains_ifReady (b : Batch) (sentAtIso : Bytes) (now : Nat) (force : Bool) :
    Drains sentAtIso b (b.drainIfReady sentAtIso now force).1
      (b.drainIfReady sentAtIso now force).2.toList := by
  unfold drainIfReady
  split
  · rename_i hready
    refine ⟨rfl, ?_, fun e he => ?_⟩
    · exact (congrArg (· ++ _) (List.flatMap_singleton ..)).trans (drainLocked_items sentAtIso b.items)
    · obtain rfl := List.mem_singleton.1 he
      exact (drainLocked_spec sentAtIso (items_of_ready hready)).1
  · exact drains_none sentAtIso b

theorem drains_envelopesIfReady (b : Batch) (sentAtIso : Bytes) (now : Nat) (force : Bool) :
    Drains sentAtIso b (b.drainEnvelopesIfReady sentAtIso now force).1
      (b.drainEnvelopesIfReady sentAtIso now force).2 := by
  refine ⟨?_, b.drainEnvelopes_items sentAtIso now force, ?_⟩
  · unfold drainEnvelopesIfReady
    split
    · rfl
    · rfl
  · unfold drainEnvelopesIfReady
    split
    · exact (drainRun_drainAll sentAtIso _ b.items (Nat.le_refl _)).texts
    · exact nofun

/-- A call to a batch. -/
inductive Call where
  | add (text : Bytes)
  | drainIfReady (sentAtIso : Bytes) (force : Bool)
  | drainEnvelopesIfReady (sentAtIso : Bytes) (force : Bool)

/-- A batch, and what became of the items given to it. -/
structure Accounts where
  batch : Batch := {}
  clock : Nat := 0
  /-- Every item, with the time of its add. -/
  added : List (Nat × Item) := []
  emitted : List Envelope := []
  /-- What was the oldest item of a full buffer at an add. -/
  dropped : List Item := []

namespace Accounts

/-- The items of the envelopes, in the order in which they left. -/
def sent (t : Accounts) : List Item := t.emitted.flatMap Envelope.items

def call (t : Accounts) (now : Nat) : Call → Accounts
  | .add text =>
    let item := { text, serial := t.added.length }
    { t with
      batch := (t.batch.add now item).1
      clock := now
      added := t.added ++ [(now, item)]
      dropped := t.dropped ++ t.batch.overflow }
  | .drainIfReady sentAtIso force =>
    let r := t.batch.drainIfReady sentAtIso now force
    { t with batch := r.1, clock := now, emitted := t.emitted ++ r.2.toList }
  | .drainEnvelopesIfReady sentAtIso force =>
    let r := t.batch.drainEnvelopesIfReady sentAtIso now force
    { t with batch := r.1, clock := now, emitted := t.emitted ++ r.2 }

/-- The accounts after these calls, each at its time, to a new batch. -/
def after (calls : List (Nat × Call)) : Accounts :=
  calls.foldl (fun t c => t.call c.1 c.2) {}

/-- What holds of the accounts of every run. -/
structure Ok (t : Accounts) : Prop where
  bound : t.batch.items.length ≤ maxItems
  serials : t.added.map (·.2.serial) = List.range t.added.length
  order : (t.sent ++ t.batch.items).Sublist (t.added.map Prod.snd)
  total : (t.sent ++ t.batch.items ++ t.dropped).Perm (t.added.map Prod.snd)
  texts : ∀ e ∈ t.emitted, ∃ sentAtIso, e.text = envelopeText sentAtIso (e.items.map Item.text)
  age : ∀ a ∈ t.added, a.2 ∈ t.batch.items → t.batch.firstAdd ≤ a.1
  clock : ∀ a ∈ t.added, a.1 ≤ t.clock

theorem Ok.initial : Ok {} :=
  ⟨Nat.zero_le _, rfl, .slnil, .nil, nofun, nofun, nofun⟩

variable {t : Accounts} {now : Nat} {sentAtIso : Bytes} {force : Bool}

theorem Ok.nodup (h : t.Ok) : (t.added.map Prod.snd).Nodup := by
  have hserials : (t.added.map Prod.snd).map Item.serial = List.range t.added.length := by
    rw [List.map_map]
    exact h.serials
  exact List.Nodup.of_map Item.serial (hserials ▸ List.nodup_range)

/-! ## What a call does -/

theorem items_add (b : Batch) (now : Nat) (item : Item) :
    (b.add now item).1.items = b.items.drop b.overflow.length ++ [item] := by
  unfold add overflow
  split
  · rename_i hfull
    have hlength : (b.items.take 1).length = 1 := by
      rw [List.length_take]
      unfold maxItems at hfull
      omega
    rw [hlength]
  · rfl

theorem length_overflow (b : Batch) (hbound : b.items.length ≤ maxItems) :
    b.items.length - b.overflow.length + 1 ≤ maxItems := by
  unfold overflow
  split
  · rw [List.length_take]
    unfold maxItems at *
    omega
  · rw [List.length_nil]
    omega

theorem Ok.fresh (h : t.Ok) (text : Bytes) : ∀ a ∈ t.added, a.2 ≠ { text, serial := t.added.length } := by
  intro a ha hsame
  have hserial : a.2.serial ∈ List.range t.added.length :=
    h.serials ▸ List.mem_map_of_mem (f := fun a : Nat × Item => a.2.serial) ha
  rw [hsame, List.mem_range] at hserial
  exact Nat.lt_irrefl _ hserial

/-- The age clock of a buffer that has items started in the past. -/
theorem Ok.started (h : t.Ok) (hitems : t.batch.items ≠ []) : t.batch.firstAdd ≤ t.clock := by
  obtain ⟨oldest, ho⟩ := List.exists_mem_of_ne_nil _ hitems
  have hadded := h.order.subset (List.mem_append_right t.sent ho)
  obtain ⟨a, ha, rfl⟩ := List.mem_map.1 hadded
  exact (h.age a ha ho).trans (h.clock a ha)

theorem Ok.age_add (h : t.Ok) (hclock : t.clock ≤ now) (text : Bytes) :
    let item : Item := { text, serial := t.added.length }
    ∀ a ∈ t.added ++ [(now, item)], a.2 ∈ (t.batch.add now item).1.items →
      (t.batch.add now item).1.firstAdd ≤ a.1 := by
  intro item a ha hin
  have hfirst : (t.batch.add now item).1.firstAdd =
      if t.batch.items.isEmpty then now else t.batch.firstAdd := rfl
  rw [items_add, List.mem_append, List.mem_singleton] at hin
  rw [hfirst]
  rcases List.mem_append.1 ha with hold | hnew
  · -- an item that was there before
    have hkept := hin.resolve_right (h.fresh text a hold)
    have hbuffered : a.2 ∈ t.batch.items := (List.drop_sublist _ _).subset hkept
    have hne : ¬ t.batch.items.isEmpty = true := by
      rw [List.isEmpty_iff]
      exact List.ne_nil_of_mem hbuffered
    rw [if_neg hne]
    exact h.age a hold hbuffered
  · rw [List.mem_singleton.1 hnew]
    split
    · exact Nat.le_refl _
    · rename_i hne
      rw [List.isEmpty_iff] at hne
      exact (h.started hne).trans hclock

/-- **An add** drops the oldest item of a full buffer and nothing else. -/
theorem Ok.add (h : t.Ok) (hclock : t.clock ≤ now) (text : Bytes) : (t.call now (.add text)).Ok := by
  constructor
  case bound =>
    show (t.batch.add now _).1.items.length ≤ maxItems
    rw [items_add, List.length_append, List.length_drop, List.length_singleton]
    exact length_overflow t.batch h.bound
  case serials =>
    show (t.added ++ [(now, _)]).map (fun a : Nat × Item => a.2.serial) =
      List.range (t.added ++ [(now, _)]).length
    rw [List.map_append, h.serials, List.length_append, List.length_singleton, List.range_succ]
    rfl
  case order =>
    show (t.sent ++ (t.batch.add now _).1.items).Sublist ((t.added ++ [(now, _)]).map Prod.snd)
    rw [List.map_append, items_add, ← List.append_assoc]
    exact (((List.drop_sublist _ _).append_left t.sent).trans h.order).append (List.Sublist.refl _)
  case total =>
    show (t.sent ++ (t.batch.add now _).1.items ++ (t.dropped ++ t.batch.overflow)).Perm
      ((t.added ++ [(now, _)]).map Prod.snd)
    apply List.perm_iff_count.2
    intro item
    have htotal := h.total.count_eq item
    have hitems := congrArg (List.count item)
      (t.batch.add_items now { text, serial := t.added.length })
    simp only [List.map_append, List.map_cons, List.map_nil, List.count_append] at htotal hitems ⊢
    omega
  case texts => exact h.texts
  case age => exact h.age_add hclock text
  case clock =>
    intro a ha
    rcases List.mem_append.1 ha with ha | ha
    · exact (h.clock a ha).trans hclock
    · rw [List.mem_singleton.1 ha]
      exact Nat.le_refl _

/-- **A drain** takes envelopes from the front of the buffer. -/
theorem Ok.drain (h : t.Ok) (hclock : t.clock ≤ now) {b : Batch} {envelopes : List Envelope}
    (hdrains : Drains sentAtIso t.batch b envelopes) :
    Ok { t with batch := b, clock := now, emitted := t.emitted ++ envelopes } := by
  have hsent : (t.emitted ++ envelopes).flatMap Envelope.items ++ b.items = t.sent ++ t.batch.items := by
    rw [List.flatMap_append, List.append_assoc, hdrains.split, sent]
  have hleft : ∀ item ∈ b.items, item ∈ t.batch.items := by
    intro item hitem
    rw [← hdrains.split]
    exact List.mem_append_right _ hitem
  constructor
  case bound =>
    have hlength := congrArg List.length hdrains.split
    have hbound := h.bound
    rw [List.length_append] at hlength
    show b.items.length ≤ maxItems
    omega
  case serials => exact h.serials
  case order =>
    show ((t.emitted ++ envelopes).flatMap Envelope.items ++ b.items).Sublist (t.added.map Prod.snd)
    rw [hsent]
    exact h.order
  case total =>
    show ((t.emitted ++ envelopes).flatMap Envelope.items ++ b.items ++ t.dropped).Perm
      (t.added.map Prod.snd)
    rw [hsent]
    exact h.total
  case texts => exact List.forall_mem_append.2 ⟨h.texts, fun e he => ⟨sentAtIso, hdrains.texts e he⟩⟩
  case age =>
    intro a ha hitem
    show b.firstAdd ≤ a.1
    rw [hdrains.firstAdd]
    exact h.age a ha (hleft _ hitem)
  case clock => exact fun a ha => (h.clock a ha).trans hclock

/-- **Every call keeps the accounts.** -/
theorem Ok.step (h : t.Ok) (hclock : t.clock ≤ now) (c : Call) : (t.call now c).Ok := by
  cases c with
  | add text => exact h.add hclock text
  | drainIfReady sentAtIso force => exact h.drain hclock (drains_ifReady t.batch sentAtIso now force)
  | drainEnvelopesIfReady sentAtIso force =>
    exact h.drain hclock (drains_envelopesIfReady t.batch sentAtIso now force)

theorem clock_call (t : Accounts) (now : Nat) (c : Call) : (t.call now c).clock = now := by
  cases c with
  | add _ => rfl
  | drainIfReady _ _ => rfl
  | drainEnvelopesIfReady _ _ => rfl

/-- **And so every run does**, with a clock that does not go back. -/
theorem Ok.run (h : t.Ok) (calls : List (Nat × Call)) (hclock : ∀ c ∈ calls, t.clock ≤ c.1)
    (hsorted : (calls.map Prod.fst).Pairwise (· ≤ ·)) :
    (calls.foldl (fun t c => t.call c.1 c.2) t).Ok := by
  induction calls generalizing t with
  | nil => exact h
  | cons c calls ih =>
    rw [List.map_cons, List.pairwise_cons] at hsorted
    have hstep := h.step (hclock c List.mem_cons_self) c.2
    have hlater : ∀ c' ∈ calls, (t.call c.1 c.2).clock ≤ c'.1 := by
      intro c' hc'
      rw [clock_call]
      exact hsorted.1 c'.1 (List.mem_map_of_mem hc')
    exact ih hstep hlater hsorted.2

/-! ## The triggers -/

/-- **No aged item is overlooked**, nor a full count. -/
theorem Ok.ready (h : t.Ok) (force : Bool)
    (htrigger : flushCount ≤ t.batch.items.length ∨
      ∃ a ∈ t.added, a.2 ∈ t.batch.items ∧ a.1 + flushAge ≤ now) : t.batch.ready now force = true := by
  unfold Batch.ready hasItems
  rcases htrigger with hcount | ⟨a, ha, hitem, hage⟩
  · have hne : t.batch.items ≠ [] := by
      intro hempty
      rw [hempty] at hcount
      exact absurd hcount (by decide)
    simp [hcount, hne]
  · have hfirst := h.age a ha hitem
    have hold : flushAge ≤ now - t.batch.firstAdd := by omega
    simp [hold, List.ne_nil_of_mem hitem]

theorem some_ifReady {b : Batch} (h : b.ready now force = true) :
    (b.drainIfReady sentAtIso now force).2.isSome = true := by
  unfold drainIfReady
  rw [if_pos h]
  rfl

theorem ne_nil_envelopesIfReady {b : Batch} (h : b.ready now force = true) :
    (b.drainEnvelopesIfReady sentAtIso now force).2 ≠ [] := by
  intro hnone
  have hsplit := (drain_splits b sentAtIso now force h).2.2.2.2.all
  rw [hnone] at hsplit
  exact items_of_ready h hsplit.symm

/-- **Batch accounting over whole runs.** After any calls with a clock that does not go back,
the buffer has at most 256 items; every item ever added is in exactly one of the envelopes, the
buffer and what was dropped as the oldest of a full buffer; what left, and then what is
buffered, is in the order of the adds; the envelopes carry their items; and either drain returns
an envelope when 50 items are buffered or one was added ten seconds before. -/
theorem batch_accounts (calls : List (Nat × Call)) (hclock : (calls.map Prod.fst).Pairwise (· ≤ ·)) :
    let t := after calls
    t.batch.items.length ≤ 256 ∧
    (t.added.map Prod.snd).Nodup ∧
    (t.sent ++ t.batch.items ++ t.dropped).Perm (t.added.map Prod.snd) ∧
    (t.sent ++ t.batch.items).Sublist (t.added.map Prod.snd) ∧
    (∀ e ∈ t.emitted, ∃ sentAtIso, e.text = envelopeText sentAtIso (e.items.map Item.text)) ∧
    ∀ now sentAtIso force,
      (50 ≤ t.batch.items.length ∨ ∃ a ∈ t.added, a.2 ∈ t.batch.items ∧ a.1 + flushAge ≤ now) →
      (t.batch.drainIfReady sentAtIso now force).2.isSome = true ∧
        (t.batch.drainEnvelopesIfReady sentAtIso now force).2 ≠ [] := by
  have h := Ok.initial.run calls (fun c _ => Nat.zero_le c.1) hclock
  refine ⟨h.bound, h.nodup, h.total, h.order, h.texts, fun now sentAtIso force htrigger => ?_⟩
  have hready := h.ready force htrigger
  exact ⟨some_ifReady hready, ne_nil_envelopesIfReady hready⟩

/-- An event, its age, and a drain. -/
theorem batch_accounts_aged :
    ((after [(0, .add (lit "\x7b\x7d")), (1, .drainIfReady (lit "t") false)]).batch.drainIfReady (lit "t")
      (seconds 10) false).2.isSome = true := by
  have h := batch_accounts [(0, .add (lit "\x7b\x7d")), (1, .drainIfReady (lit "t") false)] (by decide)
  exact (h.2.2.2.2.2 (seconds 10) (lit "t") false
    (.inr ⟨(0, ⟨lit "\x7b\x7d", 0⟩), by decide, by decide, by decide⟩)).1

end Accounts

end Tombstone.Batch
