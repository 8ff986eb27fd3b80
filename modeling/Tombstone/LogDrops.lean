import Mathlib.Data.List.Induction
import Tombstone.SessionLog

/- The session log under the calls of one thread: what `append` could not buffer is counted,
   and the count goes out with the next chunk.

   The counter is only looked at when something is buffered. That loses nothing, since lines
   are dropped only behind a full buffer, and the buffer is emptied together with the
   counter. -/
namespace Tombstone.SessionLog

/-- `flush_now`, with no other thread in between. -/
def flushNow (s : State) : State :=
  if s.pending.isEmpty then s else writeChunk (takePending s).1 s.chunks.length s.chunk

/-- A call of the one thread. -/
inductive HostCall
  | append (tsIso level message : Bytes)
  | flushNow
  deriving DecidableEq, Repr

namespace HostCall

def run (s : State) : HostCall → State
  | append tsIso level message => SessionLog.append s tsIso level message
  | flushNow => SessionLog.flushNow s

/-- The line a call asks to log. -/
def offers : HostCall → Option Bytes
  | append tsIso level message =>
    if message.isEmpty then none else some (formatLine tsIso level message)
  | flushNow => none

end HostCall

/-- The non-empty lines that were appended, formatted. -/
def offered (calls : List HostCall) : List Bytes := calls.filterMap HostCall.offers

/-- How many lines an entry tells of as dropped. -/
def Entry.count : Entry → Nat
  | .line _ _ => 0
  | .notice dropped => dropped

/-- The counts of the notices among the entries. -/
def announced : List Entry → Nat
  | [] => 0
  | e :: entries => e.count + announced entries

@[simp] theorem announced_nil : announced [] = 0 := rfl

@[simp] theorem announced_append (l m : List Entry) :
    announced (l ++ m) = announced l + announced m := by
  induction l with
  | nil => simp
  | cons e l ih => rw [List.cons_append, announced, announced, ih, Nat.add_assoc]

@[simp] theorem announced_line (serial : Nat) (text : Bytes) :
    announced [.line serial text] = 0 := rfl

@[simp] theorem announced_notice (dropped : Nat) : announced [.notice dropped] = dropped := by
  simp [announced, Entry.count]

theorem textOf_append (l m : List Entry) : textOf (l ++ m) = textOf l ++ textOf m := by
  simp [textOf]

/-- Before the last line was buffered there was room. -/
def Buffered (pending : List Entry) : Prop :=
  ∀ front e, pending = front ++ [e] → (textOf front).length < maxPendingBytes ∧ e.isLine = true

/-! ## What a flush takes -/

theorem writeChunk_ledger (s : State) (id : Nat) (chunk : List Entry) :
    (writeChunk s id chunk).pending = s.pending ∧
      (writeChunk s id chunk).droppedLines = s.droppedLines ∧
      (writeChunk s id chunk).accepted = s.accepted ∧
      (writeChunk s id chunk).written = s.written ++ chunk := by
  unfold writeChunk
  dsimp only
  split <;> exact ⟨rfl, rfl, rfl, rfl⟩

theorem flushNow_empty {s : State} (h : s.pending = []) : flushNow s = s := by
  simp [flushNow, h]

theorem flushNow_ledger {s : State} (h : s.pending ≠ []) :
    (flushNow s).pending = [] ∧ (flushNow s).droppedLines = 0 ∧
      (flushNow s).accepted = s.accepted ∧ (flushNow s).written = s.written ++ s.chunk := by
  have hempty : s.pending.isEmpty = false := by simpa using h
  have htaken : (takePending s).1 =
      { s with pending := [], droppedLines := 0, chunks := s.chunks ++ [s.chunk] } := by
    simp [takePending, hempty]
  unfold flushNow
  rw [hempty, htaken]
  exact writeChunk_ledger _ _ _

theorem announced_chunk (s : State) :
    announced s.chunk = announced s.pending + s.droppedLines := by
  unfold State.chunk
  rw [announced_append]
  split
  · rw [announced_notice]
  · rw [announced_nil]
    omega

/-! ## The books of a run -/

/-- What holds after the calls: the chunks are the accepted lines in order, with notices
between; every line that was offered was kept, or announced as dropped, or is still to be
announced; and a drop is left unannounced only behind a full buffer. -/
structure Booked (calls : List HostCall) (s : State) : Prop where
  kept : lines s.written ++ s.pending = s.accepted
  texts : (s.accepted.map Entry.text).Sublist (offered calls)
  counts : (offered calls).length = s.accepted.length + announced s.written + s.droppedLines
  full : 0 < s.droppedLines → maxPendingBytes ≤ (textOf s.pending).length
  buffered : Buffered s.pending
  pendingLines : ∀ e ∈ s.pending, e.isLine = true

theorem Booked.pending_of_dropped {calls : List HostCall} {s : State} (h : Booked calls s)
    (hsome : 0 < s.droppedLines) : s.pending ≠ [] := by
  intro hempty
  have hfull := h.full hsome
  simp [hempty, textOf, maxPendingBytes] at hfull

theorem announced_lines {entries : List Entry} (h : ∀ e ∈ entries, e.isLine = true) :
    announced entries = 0 := by
  induction entries with
  | nil => rfl
  | cons e entries ih =>
    have hrest := ih fun a ha => h a (List.mem_cons_of_mem e ha)
    cases e with
    | line serial text =>
      rw [← List.singleton_append, announced_append, announced_line, hrest]
    | notice dropped => exact absurd (h _ List.mem_cons_self) (by simp [Entry.isLine])

theorem lines_of_lines {entries : List Entry} (h : ∀ e ∈ entries, e.isLine = true) :
    lines entries = entries := List.filter_eq_self.mpr h

theorem Booked.append {calls : List HostCall} {s : State} (h : Booked calls s)
    (tsIso level message : Bytes) :
    Booked (calls ++ [.append tsIso level message]) (append s tsIso level message) := by
  have hoffered : offered (calls ++ [.append tsIso level message]) =
      offered calls ++ (HostCall.offers (.append tsIso level message)).toList := by
    unfold offered
    rw [List.filterMap_append]
    cases hoffers : HostCall.offers (.append tsIso level message) <;> simp [hoffers]
  by_cases hmessage : message.isEmpty = true
  · -- an empty message is no line
    have hsame : SessionLog.append s tsIso level message = s := by
      simp only [SessionLog.append, hmessage, if_true]
    have hcalls : offered (calls ++ [.append tsIso level message]) = offered calls := by
      rw [hoffered]
      simp [HostCall.offers, hmessage]
    rw [hsame]
    exact { h with texts := hcalls ▸ h.texts, counts := hcalls ▸ h.counts }
  · have hcalls : offered (calls ++ [.append tsIso level message]) =
        offered calls ++ [formatLine tsIso level message] := by
      rw [hoffered]
      simp [HostCall.offers, hmessage]
    by_cases hfull : maxPendingBytes ≤ (textOf s.pending).length
    · have hdrop : SessionLog.append s tsIso level message =
          { s with droppedLines := s.droppedLines + 1 } := by
        simp only [SessionLog.append, hmessage, hfull, if_true, Bool.false_eq_true, if_false]
      rw [hdrop]
      refine { h with texts := ?_, counts := ?_, full := fun _ => hfull }
      · rw [hcalls]
        exact h.texts.trans (List.sublist_append_left _ _)
      · have hcounts := h.counts
        rw [hcalls, List.length_append, List.length_singleton]
        dsimp only
        omega
    · have hkeep : SessionLog.append s tsIso level message =
          { s with
            pending := s.pending ++ [.line s.accepted.length (formatLine tsIso level message)]
            accepted := s.accepted ++
              [.line s.accepted.length (formatLine tsIso level message)] } := by
        simp only [SessionLog.append, hmessage, hfull, Bool.false_eq_true, if_false]
      have hnone : s.droppedLines = 0 := by
        by_contra hsome
        exact hfull (h.full (by omega))
      rw [hkeep]
      refine ⟨?_, ?_, ?_, ?_, ?_, ?_⟩
      · rw [← List.append_assoc, h.kept]
      · rw [hcalls, List.map_append]
        exact h.texts.append (List.Sublist.refl _)
      · have hcounts := h.counts
        rw [hcalls, List.length_append, List.length_append, List.length_singleton,
          List.length_singleton]
        dsimp only
        omega
      · intro hsome
        rw [hnone] at hsome
        exact absurd hsome (Nat.lt_irrefl 0)
      · intro front e heq
        obtain ⟨rfl, hlast⟩ := List.append_inj' heq rfl
        obtain rfl := List.singleton_inj.mp hlast
        exact ⟨Nat.not_le.mp hfull, rfl⟩
      · intro e he
        rcases List.mem_append.mp he with hold | hnew
        · exact h.pendingLines e hold
        · rw [List.mem_singleton.mp hnew, Entry.isLine]

theorem Booked.flushNow {calls : List HostCall} {s : State} (h : Booked calls s) :
    Booked (calls ++ [.flushNow]) (flushNow s) := by
  have hcalls : offered (calls ++ [.flushNow]) = offered calls := by
    simp [offered, HostCall.offers]
  by_cases hpending : s.pending = []
  · rw [flushNow_empty hpending]
    exact { h with texts := hcalls ▸ h.texts, counts := hcalls ▸ h.counts }
  · obtain ⟨hnone, hzero, haccepted, hwritten⟩ := flushNow_ledger hpending
    have hlines : lines s.chunk = s.pending := by
      have hnotice : lines (if s.droppedLines > 0 then [.notice s.droppedLines] else []) = [] := by
        split <;> rfl
      calc lines s.chunk
        _ = lines s.pending ++ lines _ := List.filter_append ..
        _ = s.pending := by rw [hnotice, lines_of_lines h.pendingLines, List.append_nil]
    refine ⟨?_, ?_, ?_, ?_, ?_, ?_⟩
    · calc lines (SessionLog.flushNow s).written ++ (SessionLog.flushNow s).pending
        _ = lines s.written ++ lines s.chunk := by
          rw [hwritten, hnone, List.append_nil]
          exact List.filter_append ..
        _ = (SessionLog.flushNow s).accepted := by rw [hlines, h.kept, haccepted]
    · rw [haccepted, hcalls]
      exact h.texts
    · have hcounts := h.counts
      rw [hcalls, haccepted, hwritten, hzero, announced_append, announced_chunk,
        announced_lines h.pendingLines]
      omega
    · intro hsome
      rw [hzero] at hsome
      exact absurd hsome (Nat.lt_irrefl 0)
    · intro front e heq
      rw [hnone] at heq
      simp at heq
    · rw [hnone]
      exact fun e he => absurd he List.not_mem_nil

theorem booked (calls : List HostCall) : Booked calls (calls.foldl HostCall.run {}) := by
  induction calls using List.reverseRecOn with
  | nil => exact ⟨rfl, .slnil, rfl, fun h => absurd h (Nat.lt_irrefl 0), by simp [Buffered], by simp⟩
  | append_singleton calls c ih =>
    rw [List.foldl_append]
    cases c with
    | append tsIso level message => exact ih.append tsIso level message
    | flushNow => exact ih.flushNow

/-- **Every dropped line is accounted for.** What the flushes hand on are the kept lines in the
order they were appended, and notices; the lines that were appended are the kept ones, those the
notices count, and those the next flush will announce; and the buffer is over its bound by one
line at most. -/
theorem drops_accounted (calls : List HostCall) :
    let s := calls.foldl HostCall.run {}
    (lines s.written ++ s.pending = s.accepted ∧
      (s.accepted.map Entry.text).Sublist (offered calls)) ∧
    (offered calls).length = s.accepted.length + announced s.written + s.droppedLines ∧
    (0 < s.droppedLines →
      (flushNow s).written = s.written ++ s.pending ++ [.notice s.droppedLines]) ∧
    (flushNow s).droppedLines = 0 ∧
    Buffered s.pending := by
  intro s
  have h : Booked calls s := booked calls
  refine ⟨⟨h.kept, h.texts⟩, h.counts, fun hsome => ?_, ?_, h.buffered⟩
  · rw [(flushNow_ledger (h.pending_of_dropped hsome)).2.2.2, State.chunk, if_pos hsome,
      List.append_assoc]
  · by_cases hpending : s.pending = []
    · rw [flushNow_empty hpending]
      by_contra hsome
      exact h.pending_of_dropped (Nat.pos_of_ne_zero hsome) hpending
    · exact (flushNow_ledger hpending).2.1

end Tombstone.SessionLog
