import Tombstone.Dedupe

/- What a run of checks tells about the dedupe table: every suppressed check follows an
   allowed check of its signature less than a window ago, and the count it reports is the
   number of checks that were suppressed since.

   `DedupeCheck.moves` says once what a check does to the table; the invariants are read off
   it. -/
namespace Tombstone

/-- A check of a run, with the table it meets. -/
structure DedupeCheck where
  signature : Bytes
  now : Int
  table : DedupeWindow

namespace DedupeWindow

/-- The table at the start. -/
def fresh (window : Int) : DedupeWindow where
  window := window
  recent := []
  keys := List.nodup_nil
  bounded := Nat.zero_le _

variable {w : DedupeWindow} {signature key : Bytes} {entry found : DedupeEntry} {now : Int}

theorem lookup_iff : w.recent.lookup signature = some entry ↔ (signature, entry) ∈ w.recent := by
  rw [List.lookup_eq_some_iff]
  constructor
  · rintro ⟨front, back, hrecent, -⟩
    rw [hrecent]
    simp
  · intro hmem
    obtain ⟨front, back, hrecent⟩ := List.append_of_mem hmem
    refine ⟨front, back, hrecent, fun e he => ?_⟩
    have hkeys := w.keys
    rw [hrecent, List.map_append, List.map_cons, List.nodup_append] at hkeys
    have hne := hkeys.2.2 e.1 (List.mem_map_of_mem he) signature List.mem_cons_self
    simpa using hne.symm

theorem lookup_none_iff :
    w.recent.lookup signature = none ↔ signature ∉ w.recent.map Prod.fst := by
  rw [List.lookup_eq_none_iff]
  constructor
  · intro h hmem
    obtain ⟨e, he, heq⟩ := List.mem_map.mp hmem
    simpa [heq] using h e he
  · intro h e he
    have hne : signature ≠ e.1 := fun heq => h (heq ▸ List.mem_map_of_mem he)
    simpa using hne

theorem mem_put (h : signature ∈ w.recent.map Prod.fst) :
    (key, found) ∈ (w.put signature entry).recent ↔
      (key = signature ∧ found = entry) ∨ (key ≠ signature ∧ (key, found) ∈ w.recent) := by
  unfold put
  simp only [List.mem_map]
  constructor
  · rintro ⟨e, he, heq⟩
    split at heq
    · next hsame =>
      injection heq with hkey hentry
      exact .inl ⟨hkey.symm, hentry.symm⟩
    · next hother =>
      subst heq
      exact .inr ⟨hother, he⟩
  · rintro (⟨rfl, rfl⟩ | ⟨hother, hmem⟩)
    · obtain ⟨e, he, rfl⟩ := List.mem_map.mp h
      exact ⟨e, he, if_pos rfl⟩
    · exact ⟨(key, found), hmem, if_neg hother⟩

theorem mem_track (h : signature ∉ w.recent.map Prod.fst) :
    (key, found) ∈ (w.track signature entry h).recent ↔
      (key = signature ∧ found = entry) ∨
        (w.recent.length < maxTrackedSignatures ∧ (key, found) ∈ w.recent) := by
  unfold track
  split
  · next hfull => simp [Nat.not_lt.mpr hfull]
  · next hroom =>
    simp only [List.mem_append, List.mem_singleton, Prod.mk.injEq, Nat.not_le.mp hroom, true_and]
    exact or_comm

end DedupeWindow

namespace DedupeCheck

open DedupeWindow (maxTrackedSignatures)

variable {c : DedupeCheck} {key : Bytes} {entry : DedupeEntry}

def decision (c : DedupeCheck) : DedupeDecision := (c.table.check c.signature c.now).1

def allowed (c : DedupeCheck) : Bool := c.decision.allowed

/-- The table the next check meets. -/
def after (c : DedupeCheck) : DedupeWindow := (c.table.check c.signature c.now).2

/-- The signature is untracked and the table is full, so that it is emptied. -/
def Resets (c : DedupeCheck) : Prop :=
  c.signature ∉ c.table.recent.map Prod.fst ∧ maxTrackedSignatures ≤ c.table.recent.length

/-- The signature was last reported less than a window ago, as far as the table knows. -/
def HeldBy (c : DedupeCheck) (entry : DedupeEntry) : Prop :=
  (c.signature, entry) ∈ c.table.recent ∧ c.now - entry.lastSent < c.table.window

/-- Where a check moves the table to. -/
inductive Moves (c : DedupeCheck) : Prop
  | suppressed (entry : DedupeEntry) (held : c.HeldBy entry)
      (decided : c.decision = ⟨false, entry.suppressed + 1⟩)
      (tracks : ∀ key found, (key, found) ∈ c.after.recent ↔
        (key = c.signature ∧ found = { entry with suppressed := entry.suppressed + 1 }) ∨
          (key ≠ c.signature ∧ (key, found) ∈ c.table.recent))
  | reported (free : ∀ entry, ¬ c.HeldBy entry) (decided : c.decision = ⟨true, 0⟩)
      (tracks : ∀ key found, (key, found) ∈ c.after.recent ↔
        (key = c.signature ∧ found = ⟨c.now, 0⟩) ∨
          (key ≠ c.signature ∧ ¬ c.Resets ∧ (key, found) ∈ c.table.recent))

theorem moves (c : DedupeCheck) : c.Moves := by
  obtain ⟨signature, now, w⟩ := c
  have hcheck : ∀ r, w.check signature now = r →
      (DedupeCheck.mk signature now w).decision = r.1 ∧
        (DedupeCheck.mk signature now w).after = r.2 := by
    rintro r rfl
    exact ⟨rfl, rfl⟩
  cases hfound : w.recent.lookup signature with
  | some entry =>
    have hmem := DedupeWindow.lookup_iff.mp hfound
    have hkey : signature ∈ w.recent.map Prod.fst := List.mem_map_of_mem hmem
    by_cases hnow : now - entry.lastSent < w.window
    · have hdone : w.check signature now = (⟨false, entry.suppressed + 1⟩,
          w.put signature { entry with suppressed := entry.suppressed + 1 }) := by
        unfold DedupeWindow.check
        split <;> simp_all
      obtain ⟨hdecision, hafter⟩ := hcheck _ hdone
      refine .suppressed entry ⟨hmem, hnow⟩ hdecision fun key found => ?_
      rw [hafter, DedupeWindow.mem_put hkey]
    · have hdone : w.check signature now = (⟨true, 0⟩, w.put signature ⟨now, 0⟩) := by
        unfold DedupeWindow.check
        split <;> simp_all
      obtain ⟨hdecision, hafter⟩ := hcheck _ hdone
      refine .reported (fun other hother => ?_) hdecision fun key found => ?_
      · have hsame := DedupeWindow.lookup_iff.mpr hother.1
        rw [hfound, Option.some.injEq] at hsame
        exact hnow (hsame ▸ hother.2)
      · rw [hafter, DedupeWindow.mem_put hkey]
        simp [Resets, hkey]
  | none =>
    have hkey := DedupeWindow.lookup_none_iff.mp hfound
    have hdone : w.check signature now = (⟨true, 0⟩, w.track signature ⟨now, 0⟩ hkey) := by
      unfold DedupeWindow.check
      split <;> simp_all
    obtain ⟨hdecision, hafter⟩ := hcheck _ hdone
    refine .reported (fun other hother => hkey (List.mem_map_of_mem hother.1)) hdecision
      fun key found => ?_
    rw [hafter, DedupeWindow.mem_track]
    apply or_congr_right
    have hother : (key, found) ∈ w.recent → key ≠ signature := by
      intro hmem heq
      exact hkey (heq ▸ List.mem_map_of_mem hmem)
    simp only [Resets, hkey, not_false_eq_true, true_and, Nat.not_le]
    exact ⟨fun h => ⟨hother h.2, h⟩, fun h => h.2⟩

/-- The table `w` is the one the first of the checks meets, and every other check meets the
table of the check before it. -/
def Follows : DedupeWindow → List DedupeCheck → Prop
  | _, [] => True
  | w, c :: checks => c.table = w ∧ Follows c.after checks

theorem after_window (c : DedupeCheck) : c.after.window = c.table.window := by
  unfold after DedupeWindow.check
  split
  · split <;> rfl
  · unfold DedupeWindow.track
    split <;> rfl

theorem Follows.append : ∀ {front rest : List DedupeCheck} {w : DedupeWindow},
    Follows w (front ++ c :: rest) → Follows w front ∧ Follows c.after rest
  | [], _, _, h => ⟨trivial, h.2⟩
  | _ :: _, _, _, h => ⟨⟨h.1, (Follows.append h.2).1⟩, (Follows.append h.2).2⟩

/-- The rule for what a run of checks keeps: it holds of the table each check meets. -/
theorem Follows.induction {P : List DedupeCheck → DedupeWindow → Prop}
    (hstep : ∀ past c, P past c.table → P (past ++ [c]) c.after) :
    ∀ {front rest : List DedupeCheck} {w : DedupeWindow} {past : List DedupeCheck},
      P past w → Follows w (front ++ c :: rest) → P (past ++ front) c.table
  | [], _, w, past, h, hrun => by
    have htable : c.table = w := hrun.1
    rw [htable, List.append_nil]
    exact h
  | a :: front, rest, w, past, h, hrun => by
    have htable : a.table = w := hrun.1
    have hnext := Follows.induction hstep (hstep past a (htable ▸ h)) hrun.2
    rwa [List.append_assoc, List.singleton_append] at hnext

/-! ## Suppressed checks -/

/-- `sent` is the latest check of `key` that was allowed, and `back` what came after it. -/
structure LatestAllowed (past : List DedupeCheck) (key : Bytes) (sent : DedupeCheck)
    (back : List DedupeCheck) : Prop where
  split : ∃ front, past = front ++ sent :: back
  same : sent.signature = key
  reported : sent.allowed = true
  latest : ∀ b ∈ back, b.signature = key → b.allowed = false

/-- The suppressed checks of `key`. -/
def repeats (key : Bytes) (checks : List DedupeCheck) : Nat :=
  checks.countP fun c => decide (c.signature = key) && !c.allowed

/-- Every entry of the table tells of the latest allowed check of its signature. -/
def Tells (window : Int) (past : List DedupeCheck) (w : DedupeWindow) : Prop :=
  w.window = window ∧ ∀ key entry, (key, entry) ∈ w.recent →
    ∃ sent back, LatestAllowed past key sent back ∧ sent.now = entry.lastSent ∧
      repeats key back = entry.suppressed

theorem LatestAllowed.other {past back : List DedupeCheck} {sent : DedupeCheck}
    (h : LatestAllowed past key sent back) (hc : c.signature = key → c.allowed = false) :
    LatestAllowed (past ++ [c]) key sent (back ++ [c]) where
  split := by
    obtain ⟨front, rfl⟩ := h.split
    exact ⟨front, by simp⟩
  same := h.same
  reported := h.reported
  latest := by
    intro b hb
    rcases List.mem_append.mp hb with hold | hnew
    · exact h.latest b hold
    · exact List.mem_singleton.mp hnew ▸ hc

theorem Tells.step {window : Int} (past : List DedupeCheck) (c : DedupeCheck)
    (h : Tells window past c.table) : Tells window (past ++ [c]) c.after := by
  refine ⟨(after_window c).trans h.1, fun key entry hmem => ?_⟩
  cases c.moves with
  | suppressed held hheld hdecided htracks =>
    have hsup : c.allowed = false := by rw [allowed, hdecided]
    rcases (htracks key entry).mp hmem with ⟨rfl, rfl⟩ | ⟨hother, hold⟩
    · obtain ⟨sent, back, hsent, hnow, hcount⟩ := h.2 _ _ hheld.1
      refine ⟨sent, back ++ [c], hsent.other fun _ => hsup, hnow, ?_⟩
      simpa [repeats, hsup] using hcount
    · obtain ⟨sent, back, hsent, hnow, hcount⟩ := h.2 _ _ hold
      refine ⟨sent, back ++ [c], hsent.other fun _ => hsup, hnow, ?_⟩
      simpa [repeats, hother.symm] using hcount
  | reported hfree hdecided htracks =>
    have hallowed : c.allowed = true := by rw [allowed, hdecided]
    rcases (htracks key entry).mp hmem with ⟨rfl, rfl⟩ | ⟨hother, -, hold⟩
    · exact ⟨c, [], ⟨⟨past, rfl⟩, rfl, hallowed, by simp⟩, rfl, rfl⟩
    · obtain ⟨sent, back, hsent, hnow, hcount⟩ := h.2 _ _ hold
      refine ⟨sent, back ++ [c], hsent.other fun heq => (hother heq.symm).elim, hnow, ?_⟩
      simpa [repeats, hother.symm] using hcount

/-- A suppressed check is held back by an entry, whose count it raises. -/
theorem held_of_suppressed (h : c.allowed = false) :
    ∃ entry, c.HeldBy entry ∧ c.decision.suppressedCount = entry.suppressed + 1 := by
  cases c.moves with
  | suppressed entry held decided _ => exact ⟨entry, held, by rw [decided]⟩
  | reported _ decided _ =>
    rw [allowed, decided] at h
    exact absurd h (by decide)

end DedupeCheck

namespace DedupeWindow

open DedupeCheck

/-- The checks a list of calls makes, each a signature and a time. -/
def trail (w : DedupeWindow) : List (Bytes × Int) → List DedupeCheck
  | [] => []
  | (signature, now) :: calls =>
    let c : DedupeCheck := { signature, now, table := w }
    c :: c.after.trail calls

theorem follows_trail : ∀ (calls : List (Bytes × Int)) (w : DedupeWindow), Follows w (w.trail calls)
  | [], _ => trivial
  | _ :: calls, _ => ⟨rfl, follows_trail calls _⟩

theorem trail_times (calls : List (Bytes × Int)) (w : DedupeWindow)
    (h : (calls.map Prod.snd).Pairwise (· ≤ ·)) :
    (w.trail calls).Pairwise fun c d => c.now ≤ d.now := by
  have hnow : ∀ (calls : List (Bytes × Int)) (w : DedupeWindow),
      (w.trail calls).map DedupeCheck.now = calls.map Prod.snd := by
    intro calls
    induction calls with
    | nil => exact fun _ => rfl
    | cons call calls ih =>
      intro w
      rw [trail, List.map_cons, List.map_cons, ih]
  rwa [← hnow calls w, List.pairwise_map] at h

/-- **Nothing new is swallowed.** A suppressed check follows an allowed one of its signature
less than a window ago, and reports how many were suppressed since; the first check of a
signature, and the first after a window without an allowed one, is allowed; and the table
stays within its bound. -/
theorem suppresses_repeats (window : Int) (calls : List (Bytes × Int))
    (past rest : List DedupeCheck) (c : DedupeCheck)
    (h : (DedupeWindow.fresh window).trail calls = past ++ c :: rest) :
    (c.allowed = false → ∃ sent back, LatestAllowed past c.signature sent back ∧
      c.now - sent.now < window ∧
      c.decision.suppressedCount = repeats c.signature (back ++ [c])) ∧
    ((∀ p ∈ past, p.signature ≠ c.signature) → c.allowed = true) ∧
    ((∀ p ∈ past, p.signature = c.signature → p.allowed = true → window ≤ c.now - p.now) →
      c.allowed = true) ∧
    c.table.recent.length ≤ maxTrackedSignatures ∧
    c.after.recent.length ≤ maxTrackedSignatures := by
  have hrun := follows_trail calls (.fresh window)
  rw [h] at hrun
  have htells : Tells window ([] ++ past) c.table :=
    Follows.induction Tells.step ⟨rfl, fun _ _ hmem => absurd hmem List.not_mem_nil⟩ hrun
  rw [List.nil_append] at htells
  have hsuppressed : c.allowed = false → ∃ sent back, LatestAllowed past c.signature sent back ∧
      c.now - sent.now < window ∧
      c.decision.suppressedCount = repeats c.signature (back ++ [c]) := by
    intro hsup
    obtain ⟨entry, hheld, hreports⟩ := held_of_suppressed hsup
    obtain ⟨sent, back, hsent, hnow, hcount⟩ := htells.2 _ _ hheld.1
    refine ⟨sent, back, hsent, ?_, ?_⟩
    · rw [hnow, ← htells.1]
      exact hheld.2
    · rw [hreports, ← hcount]
      simp [repeats, hsup]
  have hlate : (∀ p ∈ past, p.signature = c.signature → p.allowed = true →
      window ≤ c.now - p.now) → c.allowed = true := by
    intro hpast
    by_contra hsup
    obtain ⟨sent, back, hsent, hnow, -⟩ := hsuppressed (by simpa using hsup)
    obtain ⟨front, rfl⟩ := hsent.split
    have hwindow := hpast sent (by simp) hsent.same hsent.reported
    omega
  refine ⟨hsuppressed, fun hfirst => hlate fun p hp hsame => ?_, hlate, c.table.bounded,
    c.after.bounded⟩
  exact (hfirst p hp hsame).elim

/-- The second check of a signature is suppressed for the first. -/
theorem suppresses_repeats_second :
    let first : DedupeCheck := { signature := [1], now := 0, table := .fresh 60 }
    let second : DedupeCheck := { signature := [1], now := 20, table := first.after }
    second.allowed = false ∧ ∃ sent back, LatestAllowed [first] [1] sent back ∧
      20 - sent.now < 60 ∧ second.decision.suppressedCount = repeats [1] (back ++ [second]) := by
  intro first second
  have hsup : second.allowed = false := by decide
  exact ⟨hsup, (suppresses_repeats 60 [([1], 0), ([1], 20)] [first] [] second rfl).1 hsup⟩

end DedupeWindow

end Tombstone
