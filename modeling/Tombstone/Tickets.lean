import Mathlib.Logic.Function.Basic
import Tombstone.Flush
import Tombstone.Sources

/- Which job is which (`worker.cpp`). An `UploadJob` has no name of its own: a retry moves it
   back into the queue with another attempt and another time. This file

   1. gives every enqueued job a ticket, and keeps it when the worker enqueues the job that it
      has in flight once more (`Tickets`, `tracked`); proof-only, no step of the client reads it;
   2. says what the retry discipline asks of the sendings of one ticket and of the answers to
      them (`Disciplined`), with the pause after a failure stated apart from the code
      (`Pause`);
   3. proves what a sending and an answer do to them. -/
namespace Tombstone

/-- The same job, but for the attempt and its time. -/
def UploadJob.Same (j j' : UploadJob) : Prop :=
  { j with attempt := j'.attempt, notBefore := j'.notBefore } = j'

instance (j j' : UploadJob) : Decidable (j.Same j') :=
  inferInstanceAs (Decidable ({ j with attempt := j'.attempt, notBefore := j'.notBefore } = j'))

namespace UploadJob

variable {j j' j'' : UploadJob}

theorem Same.refl (j : UploadJob) : j.Same j := rfl

theorem Same.symm (h : j.Same j') : j'.Same j := by
  unfold Same at h ⊢
  rw [← h]

theorem Same.trans (h : j.Same j') (h' : j'.Same j'') : j.Same j'' := by
  unfold Same at h h' ⊢
  rw [← h', ← h]

theorem Same.durability (h : j.Same j') : j.durability = j'.durability := by
  rw [← show _ = j' from h]

theorem Same.retried (j : UploadJob) (now : Nat) (hint : Option Nat) :
    j.Same (Worker.retried j now hint) := rfl

end UploadJob

namespace Runtime

/-- The job is handed to the transport. -/
structure Sending where
  job : UploadJob
  time : Nat

/-- The transport's answer is there. -/
structure Answer where
  response : HttpResponse
  time : Nat

/-- Who is who: the queue with its tickets, the job in flight, and for each ticket what was
sent and answered, in order. -/
structure Tickets where
  next : Nat := 0
  queued : List (Nat × UploadJob) := []
  held : Option (Nat × UploadJob) := none
  sent : Nat → List Sending := fun _ => []
  answers : Nat → List Answer := fun _ => []

namespace Tickets

/-- What stays in the queue when another job comes. -/
def kept (k : Tickets) : List (Nat × UploadJob) :=
  if Worker.maxQueueSize ≤ k.queued.length then k.queued.drop 1 else k.queued

/-- The worker's thread gives back the job it holds; every other job is a new one. -/
def enqueue (k : Tickets) (t : Nat) (job : UploadJob) : Tickets :=
  match k.held with
  | some (n, j) =>
    if t = 2 ∧ j.Same job then { k with queued := k.kept ++ [(n, job)], held := none }
    else { k with queued := k.kept ++ [(k.next, job)], next := k.next + 1 }
  | none => { k with queued := k.kept ++ [(k.next, job)], next := k.next + 1 }

/-- The first job that is due, with its ticket, and the queue without it. -/
def takeReady (now : Nat) : List (Nat × UploadJob) → Option ((Nat × UploadJob) × List (Nat × UploadJob))
  | [] => none
  | e :: rest =>
    if e.2.notBefore ≤ now then some (e, rest)
    else (takeReady now rest).map fun r => (r.1, e :: r.2)

def take (k : Tickets) (now : Nat) : Tickets :=
  match takeReady now k.queued with
  | none => k
  | some (e, rest) => { k with queued := rest, held := some e }

def send (k : Tickets) (job : UploadJob) (now : Nat) : Tickets :=
  match k.held with
  | none => k
  | some (n, _) => { k with sent := Function.update k.sent n (k.sent n ++ [⟨job, now⟩]) }

def answer (k : Tickets) (response : HttpResponse) (now : Nat) : Tickets :=
  match k.held with
  | none => k
  | some (n, _) =>
    { k with answers := Function.update k.answers n (k.answers n ++ [⟨response, now⟩]) }

/-- What one action of thread `t` does to the tickets. -/
def act (k : Tickets) (t : Nat) (s s' : State) (i : Input) : Act → Tickets
  | .enqueue job => k.enqueue t job
  | .takeReadyJob | .waiting _ => if s'.worker.inFlight then k.take s.now else k
  | .post job => k.send job s.now
  | .await _ => k.answer i.response s.now
  | .clearInFlight => { k with held := none }
  | .joinWorker => { k with queued := [] }
  | _ => k

/-- A new process starts with an empty queue; tickets are not given twice. -/
def observe (k : Tickets) (c c' : Config) : Label → Tickets
  | .exec t i =>
    match c.threads[t]? with
    | some (a :: _) => k.act t c.shared c'.shared i a
    | _ => k
  | .env (.launch _) => { k with queued := [], held := none }
  | _ => k

end Tickets

/-- A step of the client, and what it does to the tickets. -/
def tracked (x : Config × Tickets) (l : Label) : Option (Config × Tickets) :=
  (step x.1 l).map fun c' => (c', x.2.observe x.1 c' l)

/-! ## The discipline -/

/-- The pause before the `k`-th retry, in seconds, after a failure with this response. -/
inductive Pause (k : Nat) (r : HttpResponse) : Nat → Prop where
  | asked (n : Nat) (status : r.status = 429 ∨ r.status = 503) (asks : AsksFor r.retryAfter n) :
      Pause k r (min 300 (max (2 ^ k) n))
  | backoff (none : ¬ ((r.status = 429 ∨ r.status = 503) ∧ ∃ n, AsksFor r.retryAfter n)) :
      Pause k r (2 ^ k)

/-- Sendings of one job, and the answers to them. -/
structure Disciplined (sent : List Sending) (answers : List Answer) : Prop where
  few : sent.length ≤ 5
  once : ∀ x ∈ sent, x.job.durability = .ephemeral → sent.length ≤ 1
  same : ∀ x ∈ sent, ∀ y ∈ sent, x.job.Same y.job
  paired : answers.length ≤ sent.length ∧ sent.length ≤ answers.length + 1
  /-- The `k + 1`-th retry comes after a transient failure, and after its pause. -/
  again : ∀ k x, sent[k + 1]? = some x → ∃ y, answers[k]? = some y ∧
    y.response.outcome = .transient ∧ ∀ d, Pause (k + 1) y.response d → y.time + seconds d ≤ x.time

/-- The worker's delay is no shorter than the pause. -/
theorem pause_le_retryDelay {k : Nat} {r : HttpResponse} {d : Nat} (hk : 1 ≤ k) (hk5 : k ≤ 5)
    (h : Pause k r d) : d ≤ retryDelay k (retryAfterHint r.status r.retryAfter) := by
  have hattempt : min (max k 1) 5 = k := by omega
  have hpow : 2 ^ k ≤ 2 ^ 5 := Nat.pow_le_pow_right (by decide) hk5
  cases h with
  | asked n status asks =>
    have hhint : retryAfterHint r.status r.retryAfter = some n := by
      have hstatus : ¬ (r.status ≠ 429 ∧ r.status ≠ 503) := by omega
      rw [retryAfterHint, if_neg hstatus]
      exact parseRetryAfterSeconds_iff.mpr asks
    rw [hhint, retryDelay, hattempt, Option.getD_some, maxRetryAfterSeconds]
    omega
  | backoff none =>
    rw [retryDelay, hattempt, maxRetryAfterSeconds]
    omega

/-! ## One ticket -/

/-- The job has been sent as often as its attempt says, each time in vain, and waits. -/
structure Waiting (k : Tickets) (n : Nat) (job : UploadJob) : Prop where
  sends : (k.sent n).length = job.attempt
  answered : (k.answers n).length = job.attempt
  attempts : job.attempt < 5
  same : ∀ x ∈ k.sent n, x.job.Same job
  law : Disciplined (k.sent n) (k.answers n)
  pause : ∀ m, job.attempt = m + 1 → job.durability ≠ .ephemeral ∧
    ∃ y, (k.answers n)[m]? = some y ∧ y.response.outcome = .transient ∧
      ∀ d, Pause (m + 1) y.response d → y.time + seconds d ≤ job.notBefore

/-- The job is with the transport. -/
structure Unanswered (k : Tickets) (n : Nat) (job : UploadJob) : Prop where
  sends : (k.sent n).length = job.attempt + 1
  answered : (k.answers n).length = job.attempt
  attempts : job.attempt < 5
  same : ∀ x ∈ k.sent n, x.job.Same job
  law : Disciplined (k.sent n) (k.answers n)

section Ticket

variable {k k' : Tickets} {n : Nat} {job : UploadJob}

theorem Waiting.frame (h : Waiting k n job) (hs : k'.sent n = k.sent n)
    (ha : k'.answers n = k.answers n) : Waiting k' n job := by
  obtain ⟨sends, answered, attempts, same, law, pause⟩ := h
  rw [← hs] at sends same law
  rw [← ha] at answered law pause
  exact ⟨sends, answered, attempts, same, law, pause⟩

theorem Unanswered.frame (h : Unanswered k n job) (hs : k'.sent n = k.sent n)
    (ha : k'.answers n = k.answers n) : Unanswered k' n job := by
  obtain ⟨sends, answered, attempts, same, law⟩ := h
  rw [← hs] at sends same law
  rw [← ha] at answered law
  exact ⟨sends, answered, attempts, same, law⟩

theorem disciplined_nil : Disciplined [] [] where
  few := Nat.zero_le _
  once := fun x hx => absurd hx List.not_mem_nil
  same := fun x hx => absurd hx List.not_mem_nil
  paired := ⟨Nat.le_refl _, Nat.zero_le _⟩
  again := by
    intro k x hx
    rw [List.getElem?_nil] at hx
    cases hx

/-- A new job has not been sent. -/
theorem Waiting.fresh (hs : k.sent n = []) (ha : k.answers n = []) (hjob : job.attempt = 0) :
    Waiting k n job := by
  refine ⟨?_, ?_, ?_, ?_, ?_, ?_⟩
  · rw [hs, hjob]
    rfl
  · rw [ha, hjob]
    rfl
  · omega
  · rw [hs]
    exact fun x hx => absurd hx List.not_mem_nil
  · rw [hs, ha]
    exact disciplined_nil
  · intro m hm
    omega

/-- **A job that is due is sent.** -/
theorem Waiting.send (h : Waiting k n job) {now : Nat} (hdue : job.notBefore ≤ now)
    (hs : k'.sent n = k.sent n ++ [⟨job, now⟩]) (ha : k'.answers n = k.answers n) :
    Unanswered k' n job := by
  have hlength : (k'.sent n).length = job.attempt + 1 := by
    rw [hs, List.length_append, List.length_singleton, h.sends]
  have hsame : ∀ x ∈ k'.sent n, x.job.Same job := by
    intro x hx
    rw [hs] at hx
    rcases List.mem_append.mp hx with hx | hx
    · exact h.same x hx
    · rw [List.mem_singleton.mp hx]
      exact .refl job
  refine ⟨hlength, by rw [ha, h.answered], h.attempts, hsame, ?_⟩
  refine ⟨?_, fun x hx he => ?_, fun x hx y hy => (hsame x hx).trans (hsame y hy).symm, ?_, ?_⟩
  · have hattempts := h.attempts
    omega
  · -- a job that is retried is not ephemeral
    rw [(hsame x hx).durability] at he
    cases hm : job.attempt with
    | zero => omega
    | succ m => exact absurd he (h.pause m hm).1
  · rw [ha, h.answered, hlength]
    omega
  · intro m x hx
    rw [ha]
    rw [hs] at hx
    by_cases hold : m + 1 < (k.sent n).length
    · rw [List.getElem?_append_left hold] at hx
      exact h.law.again m x hx
    · have hlast : m + 1 = (k.sent n).length := by
        have hlt := (List.getElem?_eq_some_iff.mp hx).1
        rw [List.length_append, List.length_singleton] at hlt
        omega
      rw [hlast, List.getElem?_concat_length] at hx
      obtain rfl := Option.some.inj hx
      obtain ⟨-, y, hy, htransient, hpause⟩ := h.pause m (by rw [← h.sends, hlast])
      exact ⟨y, hy, htransient, fun d hd => (hpause d hd).trans hdue⟩

/-- **A job with the transport is answered.** -/
theorem Unanswered.answer (h : Unanswered k n job) {y : Answer} (hs : k'.sent n = k.sent n)
    (ha : k'.answers n = k.answers n ++ [y]) : Disciplined (k'.sent n) (k'.answers n) := by
  rw [hs, ha]
  refine ⟨h.law.few, h.law.once, h.law.same, ?_, fun m x hx => ?_⟩
  · rw [List.length_append, List.length_singleton, h.sends, h.answered]
    omega
  · have hlt := (List.getElem?_eq_some_iff.mp hx).1
    rw [h.sends] at hlt
    rw [List.getElem?_append_left (by rw [h.answered]; omega)]
    exact h.law.again m x hx

/-- **And after a transient answer it waits for its next attempt**, as long as it has one. -/
theorem Unanswered.retry (h : Unanswered k n job) {response : HttpResponse} {now : Nat}
    (hs : k'.sent n = k.sent n) (ha : k'.answers n = k.answers n ++ [⟨response, now⟩])
    (hmore : job.attempt + 1 < 5) (hkept : job.durability ≠ .ephemeral)
    (htransient : response.outcome = .transient) :
    Waiting k' n (Worker.retried job now (retryAfterHint response.status response.retryAfter)) := by
  refine ⟨?_, ?_, hmore, ?_, h.answer hs ha, fun m hm => ?_⟩
  · rw [hs]
    exact h.sends
  · rw [ha, List.length_append, List.length_singleton, h.answered]
    rfl
  · rw [hs]
    exact fun x hx => (h.same x hx).trans (.retried job now _)
  · obtain rfl : job.attempt = m := Nat.succ.inj hm
    refine ⟨hkept, ⟨response, now⟩, ?_, htransient, fun d hd => ?_⟩
    · rw [ha, ← h.answered]
      exact List.getElem?_concat_length
    · have hle := pause_le_retryDelay (Nat.succ_pos _) (Nat.le_of_lt hmore) hd
      have hseconds : seconds d ≤ seconds (retryDelay (job.attempt + 1)
          (retryAfterHint response.status response.retryAfter)) := Nat.mul_le_mul_right _ hle
      exact Nat.add_le_add_left hseconds now

end Ticket

end Runtime

end Tombstone
