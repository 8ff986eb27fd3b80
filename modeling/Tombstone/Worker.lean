import Tombstone.Batch
import Tombstone.SidecarQueue

/- The background delivery thread's data (`worker.h`, `worker.cpp`): jobs, the bounded
   queue, and how a result is classified. What the thread does step by step is in
   `Runtime`. Times are nanoseconds of the steady clock. -/
namespace Tombstone

inductive Durability where
  | ephemeral
  | persistOnFailure
  | writeAhead
  deriving DecidableEq, Repr

/-- Where a job came from; proof-only. A report keeps its number across retries and
launches, an envelope the items it was built from. -/
inductive Origin where
  | report (number : Nat)
  | items (items : List Item)
  | heartbeat
  | playerLogs
  | fulfil
  | logUpload
  deriving DecidableEq, Repr

def Origin.number : Origin → Option Nat
  | .report n => some n
  | _ => none

/-- One outbound item (`UploadJob`). -/
structure UploadJob where
  isLogUpload : Bool := false
  formFields : List (Bytes × Bytes) := []
  url : Bytes := []
  body : Bytes := []
  raw : Bytes := []
  durability : Durability := .persistOnFailure
  kind : SidecarKind := .event
  sidecarPath : Option SidecarPath := none
  requestLog : Bool := false
  logFromPrevious : Bool := false
  noPersist : Bool := false
  parseAck : Bool := false
  signBody : Bool := false
  suppressRtt : Bool := false
  attempt : Nat := 0
  notBefore : Nat := 0
  origin : Origin
  deriving DecidableEq, Repr

/-- `HttpResponse`: a default one is a transport error. -/
structure HttpResponse where
  transportError : Bool := true
  status : Int := 0
  body : Bytes := []
  retryAfter : Bytes := []
  deriving DecidableEq, Repr

inductive Outcome where
  | delivered
  | transient
  | poison
  deriving DecidableEq, Repr

/-- `classify`. -/
def classify (transportError : Bool) (status : Int) : Outcome :=
  if transportError then .transient
  else if 200 ≤ status ∧ status < 300 then .delivered
  else if status = 408 ∨ status = 429 ∨ 500 ≤ status then .transient
  else .poison

def HttpResponse.outcome (r : HttpResponse) : Outcome := classify r.transportError r.status

/-- `retry_after_hint`: Retry-After counts on 429 and 503 only. -/
def retryAfterHint (status : Int) (retryAfter : Bytes) : Option Nat :=
  if status ≠ 429 ∧ status ≠ 503 then none else parseRetryAfterSeconds retryAfter

/-- The worker's state behind its mutex. -/
structure Worker where
  queue : List UploadJob := []
  running : Bool := false
  inFlight : Bool := false
  previousLogClaimed : Bool := false
  wakeRequested : Bool := false
  nextLogFlush : Nat := 0
  deriving DecidableEq, Repr

namespace Worker

def maxQueueSize : Nat := 256
def maxAttempts : Nat := 5
def logFlushInterval : Nat := seconds 5
def batchCheckInterval : Nat := seconds 1

/-- `Worker::start`. -/
def start (w : Worker) (now : Nat) : Worker :=
  if w.running then w else { w with running := true, nextLogFlush := now + logFlushInterval }

/-- `Worker::wake`. -/
def wake (w : Worker) : Worker := { w with wakeRequested := true }

/-- What `enqueue` drops: the oldest job of a full queue. -/
def overflow (w : Worker) : List UploadJob :=
  if maxQueueSize ≤ w.queue.length then w.queue.take 1 else []

/-- `Worker::enqueue`. -/
def enqueue (w : Worker) (job : UploadJob) : Worker :=
  let kept := if maxQueueSize ≤ w.queue.length then w.queue.drop 1 else w.queue
  { w with queue := kept ++ [job] }

/-- The predicate of `Worker::flush`. -/
def drained (w : Worker) : Bool := w.queue.isEmpty && !w.inFlight

/-- The loop of `take_ready_job`: the first job that is due, and the queue without it. -/
def takeReady (now : Nat) : List UploadJob → Option (UploadJob × List UploadJob)
  | [] => none
  | job :: rest =>
    if job.notBefore ≤ now then some (job, rest)
    else (takeReady now rest).map fun r => (r.1, job :: r.2)

/-- The predicate the worker's loop waits for. -/
def wakes (w : Worker) (now : Nat) : Bool :=
  !w.running || w.wakeRequested || w.queue.any (fun job => decide (job.notBefore ≤ now)) ||
    decide (w.nextLogFlush ≤ now)

/-- `next_wakeup`, with the batch drainer installed. -/
def nextWakeup (w : Worker) (now : Nat) : Nat :=
  min (w.queue.foldl (fun t job => min t job.notBefore) w.nextLogFlush) (now + batchCheckInterval)

/-- The job `retry_or_give_up` puts back. -/
def retried (job : UploadJob) (now : Nat) (retryAfter : Option Nat) : UploadJob :=
  { job with
    attempt := job.attempt + 1
    notBefore := now + seconds (retryDelay (job.attempt + 1) retryAfter) }

/-- Whether a job that is given up is written to disk: it is no log upload, may be
persisted, and has no file yet. -/
def persistable (job : UploadJob) : Bool :=
  !job.isLogUpload && !job.noPersist && job.sidecarPath.isNone && job.durability != .ephemeral

/-! ## The queue -/

theorem enqueue_queue (w : Worker) (job : UploadJob) :
    w.overflow ++ (w.enqueue job).queue = w.queue ++ [job] := by
  simp only [overflow, enqueue]
  split
  · rw [← List.append_assoc, List.take_append_drop]
  · rfl

theorem mem_enqueue {w : Worker} {job j : UploadJob} (h : j ∈ (w.enqueue job).queue) :
    j ∈ w.queue ∨ j = job := by
  have hm : j ∈ w.overflow ++ (w.enqueue job).queue := List.mem_append_right _ h
  rw [enqueue_queue] at hm
  simpa using hm

/-- **What a take can do**: the job taken is due, and the rest keeps its order. -/
theorem takeReady_some {now : Nat} {queue rest : List UploadJob} {job : UploadJob}
    (h : takeReady now queue = some (job, rest)) :
    ∃ before after, queue = before ++ job :: after ∧ rest = before ++ after ∧
      job.notBefore ≤ now ∧ ∀ j ∈ before, now < j.notBefore := by
  induction queue generalizing rest with
  | nil => simp [takeReady] at h
  | cons head tail ih =>
    simp only [takeReady] at h
    split at h
    · rename_i hdue
      simp only [Option.some.injEq, Prod.mk.injEq] at h
      obtain ⟨rfl, rfl⟩ := h
      exact ⟨[], _, rfl, rfl, hdue, by simp⟩
    · rename_i hdue
      obtain ⟨⟨j, r⟩, hr, heq⟩ := Option.map_eq_some_iff.mp h
      simp only [Prod.mk.injEq] at heq
      obtain ⟨rfl, rfl⟩ := heq
      obtain ⟨before, after, rfl, rfl, hj, hb⟩ := ih hr
      refine ⟨head :: before, after, rfl, rfl, hj, fun j hmem => ?_⟩
      rcases List.mem_cons.mp hmem with rfl | hmem
      · omega
      · exact hb j hmem

end Worker

end Tombstone
