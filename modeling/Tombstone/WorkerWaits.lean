import Tombstone.Monitor
import Tombstone.Worker

/- How the worker's thread and the callers of `flush` sleep and are woken (`worker.cpp`: `run`,
   `next_wakeup`, `flush`, `wake`, `enqueue`, `stop`).

   Both wait on the one condition variable: the worker until something is due, a flush until all is
   delivered. This file takes the waits apart that `Runtime` takes in one step: the mutex, the check,
   the sleep and the notifications. What the transport answers, and what the batches hold, comes from
   the environment. -/
namespace Tombstone.WorkerWaits
open Monitor

/-- A job as its callers build it: due at once. -/
abbrev FreshJob := { job : UploadJob // job.notBefore = 0 }

/-- What `batch_drainer_` and a response make the worker enqueue; whether the job itself is retried
instead, with the server's hint; and whether a batch asks for a wake. -/
structure Input where
  jobs : List FreshJob := []
  retry : Option (Option Nat) := none
  wakes : Bool := false

structure Data where
  worker : Worker := {}
  /-- The worker's thread has returned. -/
  ended : Bool := false
  /-- The thread that runs `~Client`. -/
  destroyer : Option Nat := none

/-- Who waits: the worker's loop, or a flush. -/
inductive Wait where
  | loop
  | flush
  deriving DecidableEq

inductive Action where
  -- the worker's loop
  | loopTop
  | batchDrainer
  | nextWakeup
  | wakeUp
  | takeReadyJob
  | process (job : UploadJob)
  | clearInFlight
  | exit
  -- what the calls do
  | push (job : UploadJob)
  | wake
  | flushUntil (timeout : Nat)
  | stopRunning
  | join
  | swapLeftovers
  deriving DecidableEq

abbrev Act := Monitor.Act Action Wait
abbrev Config := Monitor.Config Data Action Wait

/-- `Worker::enqueue`. -/
def enqueue (job : UploadJob) : List Act := [.lock, .act (.push job), .unlock, .notifyAll]

/-- `Worker::wake`: the flag is stored without the mutex. -/
def wake : List Act := [.act .wake, .notifyAll]

/-- `Worker::flush`. -/
def flush (timeout : Nat) : List Act := [.lock, .act (.flushUntil timeout), .unlock]

/-- `Worker::queued_count`. -/
def queuedCount : List Act := [.lock, .unlock]

/-- `Worker::stop`. -/
def stop : List Act := [.lock, .act .stopRunning]

/-- What `process` enqueues: the job again, or what its response led to. -/
def processed (job : UploadJob) (now : Nat) (i : Input) : List Act :=
  match i.retry with
  | some hint => enqueue (Worker.retried job now hint)
  | none => i.jobs.flatMap (fun job => enqueue job.val) ++ if i.wakes then wake else []

/-- One action, and what follows from it. -/
def act (s : Data) (now : Nat) (a : Action) (i : Input) : Option (Data × List Act) :=
  match a with
  | .loopTop => some (s, [.act .batchDrainer, .lock, .act .nextWakeup, .act .wakeUp])
  | .batchDrainer => some (s, i.jobs.flatMap fun job => enqueue job.val)
  | .nextWakeup => some (s, [.check .loop (s.worker.nextWakeup now)])
  | .wakeUp =>
    if !s.worker.running then some (s, [.unlock, .act .exit])
    else
      let worker := { s.worker with wakeRequested := false }
      if worker.nextLogFlush ≤ now then
        -- `flush_now` runs without the mutex
        some ({ s with worker := { worker with nextLogFlush := now + Worker.logFlushInterval } },
          [.unlock, .lock, .act .takeReadyJob])
      else some ({ s with worker }, [.act .takeReadyJob])
  | .takeReadyJob =>
    match Worker.takeReady now s.worker.queue with
    | none => some (s, [.unlock, .act .loopTop])
    | some (job, rest) =>
      some ({ s with worker := { s.worker with queue := rest, inFlight := true } },
        [.unlock, .act (.process job), .lock, .act .clearInFlight, .unlock, .notifyAll, .act .loopTop])
  | .process job => some (s, processed job now i)
  | .clearInFlight => some ({ s with worker := { s.worker with inFlight := false } }, [])
  | .exit => some ({ s with ended := true }, [])
  | .push job => some ({ s with worker := s.worker.enqueue job }, [])
  | .wake => some ({ s with worker := s.worker.wake }, [])
  | .flushUntil timeout => some (s, [.check .flush (now + timeout)])
  | .stopRunning =>
    if !s.worker.running then some (s, [.unlock])
    else some ({ s with worker := { s.worker with running := false } },
      [.unlock, .notifyAll, .act .join, .lock, .act .swapLeftovers, .unlock])
  | .join => if s.ended then some (s, []) else none
  | .swapLeftovers => some ({ s with worker := { s.worker with queue := [] } }, [])

/-- The predicates of the two waits. -/
def holds : Wait → Data → Nat → Bool
  | .loop, s, now => s.worker.wakes now
  | .flush, s, _ => s.worker.drained

/-- What the client's other threads call, and the end of `~Client`, which runs when no call is under
way any more: its drained batches, the quit flush, and `stop`. -/
inductive Call where
  | enqueue (job : FreshJob)
  | wake
  | flush (timeout : Nat)
  | queuedCount
  | destroy (jobs : List FreshJob)

def Call.program : Call → List Act
  | .enqueue job => WorkerWaits.enqueue job.val
  | .wake => WorkerWaits.wake
  | .flush timeout => WorkerWaits.flush timeout
  | .queuedCount => WorkerWaits.queuedCount
  | .destroy jobs =>
    jobs.flatMap (fun job => WorkerWaits.enqueue job.val) ++ WorkerWaits.flush (seconds 2) ++ stop

/-- The worker has thread 0 to itself. -/
def enter (s : Shared Data) (threads : List (List Act)) (t : Nat) (k : Call) :
    Option (Data × List Act) :=
  if t = 0 ∨ s.data.destroyer ≠ none then none
  else match k with
    | .destroy _ =>
      if threads.tail.all List.isEmpty then some ({ s.data with destroyer := some t }, k.program) else none
    | _ => some (s.data, k.program)

/-- The actions that are taken under the mutex. -/
def before : Action → Bool
  | .nextWakeup | .wakeUp | .takeReadyJob | .clearInFlight | .push _ | .flushUntil _ | .stopRunning
  | .swapLeftovers => true
  | _ => false

/-- Those that are still under it when all that follows from them is done. -/
def after : Action → Bool
  | .nextWakeup | .clearInFlight | .push _ | .flushUntil _ | .swapLeftovers => true
  | _ => false

def system : System Data Action Wait Input Call := { act, holds, enter, before, after }

abbrev Label := Monitor.Label Input Call

def step : Config → Label → Option Config := Monitor.step system

/-- The worker was started, and nothing has been called. -/
structure Started (c : Config) : Prop where
  worker : c.threads.head? = some [.act .loopTop]
  idle : ∀ p ∈ c.threads.tail, p = []
  shared : c.shared = { data := { worker := Worker.start {} c.shared.now }, now := c.shared.now }

abbrev Reachable (c : Config) : Prop := Run.Reachable step Started c

/-- The worker has just been started, and there is one other thread. -/
def idle : Config := ⟨{ data := { worker := Worker.start {} 0 } }, [[.act .loopTop], []]⟩

theorem started_idle : Started idle := ⟨rfl, by simp [idle], rfl⟩

/-- Thread `t` takes its next `n` steps. -/
def goes (t n : Nat) : List Label := List.replicate n (.exec t ({}, false))

variable {c c' : Config} {l : Label} {s s' : Data} {now : Nat} {a : Action} {i : Input} {new p q : List Act}

/-! ## Brackets -/

theorem segment_enqueue (job : UploadJob) : Segment system false false (enqueue job) :=
  .lock (.act (Action.push job) (.unlock (.notifyAll (.nil false))))

theorem segment_wake : Segment system false false wake := .act Action.wake (.notifyAll (.nil false))

theorem segment_enqueues (jobs : List FreshJob) :
    Segment system false false (jobs.flatMap fun job => enqueue job.val) := by
  induction jobs with
  | nil => exact .nil false
  | cons job jobs ih => exact (segment_enqueue job.val).append ih

theorem segment_processed (job : UploadJob) (now : Nat) (i : Input) :
    Segment system false false (processed job now i) := by
  unfold processed
  split
  · exact segment_enqueue _
  · refine (segment_enqueues i.jobs).append ?_
    split
    · exact segment_wake
    · exact .nil false

theorem segment_flush (timeout : Nat) : Segment system false false (flush timeout) :=
  .lock (.act (Action.flushUntil timeout) (.unlock (.nil false)))

theorem segment_program (k : Call) : Segment system false false k.program := by
  cases k with
  | enqueue job => exact segment_enqueue job.val
  | wake => exact segment_wake
  | flush timeout => exact segment_flush timeout
  | queuedCount => exact .lock (.unlock (.nil false))
  | destroy jobs =>
    exact ((segment_enqueues jobs).append (segment_flush _)).append
      (.lock (.act Action.stopRunning (.nil false)))

/-- **What an action does**, with what follows from it. -/
theorem act_segment (h : act s now a i = some (s', new)) : Segment system (before a) (after a) new := by
  cases a with
  | loopTop =>
    obtain ⟨-, rfl⟩ := Prod.mk.inj (Option.some.inj h)
    exact .act Action.batchDrainer (.lock (.act Action.nextWakeup (.act Action.wakeUp (.nil false))))
  | batchDrainer =>
    obtain ⟨-, rfl⟩ := Prod.mk.inj (Option.some.inj h)
    exact segment_enqueues i.jobs
  | nextWakeup =>
    obtain ⟨-, rfl⟩ := Prod.mk.inj (Option.some.inj h)
    exact .check Wait.loop _ (.nil true)
  | wakeUp =>
    simp only [act] at h
    split_ifs at h
    · obtain ⟨-, rfl⟩ := Prod.mk.inj (Option.some.inj h)
      exact .unlock (.act Action.exit (.nil false))
    · obtain ⟨-, rfl⟩ := Prod.mk.inj (Option.some.inj h)
      exact .unlock (.lock (.act Action.takeReadyJob (.nil false)))
    · obtain ⟨-, rfl⟩ := Prod.mk.inj (Option.some.inj h)
      exact .act Action.takeReadyJob (.nil false)
  | takeReadyJob =>
    simp only [act] at h
    split at h
    · obtain ⟨-, rfl⟩ := Prod.mk.inj (Option.some.inj h)
      exact .unlock (.act Action.loopTop (.nil false))
    · rename_i job _ _
      obtain ⟨-, rfl⟩ := Prod.mk.inj (Option.some.inj h)
      exact .unlock (.act (Action.process job) (.lock (.act Action.clearInFlight
        (.unlock (.notifyAll (.act Action.loopTop (.nil false)))))))
  | process job =>
    obtain ⟨-, rfl⟩ := Prod.mk.inj (Option.some.inj h)
    exact segment_processed job now i
  | clearInFlight | exit | push | wake | swapLeftovers =>
    obtain ⟨-, rfl⟩ := Prod.mk.inj (Option.some.inj h)
    exact .nil _
  | flushUntil timeout =>
    obtain ⟨-, rfl⟩ := Prod.mk.inj (Option.some.inj h)
    exact .check Wait.flush _ (.nil true)
  | stopRunning =>
    simp only [act] at h
    split at h
    · obtain ⟨-, rfl⟩ := Prod.mk.inj (Option.some.inj h)
      exact .unlock (.nil false)
    · obtain ⟨-, rfl⟩ := Prod.mk.inj (Option.some.inj h)
      exact .unlock (.notifyAll (.act Action.join (.lock (.act Action.swapLeftovers
        (.unlock (.nil false))))))
  | join =>
    obtain ⟨-, h⟩ := Option.ite_none_right_eq_some.1 h
    obtain ⟨-, rfl⟩ := Prod.mk.inj (Option.some.inj h)
    exact .nil false

theorem enter_cases {s : Shared Data} {ps : List (List Act)} {t : Nat} {k : Call}
    (h : enter s ps t k = some (s', new)) :
    t ≠ 0 ∧ s.data.destroyer = none ∧ s'.worker = s.data.worker ∧ new = k.program ∧
      (s'.destroyer = none ∧ (∀ jobs, k ≠ .destroy jobs) ∨
        s'.destroyer = some t ∧ ∀ p ∈ ps.tail, p = []) := by
  obtain ⟨hallowed, h⟩ := Option.ite_none_left_eq_some.1 h
  obtain ⟨ht, hnone⟩ := not_or.1 hallowed
  rw [not_not] at hnone
  cases k with
  | destroy jobs =>
    obtain ⟨hidle, h⟩ := Option.ite_none_right_eq_some.1 h
    obtain ⟨rfl, rfl⟩ := Prod.mk.inj (Option.some.inj h)
    refine ⟨ht, hnone, rfl, rfl, .inr ⟨rfl, fun p hp => ?_⟩⟩
    exact List.isEmpty_iff.1 (List.all_eq_true.1 hidle p hp)
  | _ =>
    obtain ⟨rfl, rfl⟩ := Prod.mk.inj (Option.some.inj h)
    exact ⟨ht, hnone, rfl, rfl, .inl ⟨hnone, nofun⟩⟩

theorem balanced : Balanced system where
  segment := act_segment
  entry h := by
    obtain ⟨-, -, -, rfl, -⟩ := enter_cases h
    exact segment_program _

/-! ## Announcements -/

/-- The actions that may give a waiting thread a cause to go on, `stop` and the leftovers apart. -/
def announces : Action → Bool
  | .push _ | .wake | .clearInFlight => true
  | _ => false

/-- Those that may are followed by a notification. -/
def Announced : List Act → Prop
  | [] => True
  | .act a :: rest => (announces a = true → Imminent rest) ∧ Announced rest
  | _ :: rest => Announced rest

theorem Announced.append (hp : Announced p) (hq : Announced q) : Announced (p ++ q) := by
  induction p with
  | nil => exact hq
  | cons b p ih =>
    cases b with
    | act a => exact ⟨fun ha => (hp.1 ha).append q, ih hp.2⟩
    | _ => exact ih hp

theorem Announced.tail {b : Act} (h : Announced (b :: p)) : Announced p := by
  cases b with
  | act a => exact h.2
  | _ => exact h

theorem announced_enqueue (job : UploadJob) : Announced (enqueue job) := by
  simp [enqueue, Announced, Imminent]

theorem announced_enqueues (jobs : List FreshJob) :
    Announced (jobs.flatMap fun job => enqueue job.val) := by
  induction jobs with
  | nil => trivial
  | cons job jobs ih => exact (announced_enqueue job.val).append ih

theorem announced_wake : Announced wake := by
  simp [wake, Announced, Imminent]

theorem announced_program (k : Call) : Announced k.program := by
  cases k with
  | enqueue job => exact announced_enqueue job.val
  | wake => exact announced_wake
  | flush timeout => exact ⟨nofun, trivial⟩
  | queuedCount => trivial
  | destroy jobs =>
    have hflush : Announced (flush (seconds 2)) := ⟨nofun, trivial⟩
    have hstop : Announced stop := ⟨nofun, trivial⟩
    exact ((announced_enqueues jobs).append hflush).append hstop

theorem announced_act (h : act s now a i = some (s', new)) : Announced new := by
  cases a with
  | loopTop | nextWakeup | flushUntil | clearInFlight | exit | push | wake | swapLeftovers =>
    obtain ⟨-, rfl⟩ := Prod.mk.inj (Option.some.inj h)
    simp [Announced, announces]
  | batchDrainer =>
    obtain ⟨-, rfl⟩ := Prod.mk.inj (Option.some.inj h)
    exact announced_enqueues i.jobs
  | wakeUp =>
    simp only [act] at h
    split_ifs at h <;>
    · obtain ⟨-, rfl⟩ := Prod.mk.inj (Option.some.inj h)
      simp [Announced, announces, Imminent]
  | takeReadyJob =>
    simp only [act] at h
    split at h <;>
    · obtain ⟨-, rfl⟩ := Prod.mk.inj (Option.some.inj h)
      simp [Announced, announces, Imminent]
  | process job =>
    obtain ⟨-, rfl⟩ := Prod.mk.inj (Option.some.inj h)
    unfold processed
    split
    · exact announced_enqueue _
    · refine (announced_enqueues i.jobs).append ?_
      split
      · exact announced_wake
      · trivial
  | stopRunning =>
    simp only [act] at h
    split at h <;>
    · obtain ⟨-, rfl⟩ := Prod.mk.inj (Option.some.inj h)
      simp [Announced, announces, Imminent]
  | join =>
    obtain ⟨-, h⟩ := Option.ite_none_right_eq_some.1 h
    obtain ⟨-, rfl⟩ := Prod.mk.inj (Option.some.inj h)
    trivial

/-! ## What the threads have to do -/

/-- The deadline is no later than anything the worker waits for, apart from what it is notified
of. -/
structure Armed (deadline : Nat) (s : Data) (now : Nat) : Prop where
  jobs : ∀ job ∈ s.worker.queue, job.notBefore = 0 ∨ deadline ≤ job.notBefore
  logFlush : deadline ≤ s.worker.nextLogFlush
  batch : deadline ≤ now + Worker.batchCheckInterval

def OfWorker : Act → Prop
  | .act (.flushUntil _) | .act .stopRunning | .act .join | .act .swapLeftovers => False
  | .check _ _ | .sleep _ _ | .asleep _ _ _ => False
  | _ => True

/-- The worker's thread: in a wait, its deadline is armed. -/
inductive Looping (s : Data) (now : Nat) : List Act → Prop
  | running {p : List Act} : (∀ b ∈ p, OfWorker b) → Looping s now p
  | check {deadline : Nat} {p : List Act} : Armed deadline s now → (∀ b ∈ p, OfWorker b) →
    Looping s now (.check .loop deadline :: p)
  | sleep {deadline : Nat} {p : List Act} : Armed deadline s now → (∀ b ∈ p, OfWorker b) →
    Looping s now (.sleep .loop deadline :: p)
  | asleep {deadline since : Nat} {p : List Act} : Armed deadline s now → (∀ b ∈ p, OfWorker b) →
    Looping s now (.asleep .loop deadline since :: p)

/-- Any other thread: the jobs it enqueues are due at once, and only `~Client` stops the worker. -/
def OfCaller (s : Data) (t : Nat) : Act → Prop
  | .act (.push job) => job.notBefore = 0
  | .act .wake | .act (.flushUntil _) => True
  | .act .stopRunning | .act .join | .act .swapLeftovers => s.destroyer = some t
  | .act _ => False
  | .check w _ | .sleep w _ | .asleep w _ _ => w = .flush
  | _ => True

structure Fits (s : Shared Data) (t : Nat) (p : List Act) : Prop where
  announced : Announced p
  worker : t = 0 → Looping s.data s.now p
  caller : t ≠ 0 → ∀ b ∈ p, OfCaller s.data t b
  alone : t ≠ 0 → s.data.destroyer ≠ none → s.data.destroyer ≠ some t → p = []

theorem foldl_min_le (jobs : List UploadJob) : ∀ start : Nat,
    jobs.foldl (fun t job => min t job.notBefore) start ≤ start ∧
    ∀ job ∈ jobs, jobs.foldl (fun t job => min t job.notBefore) start ≤ job.notBefore := by
  induction jobs with
  | nil => exact fun start => ⟨le_rfl, fun job hjob => absurd hjob List.not_mem_nil⟩
  | cons head jobs ih =>
    intro start
    obtain ⟨hstart, hjobs⟩ := ih (min start head.notBefore)
    refine ⟨hstart.trans (min_le_left _ _), fun job hjob => ?_⟩
    rcases List.mem_cons.1 hjob with rfl | hjob
    · exact hstart.trans (min_le_right _ _)
    · exact hjobs job hjob

/-- `next_wakeup` arms the deadline. -/
theorem armed_nextWakeup (s : Data) (now : Nat) : Armed (s.worker.nextWakeup now) s now := by
  obtain ⟨hflush, hjobs⟩ := foldl_min_le s.worker.queue s.worker.nextLogFlush
  exact ⟨fun job hjob => .inr ((min_le_left _ _).trans (hjobs job hjob)),
    (min_le_left _ _).trans hflush, min_le_right _ _⟩

theorem Armed.later {deadline now' : Nat} (h : Armed deadline s now) (hle : now ≤ now') :
    Armed deadline s now' :=
  ⟨h.jobs, h.logFlush, h.batch.trans (Nat.add_le_add_right hle _)⟩

/-- No caller makes the worker oversleep. -/
theorem Armed.caller {deadline t : Nat} (h : Armed deadline s now) (ha : OfCaller s t (.act a))
    (hact : act s now a i = some (s', new)) : Armed deadline s' now := by
  cases a with
  | push job =>
    obtain ⟨rfl, -⟩ := Prod.mk.inj (Option.some.inj hact)
    refine ⟨fun j hj => ?_, h.logFlush, h.batch⟩
    rcases Worker.mem_enqueue hj with hj | rfl
    · exact h.jobs j hj
    · exact .inl ha
  | wake | flushUntil =>
    obtain ⟨rfl, -⟩ := Prod.mk.inj (Option.some.inj hact)
    exact ⟨h.jobs, h.logFlush, h.batch⟩
  | stopRunning =>
    simp only [act] at hact
    split at hact <;>
    · obtain ⟨rfl, -⟩ := Prod.mk.inj (Option.some.inj hact)
      exact ⟨h.jobs, h.logFlush, h.batch⟩
  | join =>
    obtain ⟨-, hact⟩ := Option.ite_none_right_eq_some.1 hact
    obtain ⟨rfl, -⟩ := Prod.mk.inj (Option.some.inj hact)
    exact h
  | swapLeftovers =>
    obtain ⟨rfl, -⟩ := Prod.mk.inj (Option.some.inj hact)
    exact ⟨fun j hj => absurd hj List.not_mem_nil, h.logFlush, h.batch⟩
  | _ => exact ha.elim

theorem worker_enqueue (job : UploadJob) : ∀ b ∈ enqueue job, OfWorker b := by
  simp [enqueue, OfWorker]

theorem worker_enqueues (jobs : List FreshJob) :
    ∀ b ∈ jobs.flatMap fun job => enqueue job.val, OfWorker b := by
  intro b hb
  obtain ⟨job, -, hb⟩ := List.mem_flatMap.1 hb
  exact worker_enqueue job.val b hb

theorem worker_processed (job : UploadJob) (now : Nat) (i : Input) :
    ∀ b ∈ processed job now i, OfWorker b := by
  unfold processed
  split
  · exact worker_enqueue _
  · refine List.forall_mem_append.2 ⟨worker_enqueues i.jobs, ?_⟩
    split
    · simp [wake, OfWorker]
    · exact fun _ hb => absurd hb List.not_mem_nil

/-- What follows from an action of the worker's loop. -/
theorem looping_act {rest : List Act} (ha : OfWorker (.act a)) (hrest : ∀ b ∈ rest, OfWorker b)
    (h : act s now a i = some (s', new)) : Looping s' now (new ++ rest) := by
  cases a with
  | nextWakeup =>
    obtain ⟨rfl, rfl⟩ := Prod.mk.inj (Option.some.inj h)
    exact .check (armed_nextWakeup s now) hrest
  | loopTop | clearInFlight | exit | push | wake =>
    obtain ⟨-, rfl⟩ := Prod.mk.inj (Option.some.inj h)
    exact .running (List.forall_mem_append.2 ⟨by simp [OfWorker], hrest⟩)
  | batchDrainer =>
    obtain ⟨-, rfl⟩ := Prod.mk.inj (Option.some.inj h)
    exact .running (List.forall_mem_append.2 ⟨worker_enqueues i.jobs, hrest⟩)
  | process job =>
    obtain ⟨-, rfl⟩ := Prod.mk.inj (Option.some.inj h)
    exact .running (List.forall_mem_append.2 ⟨worker_processed job now i, hrest⟩)
  | wakeUp =>
    simp only [act] at h
    split_ifs at h <;>
    · obtain ⟨-, rfl⟩ := Prod.mk.inj (Option.some.inj h)
      exact .running (List.forall_mem_append.2 ⟨by simp [OfWorker], hrest⟩)
  | takeReadyJob =>
    simp only [act] at h
    split at h <;>
    · obtain ⟨-, rfl⟩ := Prod.mk.inj (Option.some.inj h)
      exact .running (List.forall_mem_append.2 ⟨by simp [OfWorker], hrest⟩)
  | _ => exact ha.elim

/-- What follows from an action of another thread. -/
theorem caller_act {t : Nat} (ha : OfCaller s t (.act a)) (h : act s now a i = some (s', new)) :
    ∀ b ∈ new, OfCaller s' t b := by
  cases a with
  | push | wake | swapLeftovers =>
    obtain ⟨-, rfl⟩ := Prod.mk.inj (Option.some.inj h)
    exact fun b hb => absurd hb List.not_mem_nil
  | flushUntil timeout =>
    obtain ⟨-, rfl⟩ := Prod.mk.inj (Option.some.inj h)
    simp [OfCaller]
  | stopRunning =>
    simp only [act] at h
    split at h
    · obtain ⟨-, rfl⟩ := Prod.mk.inj (Option.some.inj h)
      simp [OfCaller]
    · obtain ⟨rfl, rfl⟩ := Prod.mk.inj (Option.some.inj h)
      have hdestroyer : s.destroyer = some t := ha
      simp [OfCaller, hdestroyer]
  | join =>
    obtain ⟨-, h⟩ := Option.ite_none_right_eq_some.1 h
    obtain ⟨-, rfl⟩ := Prod.mk.inj (Option.some.inj h)
    exact fun b hb => absurd hb List.not_mem_nil
  | _ => exact ha.elim

theorem act_destroyer (h : act s now a i = some (s', new)) : s'.destroyer = s.destroyer := by
  cases a with
  | wakeUp =>
    simp only [act] at h
    split_ifs at h <;>
    · obtain ⟨rfl, -⟩ := Prod.mk.inj (Option.some.inj h)
      rfl
  | takeReadyJob | stopRunning =>
    simp only [act] at h
    split at h <;>
    · obtain ⟨rfl, -⟩ := Prod.mk.inj (Option.some.inj h)
      rfl
  | join =>
    obtain ⟨-, h⟩ := Option.ite_none_right_eq_some.1 h
    obtain ⟨rfl, -⟩ := Prod.mk.inj (Option.some.inj h)
    rfl
  | _ =>
    obtain ⟨rfl, -⟩ := Prod.mk.inj (Option.some.inj h)
    rfl

theorem OfCaller.congr {t : Nat} {b : Act} (h : OfCaller s t b) (hd : s'.destroyer = s.destroyer) :
    OfCaller s' t b := by
  cases b with
  | act a =>
    cases a with
    | stopRunning | join | swapLeftovers => exact hd.trans h
    | _ => exact h
  | _ => exact h

theorem Looping.mono {now' : Nat} (h : Looping s now p)
    (harmed : ∀ deadline, Armed deadline s now → Armed deadline s' now') : Looping s' now' p := by
  cases h with
  | running hp => exact .running hp
  | check ha hp => exact .check (harmed _ ha) hp
  | sleep ha hp => exact .sleep (harmed _ ha) hp
  | asleep ha hp => exact .asleep (harmed _ ha) hp

/-- A thread that looks on. -/
theorem Fits.mono {s s' : Shared Data} {t : Nat} (h : Fits s t p)
    (hd : s'.data.destroyer = s.data.destroyer)
    (harmed : t = 0 → ∀ deadline, Armed deadline s.data s.now → Armed deadline s'.data s'.now) :
    Fits s' t p where
  announced := h.announced
  worker ht := (h.worker ht).mono (harmed ht)
  caller ht b hb := (h.caller ht b hb).congr hd
  alone ht := by
    rw [hd]
    exact h.alone ht

theorem looping_step {s s' : Shared Data} {b : Act} {j : Input × Bool} {rest : List Act}
    (hp : Looping s.data s.now (b :: rest)) (h : perform system s b j = some (s', new)) :
    Looping s'.data s'.now (new ++ rest) := by
  obtain ⟨hnow, ⟨x, rfl, hx⟩ | ⟨hdata, hnot, hnew⟩⟩ := perform_cases h
  · cases hp with
    | running hp =>
      obtain ⟨ha, hrest⟩ := List.forall_mem_cons.1 hp
      rw [hnow]
      exact looping_act ha hrest hx
  · rw [hnow, hdata]
    cases hp with
    | running hp =>
      obtain ⟨ha, hrest⟩ := List.forall_mem_cons.1 hp
      rcases hnew with rfl | ⟨w, deadline, ⟨rfl, -⟩ | ⟨rfl, -⟩ | ⟨since, rfl, -⟩⟩
      · exact .running hrest
      · exact ha.elim
      · exact ha.elim
      · exact ha.elim
    | check harmed hrest =>
      rcases hnew with rfl | ⟨w, deadline, ⟨hb, rfl⟩ | ⟨hb, -⟩ | ⟨since, hb, -⟩⟩
      · exact .running hrest
      · cases hb
        exact .sleep harmed hrest
      · cases hb
      · cases hb
    | sleep harmed hrest =>
      rcases hnew with rfl | ⟨w, deadline, ⟨hb, -⟩ | ⟨hb, rfl⟩ | ⟨since, hb, -⟩⟩
      · exact .running hrest
      · cases hb
      · cases hb
        exact .asleep harmed hrest
      · cases hb
    | asleep harmed hrest =>
      rcases hnew with rfl | ⟨w, deadline, ⟨hb, -⟩ | ⟨hb, -⟩ | ⟨since, hb, rfl⟩⟩
      · exact .running hrest
      · cases hb
      · cases hb
      · cases hb
        exact .check harmed hrest

theorem announced_step {s s' : Shared Data} {b : Act} {j : Input × Bool} {rest : List Act}
    (hp : Announced (b :: rest)) (h : perform system s b j = some (s', new)) :
    Announced (new ++ rest) := by
  obtain ⟨-, ⟨x, rfl, hx⟩ | ⟨-, -, hnew⟩⟩ := perform_cases h
  · exact (announced_act hx).append hp.tail
  · rcases hnew with rfl | ⟨w, deadline, ⟨-, rfl⟩ | ⟨-, rfl⟩ | ⟨since, -, rfl⟩⟩ <;> exact hp.tail

theorem caller_step {s s' : Shared Data} {b : Act} {j : Input × Bool} {t : Nat} {rest : List Act}
    (hp : ∀ x ∈ b :: rest, OfCaller s.data t x) (h : perform system s b j = some (s', new)) :
    ∀ x ∈ new ++ rest, OfCaller s'.data t x := by
  obtain ⟨hb, hrest⟩ := List.forall_mem_cons.1 hp
  obtain ⟨-, ⟨x, rfl, hx⟩ | ⟨hdata, -, hnew⟩⟩ := perform_cases h
  · exact List.forall_mem_append.2 ⟨caller_act hb hx, fun x hmem => (hrest x hmem).congr (act_destroyer hx)⟩
  · rw [hdata]
    refine List.forall_mem_append.2 ⟨?_, hrest⟩
    rcases hnew with rfl | ⟨w, deadline, ⟨rfl, rfl⟩ | ⟨rfl, rfl⟩ | ⟨since, rfl, rfl⟩⟩
    · exact fun x hmem => absurd hmem List.not_mem_nil
    · exact List.forall_mem_singleton.2 hb
    · exact List.forall_mem_singleton.2 hb
    · exact List.forall_mem_singleton.2 hb

/-- Every thread does what it is there for. -/
abbrev Good : Config → Prop := Interleave.Inv (fun _ => True) Fits

theorem perform_destroyer {s s' : Shared Data} {b : Act} {j : Input × Bool}
    (h : perform system s b j = some (s', new)) : s'.data.destroyer = s.data.destroyer := by
  obtain ⟨-, ⟨x, -, hx⟩ | ⟨hdata, -⟩⟩ := perform_cases h
  · exact act_destroyer hx
  · rw [hdata]

theorem perform_armed {s s' : Shared Data} {b : Act} {j : Input × Bool} {deadline t : Nat}
    (h : perform system s b j = some (s', new)) (hb : OfCaller s.data t b)
    (harmed : Armed deadline s.data s.now) : Armed deadline s'.data s'.now := by
  obtain ⟨hnow, ⟨x, rfl, hx⟩ | ⟨hdata, -⟩⟩ := perform_cases h
  · rw [hnow]
    exact harmed.caller hb hx
  · rwa [hnow, hdata]

theorem caller_enqueues {t : Nat} (jobs : List FreshJob) :
    ∀ b ∈ jobs.flatMap fun job => enqueue job.val, OfCaller s t b := by
  intro b hb
  obtain ⟨job, -, hb⟩ := List.mem_flatMap.1 hb
  have hall : ∀ b ∈ enqueue job.val, OfCaller s t b := by
    simp [enqueue, OfCaller, job.property]
  exact hall b hb

theorem caller_program {t : Nat} {k : Call}
    (h : (∀ jobs, k ≠ .destroy jobs) ∨ s.destroyer = some t) : ∀ b ∈ k.program, OfCaller s t b := by
  cases k with
  | enqueue job => simp [Call.program, enqueue, OfCaller, job.property]
  | wake | flush | queuedCount =>
    simp [Call.program, WorkerWaits.wake, WorkerWaits.flush, WorkerWaits.queuedCount, OfCaller]
  | destroy jobs =>
    have hdestroyer := h.resolve_left fun hnot => hnot jobs rfl
    refine List.forall_mem_append.2 ⟨List.forall_mem_append.2 ⟨caller_enqueues jobs, ?_⟩, ?_⟩
    · simp [WorkerWaits.flush, OfCaller]
    · simp [stop, OfCaller, hdestroyer]

theorem good_step (hc : Good c) (h : step c l = some c') : Good c' := by
  refine Interleave.inv_step ?_ ?_ ?_ hc h
  · intro s t b rest j s' new _ hp hstep
    have hdestroyer := perform_destroyer hstep
    refine ⟨trivial, ⟨announced_step hp.announced hstep, fun ht => looping_step (hp.worker ht) hstep,
      fun ht => caller_step (hp.caller ht) hstep, fun ht hsome hother => ?_⟩, fun u q hu hq => ?_⟩
    · rw [hdestroyer] at hsome hother
      cases hp.alone ht hsome hother
    · refine hq.mono hdestroyer fun hzero deadline harmed => ?_
      subst hzero
      exact perform_armed hstep (hp.caller (Ne.symm hu) b List.mem_cons_self) harmed
  · intro s t k
    exact k.elim
  · intro s ps e s' ps' _ hps he
    cases e with
    | tick elapsed =>
      obtain ⟨rfl, rfl⟩ := Prod.mk.inj (Option.some.inj he)
      refine ⟨trivial, fun t p ht => (hps t p ht).mono rfl fun _ deadline harmed => ?_⟩
      exact harmed.later (Nat.le_add_right _ _)
    | enter t k =>
      simp only [machine, env] at he
      split at he
      · rename_i hidle
        obtain ⟨⟨d, new⟩, hk, he⟩ := Option.map_eq_some_iff.1 he
        obtain ⟨rfl, rfl⟩ := Prod.mk.inj he
        obtain ⟨ht, hnone, hworker, rfl, hcases⟩ := enter_cases hk
        have harmed : ∀ deadline, Armed deadline s.data s.now → Armed deadline d s.now := by
          intro deadline h
          exact ⟨hworker ▸ h.jobs, hworker ▸ h.logFlush, h.batch⟩
        -- the destroyer enters only where nobody else has anything to do
        have hothers : ∀ u p, u ≠ 0 → ps[u]? = some p → d.destroyer = s.data.destroyer ∨ p = [] := by
          intro u p hu hp
          rcases hcases with ⟨hnone', -⟩ | ⟨-, hempty⟩
          · exact .inl (hnone'.trans hnone.symm)
          · obtain ⟨v, rfl⟩ := Nat.exists_eq_succ_of_ne_zero hu
            refine .inr (hempty p (List.mem_of_getElem? (i := v) ?_))
            rwa [List.getElem?_tail]
        have hkeep : ∀ u p, u ≠ t → Fits s u p ∧ ps[u]? = some p →
            Fits { s with data := d } u p := by
          rintro u p - ⟨hfits, hp⟩
          refine ⟨hfits.announced, fun hu => (hfits.worker hu).mono harmed, fun hu => ?_, fun hu => ?_⟩
          · rcases hothers u p hu hp with hd | rfl
            · exact fun b hb => (hfits.caller hu b hb).congr hd
            · exact fun b hb => absurd hb List.not_mem_nil
          · rcases hothers u p hu hp with hd | rfl
            · intro hsome
              exact absurd (hd.trans hnone) hsome
            · exact fun _ _ => rfl
        have hnew : Fits { s with data := d } t k.program := by
          refine ⟨announced_program k, fun hzero => absurd hzero ht, fun _ => ?_, fun _ hsome hother => ?_⟩
          · exact caller_program (hcases.imp And.right And.left)
          · rcases hcases with ⟨hnone', -⟩ | ⟨hself, -⟩
            · exact absurd hnone' hsome
            · exact absurd hself hother
        exact ⟨trivial, Interleave.forall_get_set (fun u p hp => ⟨hps u p hp, hp⟩) hkeep hnew⟩
      · cases he

/-! ## Causes -/

/-- What a notification tells a thread that waits, for which it need not look at the clock. -/
def Cause : Wait → Data → Prop
  | .loop, s => s.worker.running = false ∨ ∃ job ∈ s.worker.queue, job.notBefore = 0
  | .flush, s => s.worker.drained = true

/-- `wake` was called, and the worker has not seen it yet. -/
def Called : Wait → Data → Prop
  | .loop, s => s.worker.wakeRequested = true
  | .flush, _ => False


/-- **What raises a cause** is announced, apart from the leftovers that `stop` takes away. -/
theorem act_cause {w : Wait} (h : act s now a i = some (s', new)) (hR : Cause w s')
    (hnot : ¬ Cause w s) : before a = true ∧ (announces a = true ∧ new = [] ∨ Imminent new ∨
      a = .swapLeftovers ∧ w = .flush) := by
  cases a with
  | loopTop | batchDrainer | nextWakeup | process | flushUntil =>
    obtain ⟨rfl, -⟩ := Prod.mk.inj (Option.some.inj h)
    exact absurd hR hnot
  | exit | wake =>
    obtain ⟨rfl, -⟩ := Prod.mk.inj (Option.some.inj h)
    cases w <;> exact absurd hR hnot
  | push | clearInFlight =>
    obtain ⟨-, rfl⟩ := Prod.mk.inj (Option.some.inj h)
    exact ⟨rfl, .inl ⟨rfl, rfl⟩⟩
  | wakeUp =>
    simp only [act] at h
    split_ifs at h <;>
    · obtain ⟨rfl, -⟩ := Prod.mk.inj (Option.some.inj h)
      cases w <;> exact absurd hR hnot
  | takeReadyJob =>
    simp only [act] at h
    split at h
    · obtain ⟨rfl, -⟩ := Prod.mk.inj (Option.some.inj h)
      exact absurd hR hnot
    · rename_i job rest hready
      obtain ⟨rfl, -⟩ := Prod.mk.inj (Option.some.inj h)
      obtain ⟨front, behind, hqueue, hrest, -⟩ := Worker.takeReady_some hready
      cases w with
      | loop =>
        refine absurd (hR.imp_right ?_) hnot
        rintro ⟨j, hj, hdue⟩
        rw [hrest] at hj
        refine ⟨j, ?_, hdue⟩
        rw [hqueue]
        exact (List.sublist_cons_self job behind).append_left front |>.subset hj
      | flush => simp [Cause, Worker.drained] at hR
  | stopRunning =>
    simp only [act] at h
    split at h
    · obtain ⟨rfl, -⟩ := Prod.mk.inj (Option.some.inj h)
      exact absurd hR hnot
    · obtain ⟨-, rfl⟩ := Prod.mk.inj (Option.some.inj h)
      exact ⟨rfl, .inr (.inl trivial)⟩
  | join =>
    obtain ⟨-, h⟩ := Option.ite_none_right_eq_some.1 h
    obtain ⟨rfl, -⟩ := Prod.mk.inj (Option.some.inj h)
    exact absurd hR hnot
  | swapLeftovers =>
    obtain ⟨rfl, -⟩ := Prod.mk.inj (Option.some.inj h)
    cases w with
    | loop =>
      refine absurd (.inl (hR.resolve_right ?_)) hnot
      rintro ⟨j, hj, -⟩
      cases hj
    | flush => exact ⟨rfl, .inr (.inr ⟨rfl, rfl⟩)⟩

/-- While `stop` takes the leftovers away, no flush is under way. -/
theorem swap_alone {t : Nat} {rest : List Act} (hc : Good c)
    (ht : c.threads[t]? = some (.act .swapLeftovers :: rest)) (hp : p ∈ c.threads) :
    ¬ Waits c.shared.notified Wait.flush p := by
  intro hw
  have hfits := hc.threads t _ ht
  obtain ⟨u, hu⟩ := List.mem_iff_getElem?.1 hp
  have hwaits := hc.threads u p hu
  by_cases hzero : t = 0
  · cases hfits.worker hzero with
    | running hall => exact hall _ List.mem_cons_self
  · have hself : c.shared.data.destroyer = some t := hfits.caller hzero _ List.mem_cons_self
    by_cases hworker : u = 0
    · cases hw with
      | going | gone =>
        cases hwaits.worker hworker with
        | running hall => exact hall _ List.mem_cons_self
    · by_cases hsame : t = u
      · subst hsame
        cases ht.symm.trans hu
        cases hw
      · have hnil := hwaits.alone hworker (by rw [hself]; exact Option.some_ne_none t)
          (by rw [hself]; exact fun h => hsame (Option.some.inj h))
        subst hnil
        cases hw

theorem lawful : Lawful system Cause Good where
  toBalanced := balanced
  cause := by
    intro w s now hfalse hcause
    cases w with
    | loop =>
      simp only [system, holds, Worker.wakes, Bool.or_eq_false_iff, Bool.not_eq_false',
        List.any_eq_false, decide_eq_true_eq] at hfalse
      rcases hcause with hstopped | ⟨job, hjob, hdue⟩
      · rw [hfalse.1.1.1] at hstopped
        cases hstopped
      · exact hfalse.1.2 job hjob (hdue ▸ Nat.zero_le now)
    | flush => exact absurd hcause (Bool.eq_false_iff.1 hfalse)
  raises := by
    intro c t a rest i s' new hgood ht hact p hp w hw hR hnot
    rcases (act_cause hact hR hnot).2 with ⟨hann, rfl⟩ | hnew | ⟨rfl, rfl⟩
    · exact (hgood.threads t _ ht).announced.1 hann
    · exact hnew.append rest
    · exact absurd hw (swap_alone hgood ht hp)
  enters := by
    intro c t k s' new _ _ henter w hR
    obtain ⟨-, -, hworker, -, -⟩ := enter_cases henter
    cases w <;> simpa only [Cause, hworker] using hR

theorem guarded : Guarded system Cause Good := by
  intro c t a rest i s' new _ _ hact hfree w deadline p _ hR
  by_contra hnot
  exact absurd (act_cause hact hR hnot).1 (Bool.eq_false_iff.1 hfree)

theorem started_programs (h : Started c) {t : Nat} (ht : c.threads[t]? = some p) :
    t = 0 ∧ p = [.act .loopTop] ∨ t ≠ 0 ∧ p = [] := by
  have hworker := h.worker
  cases t with
  | zero =>
    rw [List.head?_eq_getElem?, ht] at hworker
    exact .inl ⟨rfl, Option.some.inj hworker⟩
  | succ t =>
    refine .inr ⟨Nat.succ_ne_zero t, h.idle p (List.mem_of_getElem? (i := t) ?_)⟩
    rwa [List.getElem?_tail]

theorem good_started (h : Started c) : Good c := by
  refine ⟨trivial, fun t p ht => ?_⟩
  rcases started_programs h ht with ⟨rfl, rfl⟩ | ⟨hne, rfl⟩
  · exact ⟨⟨nofun, trivial⟩, fun _ => .running (by simp [OfWorker]), fun hne => absurd rfl hne,
      fun hne => absurd rfl hne⟩
  · exact ⟨trivial, fun hzero => absurd hzero hne, fun _ b hb => absurd hb List.not_mem_nil,
      fun _ _ _ => rfl⟩

theorem segment_started (h : Started c) : ∀ p ∈ c.threads, Segment system false false p := by
  intro p hp
  obtain ⟨t, ht⟩ := List.mem_iff_getElem?.1 hp
  rcases started_programs h ht with ⟨-, rfl⟩ | ⟨-, rfl⟩
  · exact .act Action.loopTop (.nil false)
  · exact .nil false

theorem started_unlocked (h : Started c) : c.shared.locked = false := by rw [h.shared]

theorem reachable_heedful (h : Reachable c) : Good c ∧ Heedful system Cause c := by
  refine Run.reachable_inv (I := fun c => Good c ∧ Heedful system Cause c) (fun c hc => ?_)
    (fun c l c' hc hs => ?_) h
  · exact ⟨good_started hc, heedful_start (started_unlocked hc) (segment_started hc)⟩
  · exact ⟨good_step hc.1 hs, heedful_step lawful guarded hc.1 hc.2 hs⟩

/-! ## Sleep -/

/-- **The worker never oversleeps.** While it sleeps and nobody is about to wake it, it is to run on,
and nothing is due before its deadline, which is at most a second away. -/
theorem worker_never_oversleeps (h : Reachable c) {deadline : Nat} {rest : List Act}
    (ht : c.threads[0]? = some (.asleep .loop deadline c.shared.notified :: rest))
    (hquiet : ¬ Pending c) :
    c.shared.data.worker.running = true ∧
    (∀ job ∈ c.shared.data.worker.queue, deadline ≤ job.notBefore) ∧
    deadline ≤ c.shared.data.worker.nextLogFlush ∧
    deadline ≤ c.shared.now + Worker.batchCheckInterval := by
  obtain ⟨hgood, hheedful⟩ := reachable_heedful h
  have hcause : ¬ Cause .loop c.shared.data := fun hcause =>
    hquiet (hheedful.attended _ (List.mem_of_getElem? ht) .loop (.gone deadline rest) hcause)
  obtain ⟨hrunning, hjobs⟩ := not_or.1 hcause
  have harmed : Armed deadline c.shared.data c.shared.now := by
    cases (hgood.threads 0 _ ht).worker rfl with
    | running hall => exact (hall _ List.mem_cons_self).elim
    | asleep harmed _ => exact harmed
  refine ⟨by simpa using hrunning, fun job hjob => ?_, harmed.logFlush, harmed.batch⟩
  exact (harmed.jobs job hjob).resolve_left fun hdue => hjobs ⟨job, hjob, hdue⟩

/-- A job is sent in vain, and queued again; a second and a half later the worker goes to sleep. -/
def retrying : List Label :=
  [.env (.enter 1 (.enqueue ⟨{ origin := .heartbeat }, rfl⟩))] ++ goes 1 4 ++ goes 0 8 ++
    [.exec 0 ({ retry := some none }, false)] ++ goes 0 8 ++ [.env (.tick 1500000000)] ++ goes 0 6

/-- It sleeps until the retry is due. -/
theorem worker_never_oversleeps_retrying : ∃ c, Run.run step idle retrying = some c ∧
    c.threads[0]? = some [.asleep .loop (seconds 2) c.shared.notified, .act .wakeUp] ∧
    c.shared.data.worker.queue.map UploadJob.notBefore = [seconds 2] ∧
    ∀ job ∈ c.shared.data.worker.queue, seconds 2 ≤ job.notBefore := by
  have hrun : (Run.run step idle retrying).map (fun c =>
      (c.threads, c.shared.notified, c.shared.data.worker.queue.map UploadJob.notBefore)) =
      some ([[.asleep .loop (seconds 2) 3, .act .wakeUp], []], 3, [seconds 2]) := by decide +kernel
  obtain ⟨c, hc, hstate⟩ := Option.map_eq_some_iff.1 hrun
  obtain ⟨hthreads, hrest⟩ := Prod.mk.inj hstate
  obtain ⟨hcount, hqueue⟩ := Prod.mk.inj hrest
  have ht : c.threads[0]? = some [.asleep .loop (seconds 2) c.shared.notified, .act .wakeUp] := by
    rw [hthreads, hcount]
    rfl
  have hquiet : ¬ Pending c := by
    rintro ⟨p, hp, hdue⟩
    rw [hthreads] at hp
    rcases List.mem_pair.1 hp with rfl | rfl <;> exact hdue
  obtain ⟨-, hjobs, -, -⟩ := worker_never_oversleeps ⟨idle, _, started_idle, hc⟩ ht hquiet
  exact ⟨c, hc, ht, hqueue, hjobs⟩

/-- **A flush is never forgotten.** While it sleeps and nobody is about to wake it, something is
still to be delivered. -/
theorem flush_never_forgotten (h : Reachable c) {t deadline : Nat} {rest : List Act}
    (ht : c.threads[t]? = some (.asleep .flush deadline c.shared.notified :: rest))
    (hquiet : ¬ Pending c) :
    c.shared.data.worker.queue ≠ [] ∨ c.shared.data.worker.inFlight = true := by
  have hattended := (reachable_heedful h).2.attended _ (List.mem_of_getElem? ht) .flush (.gone deadline rest)
  have hdrained : ¬ c.shared.data.worker.drained = true := fun hcause => hquiet (hattended hcause)
  rw [Worker.drained, Bool.and_eq_true, not_and_or] at hdrained
  exact hdrained.imp (fun h hnil => h (List.isEmpty_iff.2 hnil)) (by simp)

/-- A heartbeat is on its way when a flush begins. -/
def flushing : List Label :=
  [.env (.enter 1 (.enqueue ⟨{ origin := .heartbeat }, rfl⟩))] ++ goes 1 4 ++ goes 0 8 ++
    [.env (.enter 1 (.flush 1000))] ++ goes 1 4

theorem flush_never_forgotten_flushing : ∃ c, Run.run step idle flushing = some c ∧
    (c.shared.data.worker.queue ≠ [] ∨ c.shared.data.worker.inFlight = true) := by
  have hrun : (Run.run step idle flushing).map (fun c => (c.threads, c.shared.notified)) =
      some ([[.act (.process { origin := .heartbeat }), .lock, .act .clearInFlight, .unlock, .notifyAll,
        .act .loopTop], [.asleep .flush 1000 1, .unlock]], 1) := by decide
  obtain ⟨c, hc, hstate⟩ := Option.map_eq_some_iff.1 hrun
  obtain ⟨hthreads, hcount⟩ := Prod.mk.inj hstate
  have ht : c.threads[1]? = some (.asleep .flush 1000 c.shared.notified :: [.unlock]) := by
    rw [hthreads, hcount]
    rfl
  have hquiet : ¬ Pending c := by
    rintro ⟨p, hp, hdue⟩
    rw [hthreads] at hp
    rcases List.mem_pair.1 hp with rfl | rfl <;> exact hdue
  exact ⟨c, hc, flush_never_forgotten ⟨idle, _, started_idle, hc⟩ ht hquiet⟩

/-! ## `wake` -/

theorem act_called {w : Wait} (h : act s now a i = some (s', new)) (hR : Called w s')
    (hnot : ¬ Called w s) : announces a = true ∧ new = [] := by
  cases w with
  | flush => exact hR.elim
  | loop =>
    cases a with
    | push | wake | clearInFlight =>
      obtain ⟨-, rfl⟩ := Prod.mk.inj (Option.some.inj h)
      exact ⟨rfl, rfl⟩
    | wakeUp =>
      simp only [act] at h
      split_ifs at h
      · obtain ⟨rfl, -⟩ := Prod.mk.inj (Option.some.inj h)
        exact absurd hR hnot
      all_goals
        obtain ⟨rfl, -⟩ := Prod.mk.inj (Option.some.inj h)
        exact absurd hR Bool.false_ne_true
    | takeReadyJob | stopRunning =>
      simp only [act] at h
      split at h <;>
      · obtain ⟨rfl, -⟩ := Prod.mk.inj (Option.some.inj h)
        exact absurd hR hnot
    | join =>
      obtain ⟨-, h⟩ := Option.ite_none_right_eq_some.1 h
      obtain ⟨rfl, -⟩ := Prod.mk.inj (Option.some.inj h)
      exact absurd hR hnot
    | _ =>
      obtain ⟨rfl, -⟩ := Prod.mk.inj (Option.some.inj h)
      exact absurd hR hnot

theorem lawful_called : Lawful system Called Good where
  toBalanced := balanced
  cause := by
    intro w s now hfalse hcalled
    cases w with
    | loop =>
      have hflag : s.worker.wakeRequested = true := hcalled
      simp [system, holds, Worker.wakes, hflag] at hfalse
    | flush => exact hcalled
  raises := by
    intro c t a rest i s' new hgood ht hact p hp w hw hR hnot
    obtain ⟨hann, rfl⟩ := act_called hact hR hnot
    exact (hgood.threads t _ ht).announced.1 hann
  enters := by
    intro c t k s' new _ _ henter w hR
    obtain ⟨-, -, hworker, -, -⟩ := enter_cases henter
    cases w with
    | loop => simpa only [Called, hworker] using hR
    | flush => exact hR

/-- **A wake is heeded** in every state of a run, that is, the worker does not wait through it, exactly
if the last notification due never comes between the worker's check and its sleep. -/
theorem wake_heeded_iff (ls : List Label) (h : Started c) :
    Run.AllStates step (Attended Called) c ls ↔ Run.AllSteps step (Timely Called) c ls :=
  attended_iff_timely lawful_called (fun _ _ _ hc hs => good_step hc hs) ls (good_started h)
    (bracketed_start (started_unlocked h) (segment_started h))
    (heedful_start (M := system) (started_unlocked h) (segment_started h)).attended

/-- `wake` is called when the worker has found nothing due, and is not asleep yet. -/
def called : List Label := goes 0 5 ++ [.env (.enter 1 .wake)] ++ goes 1 2 ++ goes 0 1

/-- The worker sleeps through it: `wake` stores its flag without the mutex. -/
theorem wake_heeded_iff_called : ¬ Run.AllSteps step (Timely Called) idle called := by
  intro htimely
  have hrun : (Run.run step idle called).map (fun c => (c.threads, c.shared.notified,
      c.shared.data.worker.wakeRequested)) =
        some ([[.asleep .loop (seconds 1) 1, .act .wakeUp], []], 1, true) := by decide
  obtain ⟨c, hc, hstate⟩ := Option.map_eq_some_iff.1 hrun
  obtain ⟨hthreads, hstate⟩ := Prod.mk.inj hstate
  obtain ⟨hcount, hflag⟩ := Prod.mk.inj hstate
  have hattended := ((wake_heeded_iff called started_idle).2 htimely).last hc
  have hin : .asleep .loop (seconds 1) c.shared.notified :: [.act .wakeUp] ∈ c.threads := by
    rw [hthreads, hcount]
    exact List.mem_cons_self
  obtain ⟨p, hp, hdue⟩ := hattended _ hin .loop (.gone _ _) hflag
  rw [hthreads] at hp
  rcases List.mem_pair.1 hp with rfl | rfl <;> exact hdue

end Tombstone.WorkerWaits
