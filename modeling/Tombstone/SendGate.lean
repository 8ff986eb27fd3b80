import Tombstone.Buffers
import Tombstone.Control
import Tombstone.Sources

/- The send gate over whole runs of one client (`start_gate.h`, `client.cpp`).

   With `auto_start_session = 0` the gate is shut until the first `start_session`, one that was
   buffered before `tombstone_init` and is replayed into the client included. Three paths drain
   the batches: the worker's drainer, a flush (`Client::flush`, and with it the destructor), and
   the flush before a crash report. These and the heartbeat loop look at the gate; reports do
   not. What is proved, of every run of a client that was launched with the gate shut
   (`send_gate`):

   1. no heartbeat and no envelope is enqueued before a `start_session` took effect;
   2. of the `start_session`s that took effect one saw the gate shut, and the gate stays open;
   3. while the gate is shut, either batch holds the last 256 items of all that were added,
      and so it does after the step that opens the gate;
   4. a report is enqueued by the time its call returns, whatever the gate. -/
namespace Tombstone

/-- Whether the job waits for the gate: a heartbeat, or an envelope of events or metrics. -/
def UploadJob.gated (job : UploadJob) : Bool :=
  match job.origin with
  | .heartbeat | .items _ => true
  | _ => false

namespace Runtime

/-- The label is no launch: the client stays the one it is. -/
def SameClient : Label → Prop
  | .env (.launch _) => False
  | _ => True

/-- Whether the `start_session` that takes effect here sees the gate shut. -/
def startEdges (c : Config) (l : Label) : List Bool :=
  match Interleave.acting c l with
  | some .startSession => [c.shared.gate.set.2]
  | _ => []

/-- The item that is put in a batch here. -/
def addedTo (metric : Bool) (c : Config) (l : Label) : List Item :=
  match Interleave.acting c l with
  | some (.addItem which text) =>
    if which = metric then [{ text, serial := c.shared.nextSerial }] else []
  | _ => []

/-- The job that is enqueued here. -/
def enqueuedJob (c : Config) (l : Label) : List UploadJob :=
  match Interleave.acting c l with
  | some (.enqueue job) => [job]
  | _ => []

/-! ## Behind the gate -/

/-- The action drains a batch or has to do with a job that waits for the gate. -/
def Act.BehindGate (a : Act) : Prop := a.FlushesBatch ∨ ∃ job ∈ a.jobs, job.gated = true

/-- While the gate is shut, no job that waits for it is in the queue, and no action behind it
is to be taken. -/
def Shut (c : Config) : Prop :=
  c.shared.gate.opened = false → (∀ job ∈ c.shared.worker.queue, job.gated = false) ∧
    ∀ p ∈ c.threads, ∀ a ∈ p, ¬ a.BehindGate

section Step

variable {s s' : State} {a : Act} {i : Input} {new : List Act}

theorem perform_gate (h : perform s a i = some (s', new)) :
    (a = .startSession ∧ s'.gate = s.gate.set.1) ∨ (a ≠ .startSession ∧ s'.gate = s.gate) := by
  by_cases ha : a = .startSession
  · subst ha
    obtain ⟨rfl, -⟩ := Prod.mk.inj (Option.some.inj h)
    exact .inl ⟨rfl, rfl⟩
  · refine .inr ⟨ha, ?_⟩
    cases perform_control h with
    | same same => exact same.gate
    | gate act => exact absurd act ha
    | consent _ _ after => rw [after]
    | publish _ after => rw [after]
    | stop _ after => rw [after]

theorem drains_shut (h : perform s a i = some (s', new)) (hshut : s.gate.opened = false) :
    ∀ b ∈ new, ¬ b.FlushesBatch := by
  intro b hb hflush
  have hnone : ∀ force, drainBatches s force = [] := by
    intro force
    simp [drainBatches, hshut]
  cases b with
  | maybeFlushBatch metric now force =>
    cases perform_leads h _ hb with
    | flushBatch =>
      obtain ⟨-, rfl⟩ := Prod.mk.inj (Option.some.inj h)
      rw [hnone] at hb
      cases hb
    | drainBatch =>
      obtain ⟨-, rfl⟩ := Prod.mk.inj (Option.some.inj h)
      rw [hnone] at hb
      cases hb
    | followUp follow => exact follow.elim
  | _ => exact hflush.elim

theorem Source.ungated {job : UploadJob} (h : Source s a i job) (hshut : s.gate.opened = false)
    (hq : ∀ job ∈ s.worker.queue, job.gated = false) (ha : ¬ a.BehindGate) : job.gated = false := by
  have hheld : ∀ job ∈ a.jobs, job.gated = false := by
    intro job hjob
    rw [← Bool.not_eq_true]
    exact fun hg => ha (.inr ⟨job, hjob, hg⟩)
  cases h with
  | queued queued => exact hq job queued
  | held held => exact hheld job held
  | @ahead job held path =>
    have hsame : ({ job with sidecarPath := path } : UploadJob).gated = job.gated := rfl
    exact hsame.trans (hheld job held)
  | @retried job held hint =>
    have hsame : (Worker.retried job s.now hint).gated = job.gated := rfl
    exact hsame.trans (hheld job held)
  | report _ _ _ _ => rfl
  | beat body opened =>
    rw [hshut] at opened
    cases opened
  | envelope flushes _ _ => exact absurd (.inl flushes) ha
  | playerLogs _ => rfl
  | fulfil _ _ => rfl
  | log => rfl

/-- **While the gate is shut, no action puts a job that waits for it on its way.** -/
theorem perform_shut (h : perform s a i = some (s', new)) (hshut : s.gate.opened = false)
    (hq : ∀ job ∈ s.worker.queue, job.gated = false) (ha : ¬ a.BehindGate) :
    (∀ job ∈ s'.worker.queue, job.gated = false) ∧ ∀ b ∈ new, ¬ b.BehindGate := by
  obtain ⟨hqueue, hnew⟩ := perform_source h
  refine ⟨fun job hjob => (hqueue job hjob).ungated hshut hq ha, fun b hb hbehind => ?_⟩
  rcases hbehind with hf | ⟨job, hjob, hgated⟩
  · exact drains_shut h hshut b hb hf
  · rw [(hnew b hb job hjob).ungated hshut hq ha] at hgated
    cases hgated

/-- What an action adds to a batch. -/
def addedBy (metric : Bool) (s : State) : Act → List Item
  | .addItem which text => if which = metric then [{ text, serial := s.nextSerial }] else []
  | _ => []

theorem addItem_items (metric which : Bool) (text : Bytes) :
    ((addItem s which text).batch metric).items =
      (addedBy metric s (.addItem which text)).foldl (Buffers.pushDroppingOldest Batch.maxItems)
        (s.batch metric).items := by
  have hadd : ∀ b : Batch, (b.add s.now { text, serial := s.nextSerial }).1.items =
      Buffers.pushDroppingOldest Batch.maxItems b.items { text, serial := s.nextSerial } := by
    intro b
    show (if _ then b.items.drop 1 else b.items) ++ _ = (if _ then b.items.tail else b.items) ++ _
    rw [List.drop_one]
  show ((s.setBatch which _).batch metric).items = _
  rw [batch_setBatch, addedBy]
  split
  · next hsame =>
    subst hsame
    exact hadd (s.batch which)
  · rfl

/-- **Short of a drain, an action leaves a batch with what it held and what it adds**, up to
the bound. -/
theorem perform_held (h : perform s a i = some (s', new)) (ha : ¬ a.FlushesBatch) (metric : Bool) :
    (s'.batch metric).items =
      (addedBy metric s a).foldl (Buffers.pushDroppingOldest Batch.maxItems)
        (s.batch metric).items := by
  by_cases hadd : ∃ which text, a = .addItem which text
  · obtain ⟨which, text, rfl⟩ := hadd
    obtain ⟨rfl, -⟩ := Prod.mk.inj (Option.some.inj h)
    exact addItem_items metric which text
  · have hnone : addedBy metric s a = [] := by
      cases a with
      | addItem which text => exact absurd ⟨which, text, rfl⟩ hadd
      | _ => rfl
    rw [hnone, List.foldl_nil]
    have hsame : s'.eventBatch = s.eventBatch ∧ s'.metricBatch = s.metricBatch := by
      cases perform_flow h with
      | pass same => exact ⟨same.events, same.metrics⟩
      | add metric text act => exact absurd ⟨metric, text, act⟩ hadd
      | drain metric stamp now force act =>
        subst act
        exact absurd trivial ha
      | enqueue job _ after => rw [after]; exact ⟨rfl, rfl⟩
      | take _ _ _ _ same => exact ⟨same.events, same.metrics⟩
      | processed _ _ _ _ done => cases done <;> exact ⟨rfl, rfl⟩
      | leftovers _ after =>
        obtain ⟨rfl, -⟩ := Prod.mk.inj after
        exact ⟨rfl, rfl⟩
    simp only [State.batch, hsame.1, hsame.2]

end Step

/-! ## Steps of one client -/

section Steps

variable {c c' : Config} {l : Label}

theorem addedTo_exec {t : Nat} {i : Input} {a : Act} {rest : List Act} (metric : Bool)
    (ht : c.threads[t]? = some (a :: rest)) :
    addedTo metric c (.exec t i) = addedBy metric c.shared a := by
  simp only [addedTo, Interleave.acting_exec ht, addedBy]
  cases a <;> rfl

theorem startEdges_exec {t : Nat} {i : Input} {a : Act} {rest : List Act}
    (ht : c.threads[t]? = some (a :: rest)) :
    (a = .startSession ∧ startEdges c (.exec t i) = [!c.shared.gate.opened]) ∨
      (a ≠ .startSession ∧ startEdges c (.exec t i) = []) := by
  simp only [startEdges, Interleave.acting_exec ht]
  cases a <;> first | exact .inl ⟨rfl, rfl⟩ | exact .inr ⟨nofun, rfl⟩

theorem still_step (hl : SameClient l) (hno : Interleave.acting c l = none)
    (h : step c l = some c') :
    c'.shared.gate = c.shared.gate ∧ c'.shared.worker = c.shared.worker ∧
      (∀ metric, c'.shared.batch metric = c.shared.batch metric) ∧
      ∀ p ∈ c'.threads, p ∈ c.threads ∨ p = destructor ∨ ∃ k : Call, p = [k.act] := by
  rcases Interleave.step_cases h with ⟨t, i, a, rest, s', new, rfl, ht, -, -⟩ |
    ⟨t, k, s', new, rfl, -, hk, rfl⟩ | ⟨e, rfl, he⟩
  · rw [Interleave.acting_exec ht] at hno
    cases hno
  · simp only [machine, call] at hk
    split at hk
    · obtain ⟨rfl, rfl⟩ := Prod.mk.inj (Option.some.inj hk)
      refine ⟨rfl, rfl, fun _ => rfl, fun p hp => ?_⟩
      rcases List.mem_or_eq_of_mem_set hp with hp | rfl
      · exact .inl hp
      · exact .inr (.inr ⟨k, rfl⟩)
    · cases hk
  · obtain ⟨s', ps'⟩ := c'
    rcases env_cases he with ⟨elapsed, -, rfl, rfl⟩ | ⟨o, rfl, -, -, -⟩ | ⟨-, rfl, rfl⟩ |
      ⟨t, -, -, -, -, -, -, ht, rfl, rfl⟩
    · exact ⟨rfl, rfl, fun _ => rfl, fun p hp => .inl hp⟩
    · exact hl.elim
    · exact ⟨rfl, rfl, fun _ => rfl, fun p hp => .inl hp⟩
    · refine ⟨rfl, rfl, fun _ => rfl, fun p hp => ?_⟩
      rcases List.mem_or_eq_of_mem_set hp with hp | rfl
      · exact .inl hp
      · exact .inr (.inl rfl)

/-- **A step opens the gate just when it is a `start_session`**, and none shuts it. -/
theorem gate_step (hl : SameClient l) (h : step c l = some c') :
    (startEdges c l = [!c.shared.gate.opened] ∧ c'.shared.gate.opened = true) ∨
      (startEdges c l = [] ∧ c'.shared.gate.opened = c.shared.gate.opened) := by
  by_cases hno : Interleave.acting c l = none
  · refine .inr ⟨?_, ?_⟩
    · simp only [startEdges, hno]
    · rw [(still_step hl hno h).1]
  · rcases Interleave.step_cases h with ⟨t, i, a, rest, s', new, rfl, ht, hp, rfl⟩ |
      ⟨t, k, s', new, rfl, -, -, -⟩ | ⟨e, rfl, -⟩
    · rcases perform_gate hp with ⟨ha, hgate⟩ | ⟨ha, hgate⟩
      · rcases startEdges_exec (i := i) ht with ⟨-, hedge⟩ | ⟨hne, -⟩
        · refine .inl ⟨hedge, ?_⟩
          show s'.gate.opened = true
          rw [hgate]
          rfl
        · exact absurd ha hne
      · rcases startEdges_exec (i := i) ht with ⟨hset, -⟩ | ⟨-, hedge⟩
        · exact absurd hset ha
        · refine .inr ⟨hedge, ?_⟩
          show s'.gate.opened = _
          rw [hgate]
    · exact absurd rfl hno
    · exact absurd rfl hno

theorem not_behindGate {a : Act} (hflush : ¬ a.FlushesBatch) (hjobs : a.jobs = []) : ¬ a.BehindGate := by
  rintro (h | ⟨job, hjob, -⟩)
  · exact hflush h
  · rw [hjobs] at hjob
    cases hjob

theorem destructor_ungated : ∀ a ∈ destructor, ¬ a.BehindGate := by
  intro a ha
  apply not_behindGate _ (mem_destructor ha)
  simp only [destructor, List.mem_cons, List.not_mem_nil, or_false] at ha
  rcases ha with rfl | rfl | rfl | rfl <;> exact id

theorem call_ungated (k : Call) : ¬ k.act.BehindGate := by
  apply not_behindGate _ (jobs_call k)
  cases k <;> exact id

theorem shut_step (hc : Shut c) (hl : SameClient l) (h : step c l = some c') : Shut c' := by
  intro hshut'
  have hshut : c.shared.gate.opened = false := by
    rcases gate_step hl h with ⟨-, hopen⟩ | ⟨-, hsame⟩
    · rw [hopen] at hshut'
      cases hshut'
    · rw [← hsame]
      exact hshut'
  obtain ⟨hq, hthreads⟩ := hc hshut
  by_cases hno : Interleave.acting c l = none
  · obtain ⟨-, hworker, -, hprograms⟩ := still_step hl hno h
    refine ⟨hworker ▸ hq, fun p hp a ha => ?_⟩
    rcases hprograms p hp with hold | rfl | ⟨k, rfl⟩
    · exact hthreads p hold a ha
    · exact destructor_ungated a ha
    · rw [List.mem_singleton.mp ha]
      exact call_ungated k
  · rcases Interleave.step_cases h with ⟨t, i, a, rest, s', new, rfl, ht, hp, rfl⟩ |
      ⟨t, k, s', new, rfl, -, -, -⟩ | ⟨e, rfl, -⟩
    · have hmem := List.mem_of_getElem? ht
      obtain ⟨hq', hnew⟩ := perform_shut hp hshut hq (hthreads _ hmem a List.mem_cons_self)
      refine ⟨hq', fun p hp' b hb => ?_⟩
      rcases List.mem_or_eq_of_mem_set hp' with hold | rfl
      · exact hthreads p hold b hb
      · rcases List.mem_append.mp hb with hb | hb
        · exact hnew b hb
        · exact hthreads _ hmem b (List.mem_cons_of_mem a hb)
    · exact absurd rfl hno
    · exact absurd rfl hno

theorem held_step (hc : Shut c) (hl : SameClient l) (hshut : c.shared.gate.opened = false)
    (h : step c l = some c') (metric : Bool) :
    (c'.shared.batch metric).items =
      (addedTo metric c l).foldl (Buffers.pushDroppingOldest Batch.maxItems)
        (c.shared.batch metric).items := by
  by_cases hno : Interleave.acting c l = none
  · rw [(still_step hl hno h).2.2.1 metric]
    simp only [addedTo, hno, List.foldl_nil]
  · rcases Interleave.step_cases h with ⟨t, i, a, rest, s', new, rfl, ht, hp, rfl⟩ |
      ⟨t, k, s', new, rfl, -, -, -⟩ | ⟨e, rfl, -⟩
    · have ha := (hc hshut).2 _ (List.mem_of_getElem? ht) a List.mem_cons_self
      rw [addedTo_exec metric ht]
      exact perform_held hp (fun hf => ha (.inl hf)) metric
    · exact absurd rfl hno
    · exact absurd rfl hno

end Steps

/-! ## Runs of one client -/

section Runs

variable {c u : Config} {ls : List Label}

theorem opened_run (hls : ∀ k ∈ ls, SameClient k) (hr : Run.run step c ls = some u)
    (ho : c.shared.gate.opened = true) :
    u.shared.gate.opened = true ∧ (Run.trace step startEdges c ls).count true = 0 := by
  induction ls generalizing c with
  | nil =>
    obtain rfl : c = u := Option.some.inj hr
    exact ⟨ho, rfl⟩
  | cons l ls ih =>
    obtain ⟨w, hw, hrest⟩ := Run.run_cons_some.mp hr
    have hls' : ∀ k ∈ ls, SameClient k := fun k hk => hls k (List.mem_cons_of_mem l hk)
    rw [Run.trace_cons hw, List.count_append]
    rcases gate_step (hls l List.mem_cons_self) hw with ⟨hedge, hopen⟩ | ⟨hedge, hsame⟩
    · obtain ⟨hu, hcount⟩ := ih hls' hrest hopen
      rw [hedge, ho, hcount]
      exact ⟨hu, rfl⟩
    · obtain ⟨hu, hcount⟩ := ih hls' hrest (hsame.trans ho)
      rw [hedge, hcount]
      exact ⟨hu, rfl⟩

/-- **From a shut gate, the first `start_session` sees the edge, and it alone.** -/
theorem shut_run (hls : ∀ k ∈ ls, SameClient k) (hr : Run.run step c ls = some u)
    (hshut : c.shared.gate.opened = false) :
    (u.shared.gate.opened = false ∧ Run.trace step startEdges c ls = []) ∨
      (u.shared.gate.opened = true ∧ Run.trace step startEdges c ls ≠ [] ∧
        (Run.trace step startEdges c ls).count true = 1) := by
  induction ls generalizing c with
  | nil =>
    obtain rfl : c = u := Option.some.inj hr
    exact .inl ⟨hshut, rfl⟩
  | cons l ls ih =>
    obtain ⟨w, hw, hrest⟩ := Run.run_cons_some.mp hr
    have hls' : ∀ k ∈ ls, SameClient k := fun k hk => hls k (List.mem_cons_of_mem l hk)
    rw [Run.trace_cons hw]
    rcases gate_step (hls l List.mem_cons_self) hw with ⟨hedge, hopen⟩ | ⟨hedge, hsame⟩
    · obtain ⟨hu, hcount⟩ := opened_run hls' hrest hopen
      rw [hedge, hshut]
      refine .inr ⟨hu, by simp, ?_⟩
      calc List.count true ([!false] ++ Run.trace step startEdges w ls)
          = 1 + (Run.trace step startEdges w ls).count true := by rw [List.count_append]; rfl
        _ = 1 := by rw [hcount]
    · rw [hedge, List.nil_append]
      exact ih hls' hrest (hsame.trans hshut)

theorem shut_of_run (hls : ∀ k ∈ ls, SameClient k) (hr : Run.run step c ls = some u)
    (hc : Shut c) : Shut u := by
  induction ls generalizing c with
  | nil =>
    obtain rfl : c = u := Option.some.inj hr
    exact hc
  | cons l ls ih =>
    obtain ⟨w, hw, hrest⟩ := Run.run_cons_some.mp hr
    exact ih (fun k hk => hls k (List.mem_cons_of_mem l hk)) hrest
      (shut_step hc (hls l List.mem_cons_self) hw)

/-- **While the gate is shut, a batch takes what is added**, up to its bound. -/
theorem held_run (hls : ∀ k ∈ ls, SameClient k) (hr : Run.run step c ls = some u) (hc : Shut c)
    (hshut : u.shared.gate.opened = false) (metric : Bool) :
    (u.shared.batch metric).items =
      (Run.trace step (addedTo metric) c ls).foldl (Buffers.pushDroppingOldest Batch.maxItems)
        (c.shared.batch metric).items := by
  induction ls generalizing c with
  | nil =>
    obtain rfl : c = u := Option.some.inj hr
    rfl
  | cons l ls ih =>
    obtain ⟨w, hw, hrest⟩ := Run.run_cons_some.mp hr
    have hl := hls l List.mem_cons_self
    have hls' : ∀ k ∈ ls, SameClient k := fun k hk => hls k (List.mem_cons_of_mem l hk)
    have hwshut : w.shared.gate.opened = false := by
      rw [← Bool.not_eq_true]
      intro hopen
      rw [(opened_run hls' hrest hopen).1] at hshut
      cases hshut
    have hcshut : c.shared.gate.opened = false := by
      rcases gate_step hl hw with ⟨-, hopen⟩ | ⟨-, hsame⟩
      · rw [hopen] at hwshut
        cases hwshut
      · exact hsame.symm.trans hwshut
    rw [Run.trace_cons hw, List.foldl_append, ← held_step hc hl hcshut hw metric]
    exact ih hls' hrest (shut_step hc hl hw)

end Runs

/-! ## Reports pass the gate -/

/-- The job of the report that a call makes. -/
def reportOf (s : State) : Act → Option UploadJob
  | .reportCrash body wantLog => some (reportJob s .crash body.val wantLog false)
  | .reportBug body wantLog => some (reportJob s .bugReport body.val wantLog false)
  | _ => none

/-- The action is about to enqueue the job, or to write it ahead before that. -/
def Act.Delivers (job : UploadJob) : Act → Prop
  | .writeAhead j | .enqueue j => ∃ path, j = { job with sidecarPath := path }
  | _ => False

/-- The thread has still to enqueue the job. -/
def OnItsWay (job : UploadJob) (t : Nat) (c : Config) : Prop :=
  ∃ p, c.threads[t]? = some p ∧ ∃ a ∈ p, a.Delivers job

/-- The job was enqueued, with its file where one was written. -/
def Delivered (job : UploadJob) (jobs : List UploadJob) : Prop :=
  ∃ path, { job with sidecarPath := path } ∈ jobs

section Reports

variable {c c' : Config} {l : Label} {job : UploadJob} {t : Nat}

theorem delivers_step {s s' : State} {a : Act} {i : Input} {new : List Act}
    (h : perform s a i = some (s', new)) (ha : a.Delivers job) :
    (∃ j, a = .enqueue j ∧ Delivered job [j]) ∨ ∃ b ∈ new, b.Delivers job := by
  cases a with
  | enqueue j =>
    obtain ⟨path, rfl⟩ := ha
    exact .inl ⟨_, rfl, path, List.mem_singleton_self _⟩
  | writeAhead j =>
    obtain ⟨path, rfl⟩ := ha
    obtain ⟨path', rfl⟩ := writeAhead_new h
    exact .inr ⟨_, List.mem_singleton_self _, path', rfl⟩
  | _ => exact ha.elim

/-- **A report on its way is enqueued by its own thread**, whatever the others do. -/
theorem onItsWay_step (hl : SameClient l) (h : step c l = some c') (hway : OnItsWay job t c) :
    Delivered job (enqueuedJob c l) ∨ OnItsWay job t c' := by
  obtain ⟨p, hp, b, hb, hdelivers⟩ := hway
  have hbusy : c.threads[t]? ≠ some [] := by
    rw [hp]
    rintro ⟨rfl⟩
    cases hb
  -- the program of another thread is set
  have hother : ∀ {n : Nat} {q : List Act}, n ≠ t → (c.threads.set n q)[t]? = some p := by
    intro n q hne
    rw [List.getElem?_set_ne hne]
    exact hp
  rcases Interleave.step_cases h with ⟨n, i, a, rest, s', new, rfl, ht, hperform, rfl⟩ |
    ⟨n, k, s', new, rfl, ht, -, rfl⟩ | ⟨e, rfl, he⟩
  · by_cases hn : n = t
    · subst hn
      obtain rfl : a :: rest = p := Option.some.inj (ht.symm.trans hp)
      have hlt : n < c.threads.length := (List.getElem?_eq_some_iff.mp ht).1
      have hset : (c.threads.set n (new ++ rest))[n]? = some (new ++ rest) :=
        List.getElem?_set_self hlt
      rcases List.mem_cons.mp hb with rfl | hb
      · rcases delivers_step hperform hdelivers with ⟨j, rfl, hjob⟩ | ⟨b', hb', hnext⟩
        · left
          simp only [enqueuedJob, Interleave.acting_exec ht]
          exact hjob
        · exact .inr ⟨_, hset, b', List.mem_append_left rest hb', hnext⟩
      · exact .inr ⟨_, hset, b, List.mem_append_right new hb, hdelivers⟩
    · exact .inr ⟨p, hother hn, b, hb, hdelivers⟩
  · have hn : n ≠ t := by
      rintro rfl
      exact hbusy ht
    exact .inr ⟨p, hother hn, b, hb, hdelivers⟩
  · obtain ⟨s', ps'⟩ := c'
    rcases env_cases he with ⟨elapsed, -, -, rfl⟩ | ⟨o, rfl, -, -, -⟩ | ⟨-, -, rfl⟩ |
      ⟨n, -, -, -, -, -, -, ht, -, rfl⟩
    · exact .inr ⟨p, hp, b, hb, hdelivers⟩
    · exact hl.elim
    · exact .inr ⟨p, hp, b, hb, hdelivers⟩
    · have hn : n ≠ t := by
        rintro rfl
        exact hbusy ht
      exact .inr ⟨p, hother hn, b, hb, hdelivers⟩

theorem onItsWay_run {ls : List Label} {u : Config} (hls : ∀ k ∈ ls, SameClient k)
    (hr : Run.run step c ls = some u) (hway : OnItsWay job t c) :
    Delivered job (Run.trace step enqueuedJob c ls) ∨ OnItsWay job t u := by
  induction ls generalizing c with
  | nil =>
    obtain rfl : c = u := Option.some.inj hr
    exact .inr hway
  | cons l ls ih =>
    obtain ⟨w, hw, hrest⟩ := Run.run_cons_some.mp hr
    rw [Run.trace_cons hw]
    rcases onItsWay_step (hls l List.mem_cons_self) hw hway with ⟨path, hnow⟩ | hway'
    · exact .inl ⟨path, List.mem_append_left _ hnow⟩
    · rcases ih (fun k hk => hls k (List.mem_cons_of_mem l hk)) hrest hway' with ⟨path, hlater⟩ | hend
      · exact .inl ⟨path, List.mem_append_right _ hlater⟩
      · exact .inr hend

theorem onItsWay_of_report {i : Input} {a : Act} {rest : List Act}
    (ht : c.threads[t]? = some (a :: rest)) (hjob : reportOf c.shared a = some job)
    (hallowed : c.shared.captureAllowed = true) (h : step c (.exec t i) = some c') :
    OnItsWay job t c' := by
  obtain ⟨b, rest', s', new, ht', hp, rfl⟩ := Interleave.exec_cases h
  obtain ⟨rfl, rfl⟩ := List.cons.inj (Option.some.inj (ht.symm.trans ht'))
  have hlt : t < c.threads.length := (List.getElem?_eq_some_iff.mp ht).1
  have hnew : ∃ b ∈ new, b.Delivers job := by
    cases a with
    | reportCrash body wantLog =>
      obtain rfl := Option.some.inj hjob
      simp only [machine, perform, hallowed, if_true] at hp
      obtain ⟨-, rfl⟩ := Prod.mk.inj (Option.some.inj hp)
      exact ⟨_, List.mem_cons_of_mem _ (List.mem_singleton_self _), none, rfl⟩
    | reportBug body wantLog =>
      obtain rfl := Option.some.inj hjob
      simp only [machine, perform, hallowed, if_true] at hp
      obtain ⟨-, rfl⟩ := Prod.mk.inj (Option.some.inj hp)
      exact ⟨_, List.mem_singleton_self _, none, rfl⟩
    | _ => cases hjob
  obtain ⟨b, hb, hdelivers⟩ := hnew
  exact ⟨_, List.getElem?_set_self hlt, b, List.mem_append_left rest hb, hdelivers⟩

end Reports

/-! ## A client launched with the gate shut -/

theorem initCalls_ungated (o : Launch) : ∀ a ∈ initCalls o, ¬ a.BehindGate := by
  intro a ha
  apply not_behindGate _ (jobs_initCalls a ha)
  cases mem_initCalls ha <;> exact id

/-- A launch with `auto_start_session = 0` shuts the gate, before anything is sent or buffered;
restored reports are on their way. -/
theorem launch_shut {c₀ c₁ : Config} {o : Launch} (ho : o.autoStartSession = false)
    (h : step c₀ (.env (.launch o)) = some c₁) :
    c₁.shared.gate.opened = false ∧ Shut c₁ ∧ ∀ metric, (c₁.shared.batch metric).items = [] := by
  have he : env (c₀.shared, c₀.threads) (.launch o) = some (c₁.shared, c₁.threads) :=
    Interleave.env_cases h
  simp only [env] at he
  split at he
  · obtain ⟨hshared, hthreads⟩ := Prod.mk.inj (Option.some.inj he)
    have hgate : c₁.shared.gate.opened = false := by
      rw [← hshared]
      simp [launched, StartGate.arm, ho]
    refine ⟨hgate, fun _ => ⟨?_, ?_⟩, ?_⟩
    · rw [← hshared]
      exact fun job hjob => absurd hjob List.not_mem_nil
    · rw [← hthreads]
      intro p hp a ha
      simp only [List.mem_cons, List.mem_replicate] at hp
      rcases hp with rfl | rfl | rfl | ⟨-, rfl⟩
      · rcases List.mem_append.mp ha with ha | ha
        · obtain ⟨r, -, rfl⟩ := List.mem_map.mp ha
          rintro (hflush | ⟨job, hjob, hgated⟩)
          · exact hflush
          · rw [List.mem_singleton.mp hjob] at hgated
            cases hgated
        · exact initCalls_ungated o a ha
      · rw [List.mem_singleton.mp ha]
        exact not_behindGate id rfl
      · rw [List.mem_singleton.mp ha]
        exact not_behindGate id rfl
      · cases ha
    · rw [← hshared]
      intro metric
      cases metric <;> rfl
  · cases he

/-- **The send gate.** Of every run of a client launched with `auto_start_session = 0`, and
every step after it: a heartbeat or an envelope is enqueued only after a `start_session` took
effect; if any did, exactly one saw the gate shut; the gate is open from then on; while it is
shut, a batch holds the last 256 items of all that were added, and so it does after the step
that opens the gate; and a report that passes its check of consent here is enqueued by the time
its thread is idle again, gate or no gate. -/
theorem send_gate {c₀ c₁ u v : Config} {o : Launch} (ho : o.autoStartSession = false)
    (hlaunch : step c₀ (.env (.launch o)) = some c₁) {ls : List Label} {l : Label}
    (hls : ∀ k ∈ ls, SameClient k) (hl : SameClient l) (hr : Run.run step c₁ ls = some u)
    (hs : step u l = some v) :
    let starts := Run.trace step startEdges c₁ ls
    (∀ job ∈ enqueuedJob u l, job.gated = true → starts ≠ []) ∧
    (starts ≠ [] → starts.count true = 1) ∧
    (u.shared.gate.opened = true ↔ starts ≠ []) ∧
    (u.shared.gate.opened = true → v.shared.gate.opened = true) ∧
    (u.shared.gate.opened = false → ∀ metric, (v.shared.batch metric).items =
      Buffers.lastOf 256 (Run.trace step (addedTo metric) c₁ (ls ++ [l]))) ∧
    ∀ t i a rest job, l = .exec t i → u.threads[t]? = some (a :: rest) →
      reportOf u.shared a = some job → u.shared.captureAllowed = true →
      ∀ ks w, (∀ k ∈ ks, SameClient k) → Run.run step v ks = some w → w.threads[t]? = some [] →
        Delivered job (Run.trace step enqueuedJob v ks) := by
  obtain ⟨hshut₁, hc₁, hempty⟩ := launch_shut ho hlaunch
  have hu := shut_of_run hls hr hc₁
  have hedges := shut_run hls hr hshut₁
  have hopened : u.shared.gate.opened = true ↔ Run.trace step startEdges c₁ ls ≠ [] := by
    rcases hedges with ⟨hshut, hnone⟩ | ⟨hopen, hsome, -⟩
    · simp [hshut, hnone]
    · simp [hopen, hsome]
  refine ⟨?_, ?_, hopened, ?_, ?_, ?_⟩
  · intro job hjob hgated
    by_contra hnone
    have hshut : u.shared.gate.opened = false := by
      rw [← Bool.not_eq_true]
      exact fun hopen => hopened.mp hopen hnone
    unfold enqueuedJob at hjob
    split at hjob
    · rename_i j hacting
      rw [List.mem_singleton.mp hjob] at hgated
      obtain ⟨p, hp, hmem⟩ := Interleave.acting_held hacting
      exact (hu hshut).2 p hp _ hmem (.inr ⟨j, List.mem_singleton_self j, hgated⟩)
    · cases hjob
  · intro hsome
    rcases hedges with ⟨-, hnone⟩ | ⟨-, -, hone⟩
    · exact absurd hnone hsome
    · exact hone
  · intro hopen
    rcases gate_step hl hs with ⟨-, hv⟩ | ⟨-, hsame⟩
    · exact hv
    · exact hsame.trans hopen
  · intro hshut metric
    have hbound : 0 < Batch.maxItems := by decide
    rw [held_step hu hl hshut hs metric, held_run hls hr hc₁ hshut metric, hempty metric,
      ← List.foldl_append, Buffers.foldl_pushDroppingOldest hbound, Run.trace_append hr,
      Run.trace_step hs]
    rfl
  · rintro t i a rest job rfl ht hjob hallowed ks w hks hrun hidle
    have hway := onItsWay_of_report ht hjob hallowed hs
    rcases onItsWay_run hks hrun hway with hdelivered | ⟨p, hp, b, hb, -⟩
    · exact hdelivered
    · obtain rfl : p = [] := Option.some.inj (hp.symm.trans hidle)
      cases hb

def shutOptions : Launch := { autoStartSession := false }

/-- Launched with the gate shut, over an empty disk. -/
def shutClient : Config :=
  ⟨launched {} shutOptions,
    initProgram (launched {} shutOptions) shutOptions :: [.heartbeat] :: [.loopTop] :: [[]]⟩

/-- An event is tracked and flushed with the gate shut, then the session is started. -/
def startedLate : List Label :=
  List.replicate 4 (.exec 0 {}) ++ .call 3 (.track false (lit "e")) :: List.replicate 2 (.exec 3 {}) ++
    .call 3 .flush :: List.replicate 2 (.exec 3 {}) ++ .exec 3 { expired := true } ::
    [.call 3 .startSession, .exec 3 {}]

theorem send_gate_startedLate : (Run.trace step startEdges shutClient startedLate).count true = 1 := by
  have hsame : ∀ k ∈ startedLate, SameClient k := by
    intro k hk
    simp only [startedLate, List.mem_append, List.mem_cons, List.mem_replicate, List.not_mem_nil,
      or_false] at hk
    rcases hk with ((⟨-, rfl⟩ | rfl | ⟨-, rfl⟩) | rfl | ⟨-, rfl⟩) | rfl | rfl | rfl <;> trivial
  have hrun : (Run.run step shutClient startedLate).isSome := by decide
  obtain ⟨u, hu⟩ := Option.isSome_iff_exists.mp hrun
  have hshut : shutOptions.autoStartSession = false := rfl
  have hlaunch : step noFiles (.env (.launch shutOptions)) = some shutClient := rfl
  have htick : SameClient (.env (.tick 0)) := trivial
  have hstep : step u (.env (.tick 0)) = some u := rfl
  exact (send_gate hshut hlaunch hsame htick hu hstep).2.1 (by decide)

end Runtime

end Tombstone
