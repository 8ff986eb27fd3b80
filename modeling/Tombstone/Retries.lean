import Tombstone.Tickets

/- The retry discipline of the delivery thread over whole runs (`worker.cpp`,
   `retry_after.cpp`).

   A job's attempts, its time and its place are spread over the queue, the worker's program and
   the actions its response leaves. `Shelf` says where every ticket is and what each waiting
   job has behind it, `InFlight` where the worker stands with the job it holds. What is proved,
   of every run of the client, over launches (`retry_discipline`):

   1. the queue has at most 256 jobs, and at most one job is with the transport;
   2. a job is sent at most five times, and an ephemeral one at most once; it is sent again
      only after a transient failure, and only after the pause that the failure asks for. -/
namespace Tombstone.Runtime

/-! ## The queue with its tickets -/

/-- The queue is the one of the tickets; its jobs wait; no ticket is in two places. -/
structure Shelf (queue : List UploadJob) (k : Tickets) : Prop where
  mirror : k.queued.map Prod.snd = queue
  bound : k.queued.length ≤ Worker.maxQueueSize
  fresh : ∀ n, k.next ≤ n → k.sent n = [] ∧ k.answers n = []
  given : ∀ e ∈ k.held.toList ++ k.queued, e.1 < k.next
  apart : ((k.held.toList ++ k.queued).map Prod.fst).Nodup
  waiting : ∀ e ∈ k.queued, Waiting k e.1 e.2
  law : ∀ n, Disciplined (k.sent n) (k.answers n)

namespace Shelf

variable {queue : List UploadJob} {k : Tickets} {n : Nat} {job : UploadJob}

theorem kept_sublist (k : Tickets) : k.kept.Sublist k.queued := by
  unfold Tickets.kept
  split
  · exact List.drop_sublist 1 _
  · exact List.Sublist.refl _

theorem length_kept (h : Shelf queue k) : k.kept.length + 1 ≤ Worker.maxQueueSize := by
  have hbound := h.bound
  unfold Tickets.kept Worker.maxQueueSize at *
  split
  · rw [List.length_drop]
    omega
  · omega

theorem mirror_enqueue {w : Worker} (h : Shelf w.queue k) (n : Nat) (job : UploadJob) :
    (k.kept ++ [(n, job)]).map Prod.snd = (w.enqueue job).queue := by
  have hlength : w.queue.length = k.queued.length := by
    rw [← h.mirror, List.length_map]
  rw [List.map_append, List.map_singleton]
  unfold Tickets.kept Worker.enqueue
  rw [hlength, ← h.mirror]
  split
  · rw [List.map_drop]
  · rfl

/-- **A new job gets a new ticket.** -/
theorem new {w : Worker} (h : Shelf w.queue k) (hjob : job.attempt = 0) :
    Shelf (w.enqueue job).queue { k with queued := k.kept ++ [(k.next, job)], next := k.next + 1 } := by
  have hold : (k.held.toList ++ k.kept).Sublist (k.held.toList ++ k.queued) :=
    (kept_sublist k).append_left _
  obtain ⟨hsent, hanswers⟩ := h.fresh k.next (Nat.le_refl _)
  constructor
  case mirror => exact h.mirror_enqueue k.next job
  case bound =>
    rw [List.length_append, List.length_singleton]
    exact h.length_kept
  case fresh => exact fun n hn => h.fresh n (Nat.le_of_succ_le hn)
  case given =>
    intro e he
    rw [← List.append_assoc] at he
    rcases List.mem_append.mp he with he | he
    · exact Nat.lt_succ_of_lt (h.given e (hold.subset he))
    · rw [List.mem_singleton.mp he]
      exact Nat.lt_succ_self _
  case apart =>
    rw [← List.append_assoc, List.map_append, List.map_singleton, ← List.concat_eq_append]
    refine List.Nodup.concat (fun hmem => ?_) (h.apart.sublist (hold.map Prod.fst))
    obtain ⟨e, he, hsame⟩ := List.mem_map.mp hmem
    have hlt := h.given e (hold.subset he)
    rw [hsame] at hlt
    exact Nat.lt_irrefl _ hlt
  case waiting =>
    intro e he
    rcases List.mem_append.mp he with he | he
    · exact (h.waiting e ((kept_sublist k).subset he)).frame rfl rfl
    · rw [List.mem_singleton.mp he]
      exact .fresh hsent hanswers hjob
  case law => exact h.law

/-- **The job in flight goes back with its ticket.** -/
theorem back {w : Worker} (h : Shelf w.queue k) {j : UploadJob} (hheld : k.held = some (n, j))
    (hwaits : Waiting k n job) :
    Shelf (w.enqueue job).queue { k with queued := k.kept ++ [(n, job)], held := none } := by
  have hgiven := h.given
  have hapart := h.apart
  rw [hheld, Option.toList_some, List.singleton_append] at hgiven hapart
  rw [List.map_cons, List.nodup_cons] at hapart
  have hold := kept_sublist k
  constructor
  case mirror => exact h.mirror_enqueue n job
  case bound =>
    rw [List.length_append, List.length_singleton]
    exact h.length_kept
  case fresh => exact h.fresh
  case given =>
    intro e he
    rw [Option.toList_none, List.nil_append] at he
    rcases List.mem_append.mp he with he | he
    · exact hgiven e (List.mem_cons_of_mem _ (hold.subset he))
    · rw [List.mem_singleton.mp he]
      exact hgiven (n, j) List.mem_cons_self
  case apart =>
    rw [Option.toList_none, List.nil_append, List.map_append, List.map_singleton,
      ← List.concat_eq_append]
    refine List.Nodup.concat (fun hmem => hapart.1 ?_) (hapart.2.sublist (hold.map Prod.fst))
    exact (hold.map Prod.fst).subset hmem
  case waiting =>
    intro e he
    rcases List.mem_append.mp he with he | he
    · exact (h.waiting e (hold.subset he)).frame rfl rfl
    · rw [List.mem_singleton.mp he]
      exact hwaits.frame rfl rfl
  case law => exact h.law

theorem takeReady_some {now : Nat} {q : List (Nat × UploadJob)} {rest : List UploadJob}
    (h : Worker.takeReady now (q.map Prod.snd) = some (job, rest)) :
    ∃ n before after, q = before ++ (n, job) :: after ∧ rest = (before ++ after).map Prod.snd ∧
      Tickets.takeReady now q = some ((n, job), before ++ after) ∧ job.notBefore ≤ now := by
  induction q generalizing rest with
  | nil => cases h
  | cons e q ih =>
    simp only [List.map_cons, Worker.takeReady] at h
    split at h
    · rename_i hdue
      obtain ⟨rfl, rfl⟩ := Prod.mk.inj (Option.some.inj h)
      refine ⟨e.1, [], q, rfl, rfl, ?_, hdue⟩
      rw [Tickets.takeReady, if_pos hdue]
      rfl
    · rename_i hdue
      obtain ⟨⟨j, r⟩, hr, hsame⟩ := Option.map_eq_some_iff.mp h
      obtain ⟨rfl, rfl⟩ := Prod.mk.inj hsame
      obtain ⟨n, before, after, rfl, rfl, htake, hj⟩ := ih hr
      refine ⟨n, e :: before, after, rfl, rfl, ?_, hj⟩
      rw [Tickets.takeReady, if_neg hdue, htake]
      rfl

/-- **A take moves a ticket from the queue to the worker.** -/
theorem take (h : Shelf queue k) (hnone : k.held = none) {now : Nat} {rest : List UploadJob}
    (htake : Worker.takeReady now queue = some (job, rest)) :
    ∃ n, Shelf rest (k.take now) ∧ (k.take now).held = some (n, job) ∧
      Waiting (k.take now) n job ∧ job.notBefore ≤ now := by
  rw [← h.mirror] at htake
  obtain ⟨n, before, after, hq, rfl, htaken, hdue⟩ := takeReady_some htake
  have hk : k.take now = { k with queued := before ++ after, held := some (n, job) } := by
    rw [Tickets.take, htaken]
  have hmoved : ((n, job) :: (before ++ after)).Perm k.queued := by
    rw [hq]
    exact List.perm_middle.symm
  have hold : ∀ e ∈ before ++ after, e ∈ k.queued := fun e he =>
    hmoved.subset (List.mem_cons_of_mem _ he)
  have hgiven := h.given
  have hapart := h.apart
  rw [hnone, Option.toList_none, List.nil_append] at hgiven hapart
  have hwaits := h.waiting (n, job) (hmoved.subset List.mem_cons_self)
  rw [hk]
  refine ⟨n, ?_, rfl, hwaits.frame rfl rfl, hdue⟩
  constructor
  case mirror => rfl
  case bound =>
    have hlength := hmoved.length_eq
    have hbound := h.bound
    rw [List.length_cons] at hlength
    show (before ++ after).length ≤ Worker.maxQueueSize
    omega
  case fresh => exact h.fresh
  case given => exact fun e he => hgiven e (hmoved.subset he)
  case apart => exact (hmoved.map Prod.fst).nodup_iff.mpr hapart
  case waiting => exact fun e he => (h.waiting e (hold e he)).frame rfl rfl
  case law => exact h.law

/-- What a sending or an answer does to the held ticket leaves the rest of the shelf. -/
theorem atHeld (h : Shelf queue k) {j : UploadJob} (hheld : k.held = some (n, j)) {k' : Tickets}
    (hnext : k'.next = k.next) (hqueued : k'.queued = k.queued) (hheld' : k'.held = k.held)
    (hother : ∀ m, m ≠ n → k'.sent m = k.sent m ∧ k'.answers m = k.answers m)
    (hlaw : Disciplined (k'.sent n) (k'.answers n)) : Shelf queue k' := by
  have hgiven := h.given
  have hapart := h.apart
  rw [hheld, Option.toList_some, List.singleton_append] at hgiven hapart
  rw [List.map_cons, List.nodup_cons] at hapart
  have hlt : n < k.next := hgiven (n, j) List.mem_cons_self
  constructor
  case mirror => rw [hqueued]; exact h.mirror
  case bound => rw [hqueued]; exact h.bound
  case fresh =>
    intro m hm
    rw [hnext] at hm
    obtain ⟨hsent, hanswers⟩ := hother m (by omega)
    rw [hsent, hanswers]
    exact h.fresh m hm
  case given =>
    rw [hheld', hqueued, hnext]
    exact h.given
  case apart =>
    rw [hheld', hqueued]
    exact h.apart
  case waiting =>
    intro e he
    rw [hqueued] at he
    have hne : e.1 ≠ n := by
      intro hn
      have hmem : e.1 ∈ k.queued.map Prod.fst := List.mem_map_of_mem he
      exact hapart.1 (hn ▸ hmem)
    obtain ⟨hsent, hanswers⟩ := hother e.1 hne
    exact (h.waiting e he).frame hsent hanswers
  case law =>
    intro m
    by_cases hm : m = n
    · rw [hm]
      exact hlaw
    · rw [(hother m hm).1, (hother m hm).2]
      exact h.law m

theorem release (h : Shelf queue k) : Shelf queue { k with held := none } := by
  have hold : k.queued.Sublist (k.held.toList ++ k.queued) := List.sublist_append_right _ _
  exact ⟨h.mirror, h.bound, h.fresh, fun e he => h.given e (hold.subset he),
    h.apart.sublist (hold.map Prod.fst), fun e he => (h.waiting e he).frame rfl rfl, h.law⟩

theorem empty (h : Shelf queue k) : Shelf [] { k with queued := [] } := by
  have hold : (k.held.toList ++ []).Sublist (k.held.toList ++ k.queued) :=
    (List.nil_sublist _).append_left _
  exact ⟨rfl, Nat.zero_le _, h.fresh, fun e he => h.given e (hold.subset he),
    h.apart.sublist (hold.map Prod.fst), fun e he => absurd he List.not_mem_nil, h.law⟩

theorem start : Shelf [] {} :=
  ⟨rfl, Nat.zero_le _, fun _ _ => ⟨rfl, rfl⟩, fun _ he => absurd he List.not_mem_nil, List.nodup_nil,
    fun _ he => absurd he List.not_mem_nil, fun _ => disciplined_nil⟩

end Shelf

/-! ## The job in flight -/

/-- What a final response leaves to do, or giving the job up: no sending of that job. -/
def Act.After (job : UploadJob) : Act → Prop
  | .enqueue j => j.attempt = 0 ∧ ¬ job.Same j
  | .ackRequests _ => job.parseAck = true
  | .rttSample | .track _ _ | .addItem _ _ | .persistLeftover _ => True
  | _ => False

/-- Where the worker's program stands with the job it holds. -/
inductive InFlight (now : Nat) (k : Tickets) (n : Nat) (job : UploadJob) : List Act → Prop where
  | posting (waits : Waiting k n job) (due : job.notBefore ≤ now) : InFlight now k n job [.post job]
  | awaiting (sent : Unanswered k n job) : InFlight now k n job [.await job]
  | after (acts : List Act) (after : ∀ a ∈ acts, a.After job) :
      InFlight now k n job (acts ++ [.clearInFlight])
  | again (j : UploadJob) (same : job.Same j) (waits : Waiting k n j) :
      InFlight now k n job [.enqueue j, .clearInFlight]

/-- The worker holds a job just while one is in flight, up to giving it back. -/
def Flight (s : State) (k : Tickets) (p : List Act) : Prop :=
  match k.held with
  | none => s.worker.inFlight = false ∨ p = [.clearInFlight]
  | some (n, job) => s.worker.inFlight = true ∧ InFlight s.now k n job p

/-- No log upload is ephemeral. -/
def LogKept (job : UploadJob) : Prop := job.isLogUpload = true → job.durability ≠ .ephemeral

section Step

variable {s s' : State} {a : Act} {i : Input} {new : List Act} {k : Tickets}

/-- The action changes the queue, or which job is in flight. -/
def Act.MovesJobs : Act → Prop
  | .enqueue _ | .takeReadyJob | .waiting _ | .clearInFlight | .joinWorker => True
  | _ => False

theorem perform_still (h : perform s a i = some (s', new)) (ha : ¬ a.MovesJobs) :
    s'.worker.queue = s.worker.queue ∧ s'.worker.inFlight = s.worker.inFlight := by
  constructor
  · cases perform_flow h with
    | pass _ queue _ => exact queue
    | add metric text _ after =>
      rw [after]
      exact (addItem_effect s metric text).1
    | drain metric stamp now force _ after =>
      exact congrArg Worker.queue (maybeFlushBatch_effect after).1
    | enqueue job act =>
      subst act
      exact absurd trivial ha
    | take _ _ _ act =>
      rcases act with rfl | ⟨_, rfl⟩ <;> exact absurd trivial ha
    | processed _ _ _ _ done => exact done.queue
    | leftovers act =>
      subst act
      exact absurd trivial ha
  · rcases (perform_flow h).inFlight with hsame | rfl | rfl | ⟨deadline, rfl⟩
    · exact hsame
    all_goals exact absurd trivial ha

/-- What the tickets say of the job in flight holds as long as they and the clock do. -/
theorem Flight.frame {k' : Tickets} {p : List Act} (h : Flight s k p) (hheld : k'.held = k.held)
    (hsent : k'.sent = k.sent) (hanswers : k'.answers = k.answers)
    (hflight : s'.worker.inFlight = s.worker.inFlight) (hnow : s.now ≤ s'.now) : Flight s' k' p := by
  unfold Flight at h ⊢
  rw [hheld, hflight]
  cases hk : k.held with
  | none =>
    rw [hk] at h
    exact h
  | some e =>
    obtain ⟨n, job⟩ := e
    rw [hk] at h
    refine ⟨h.1, ?_⟩
    cases h.2 with
    | posting waits due =>
      exact .posting (waits.frame (congrFun hsent n) (congrFun hanswers n)) (due.trans hnow)
    | awaiting sent => exact .awaiting (sent.frame (congrFun hsent n) (congrFun hanswers n))
    | after acts after => exact .after acts after
    | again j same waits =>
      exact .again j same (waits.frame (congrFun hsent n) (congrFun hanswers n))

theorem Flight.idle {p : List Act} (hnone : k.held = none) (hf : s.worker.inFlight = false) :
    Flight s k p := by
  unfold Flight
  rw [hnone]
  exact .inl hf

theorem enqueue_new {t : Nat} {job : UploadJob}
    (h : ∀ n j, k.held = some (n, j) → ¬ (t = 2 ∧ j.Same job)) :
    k.enqueue t job = { k with queued := k.kept ++ [(k.next, job)], next := k.next + 1 } := by
  unfold Tickets.enqueue
  split
  · rename_i n j hheld
    rw [if_neg (h n j hheld)]
  · rfl

theorem act_still {t : Nat} (ha : ¬ a.MovesJobs) (hpost : ∀ job, a ≠ .post job)
    (hawait : ∀ job, a ≠ .await job) : k.act t s s' i a = k := by
  cases a with
  | enqueue => exact absurd trivial ha
  | takeReadyJob => exact absurd trivial ha
  | waiting => exact absurd trivial ha
  | clearInFlight => exact absurd trivial ha
  | joinWorker => exact absurd trivial ha
  | post job => exact absurd rfl (hpost job)
  | await job => exact absurd rfl (hawait job)
  | _ => rfl

/-- **Another thread than the worker's** enqueues new jobs, or empties the queue. -/
theorem outside_step {t : Nat} (h : perform s a i = some (s', new)) (ha : a.On t) (ht : t ≠ 2)
    (hshelf : Shelf s.worker.queue k) :
    Shelf s'.worker.queue (k.act t s s' i a) ∧
      ∀ p, Flight s k p → Flight s' (k.act t s s' i a) p := by
  have hnow : s.now ≤ s'.now := (perform_fixed h).now.ge
  by_cases hmoves : a.MovesJobs
  · cases a with
    | enqueue job =>
      have hjob : job.attempt = 0 := (ha.resolve_right ht).1
      have hk : k.act t s s' i (.enqueue job) =
          { k with queued := k.kept ++ [(k.next, job)], next := k.next + 1 } :=
        enqueue_new fun _ _ _ hback => ht hback.1
      obtain ⟨rfl, -⟩ := Prod.mk.inj (Option.some.inj h)
      rw [hk]
      exact ⟨hshelf.new hjob, fun p hp => hp.frame rfl rfl rfl rfl hnow⟩
    | joinWorker =>
      obtain ⟨-, rfl, -⟩ := joinWorker_cases h
      exact ⟨hshelf.empty, fun p hp => hp.frame rfl rfl rfl rfl hnow⟩
    | takeReadyJob => exact absurd ha ht
    | waiting => exact absurd ha ht
    | clearInFlight => exact absurd ha ht
    | _ => exact hmoves.elim
  · obtain ⟨hqueue, hflight⟩ := perform_still h hmoves
    have hk : k.act t s s' i a = k := by
      apply act_still hmoves
      · rintro job rfl
        exact ht ha
      · rintro job rfl
        exact ht ha
    rw [hk, hqueue]
    exact ⟨hshelf, fun p hp => hp.frame rfl rfl rfl hflight hnow⟩

/-! ## The worker's thread -/

theorem WorkerAt.alone {rest : List Act} (h : WorkerAt false (a :: rest))
    (ha : a = .takeReadyJob ∨ ∃ deadline, a = .waiting deadline) : rest = [] := by
  generalize hf : false = flight at h
  generalize hp : a :: rest = p at h
  cases h with
  | top => exact (List.cons.inj hp).2
  | waiting => exact (List.cons.inj hp).2
  | taking => exact (List.cons.inj hp).2
  | stopped => cases hp
  | posting => cases hf
  | awaiting => cases hf
  | handled => cases hf
  | draining acts drains =>
    cases acts with
    | nil => exact (List.cons.inj hp).2
    | cons b acts =>
      obtain ⟨rfl, -⟩ := List.cons.inj hp
      have hdrains := drains a List.mem_cons_self
      rcases ha with rfl | ⟨_, rfl⟩ <;> exact hdrains.elim

theorem takeReadyJob_ready (h : takeReadyJob s = (s', new)) :
    (s' = s ∧ new = [.loopTop]) ∨
      ∃ job rest, Worker.takeReady s.now s.worker.queue = some (job, rest) ∧
        s' = { s with worker := { s.worker with queue := rest, inFlight := true } } ∧
        new = [.post job] := by
  unfold takeReadyJob at h
  split at h
  · obtain ⟨rfl, rfl⟩ := Prod.mk.inj h
    exact .inl ⟨rfl, rfl⟩
  · rename_i job rest htake
    obtain ⟨rfl, rfl⟩ := Prod.mk.inj h
    exact .inr ⟨job, rest, htake, rfl, rfl⟩

/-- **The worker takes a job**, or finds none that is due. -/
theorem take_step (h : takeReadyJob s = (s', new)) (hshelf : Shelf s.worker.queue k)
    (hnone : k.held = none) (hf : s.worker.inFlight = false) :
    Shelf s'.worker.queue (if s'.worker.inFlight then k.take s.now else k) ∧
      Flight s' (if s'.worker.inFlight then k.take s.now else k) new := by
  rcases takeReadyJob_ready h with ⟨rfl, rfl⟩ | ⟨job, rest, htake, rfl, rfl⟩
  · rw [hf]
    exact ⟨hshelf, .idle hnone hf⟩
  · obtain ⟨n, hrest, hheld, hwaits, hdue⟩ := hshelf.take hnone htake
    refine ⟨hrest, ?_⟩
    unfold Flight
    rw [if_pos rfl, hheld]
    exact ⟨rfl, .posting hwaits hdue⟩

theorem free_step {rest : List Act} (h : perform s a i = some (s', new)) (hnone : k.held = none)
    (hat : WorkerAt s.worker.inFlight (a :: rest)) (ha : a.On 2) (hshelf : Shelf s.worker.queue k)
    (hflight : Flight s k (a :: rest)) :
    Shelf s'.worker.queue (k.act 2 s s' i a) ∧ Flight s' (k.act 2 s s' i a) (new ++ rest) := by
  have hfree : s.worker.inFlight = false ∨ a :: rest = [.clearInFlight] := by
    unfold Flight at hflight
    rw [hnone] at hflight
    exact hflight
  have hsend : ∀ job, k.send job s.now = k := by
    intro job
    unfold Tickets.send
    rw [hnone]
  have hanswer : k.answer i.response s.now = k := by
    unfold Tickets.answer
    rw [hnone]
  by_cases hclear : a = .clearInFlight
  · subst hclear
    obtain ⟨rfl, -⟩ := Prod.mk.inj (Option.some.inj h)
    exact ⟨hshelf.release, .idle rfl rfl⟩
  · have hf : s.worker.inFlight = false :=
      hfree.resolve_right fun hp => hclear (List.cons.inj hp).1
    rw [hf] at hat
    by_cases hmoves : a.MovesJobs
    · cases a with
      | enqueue job =>
        -- the drainer's
        have hjob : job.FirstTry := not_not.mp (hat.idle _ List.mem_cons_self)
        have hk : k.act 2 s s' i (.enqueue job) =
            { k with queued := k.kept ++ [(k.next, job)], next := k.next + 1 } := by
          apply enqueue_new
          intro n j hheld
          rw [hnone] at hheld
          cases hheld
        obtain ⟨rfl, -⟩ := Prod.mk.inj (Option.some.inj h)
        rw [hk]
        exact ⟨hshelf.new hjob.1, .idle hnone hf⟩
      | takeReadyJob =>
        obtain rfl := hat.alone (.inl rfl)
        rw [List.append_nil]
        exact take_step (Option.some.inj h) hshelf hnone hf
      | waiting deadline =>
        obtain rfl := hat.alone (.inr ⟨deadline, rfl⟩)
        rw [List.append_nil]
        have hk : ∀ u : State, u.worker.inFlight = false → k.act 2 s u i (.waiting deadline) = k := by
          intro u hu
          simp only [Tickets.act, hu, Bool.false_eq_true, if_false]
        rcases wakeUp_cases (waiting_cases h) with ⟨-, rfl, rfl⟩ | ⟨-, flushed, rfl, rfl⟩ | ⟨-, hw⟩
        · rw [hk { s with workerThread := false } hf]
          exact ⟨hshelf, .idle hnone hf⟩
        · rw [hk { s with worker := { s.worker with
            wakeRequested := false, nextLogFlush := flushed } } hf]
          exact ⟨hshelf, .idle hnone hf⟩
        · have hawake : Shelf ({ s with worker := { s.worker with
            wakeRequested := false } } : State).worker.queue k := hshelf
          have htaken := take_step hw hawake hnone hf
          exact htaken
      | clearInFlight => exact absurd rfl hclear
      | joinWorker => exact absurd rfl ha.2
      | _ => exact hmoves.elim
    · obtain ⟨hqueue, hsame⟩ := perform_still h hmoves
      have hk : k.act 2 s s' i a = k := by
        cases a with
        | post job => exact hsend job
        | await job => exact hanswer
        | _ => first | exact absurd trivial hmoves | rfl
      rw [hk, hqueue]
      exact ⟨hshelf, .idle hnone (hsame.trans hf)⟩

theorem process_retry {job : UploadJob} (htransient : i.response.outcome = .transient)
    (hkept : job.durability ≠ .ephemeral) (hmore : job.attempt + 1 < Worker.maxAttempts) :
    process s job i = (s, [.enqueue (Worker.retried job s.now
      (retryAfterHint i.response.status i.response.retryAfter))]) := by
  have hretry : ∀ hint, retryOrGiveUp s job hint = (s, [.enqueue (Worker.retried job s.now hint)]) :=
    fun hint => if_pos hmore
  unfold process
  split
  · rw [if_pos ⟨htransient, hmore⟩, hretry]
  · have hposted : handlePostResult s job i = (s, [.enqueue (Worker.retried job s.now
        (retryAfterHint i.response.status i.response.retryAfter))]) := by
      unfold handlePostResult
      rw [htransient]
      exact (if_neg hkept).trans (hretry _)
    have hdelivered : (i.response.outcome == Outcome.delivered) = false := by
      rw [htransient]
      rfl
    simp only [hposted, hdelivered, Bool.and_false, Bool.false_eq_true, if_false, List.append_nil]

theorem not_same_log {job : UploadJob} (hlog : job.isLogUpload = false) (upload : JsonScan.LogUpload)
    (bytes : Bytes) : ¬ job.Same (logUploadJob upload bytes) := by
  intro hsame
  have htrue : job.isLogUpload = true := congrArg UploadJob.isLogUpload hsame
  rw [hlog] at htrue
  cases htrue

theorem not_same_fulfil {job : UploadJob} (hack : job.parseAck = true) (who : ClientIdent)
    (request : JsonScan.PendingPullRequest) : ¬ job.Same (fulfilJob s who request) := by
  intro hsame
  have hfalse : job.parseAck = false := congrArg UploadJob.parseAck hsame
  rw [hack] at hfalse
  cases hfalse

theorem Processed.after {job : UploadJob} {response : HttpResponse} {acts : List Act}
    (h : Processed s job response s' acts) (hlog : LogKept job)
    (hno : ¬ (response.outcome = .transient ∧ job.durability ≠ .ephemeral ∧
      job.attempt + 1 < Worker.maxAttempts)) : ∀ a ∈ acts, a.After job := by
  intro b hb
  cases h with
  | final _ log _ follow =>
    cases follow b hb with
    | log _ upload bytes => exact ⟨rfl, not_same_log log upload bytes⟩
    | ack parsed _ => exact parsed
    | rtt => trivial
  | retry transient kept attempts _ =>
    have hdurable : job.durability ≠ .ephemeral := kept.elim hlog id
    exact absurd ⟨transient, hdurable, attempts⟩ hno
  | givenUp _ _ _ _ =>
    rw [List.mem_singleton.mp (List.mem_ite_nil_right.mp hb).2]
    trivial
  | lost _ => cases hb

/-- What follows up on a response leaves only such actions, and moves no job but new ones. -/
theorem after_leads {job : UploadJob} (h : perform s a i = some (s', new)) (ha : a.After job) :
    ∀ b ∈ new, b.After job := by
  intro b hb
  cases perform_leads h b hb with
  | fulfil =>
    obtain ⟨-, rfl⟩ := Prod.mk.inj (Option.some.inj h)
    obtain ⟨j, hj, hsame⟩ := List.mem_map.mp hb
    obtain rfl := Act.enqueue.inj hsame
    unfold fulfilJobs at hj
    split at hj
    · cases hj
    · obtain ⟨request, -, rfl⟩ := List.mem_map.mp hj
      exact ⟨rfl, not_same_fulfil ha i.ident request⟩
  | sample => trivial
  | track => trivial
  | again taking => rcases taking with rfl | ⟨_, rfl⟩ <;> exact ha.elim
  | take taking => rcases taking with rfl | ⟨_, rfl⟩ <;> exact ha.elim
  | _ => exact ha.elim

theorem Flight.held {n : Nat} {job : UploadJob} {p : List Act} (hheld : k.held = some (n, job))
    (hf : s.worker.inFlight = true) (hp : InFlight s.now k n job p) : Flight s k p := by
  unfold Flight
  rw [hheld]
  exact ⟨hf, hp⟩

/-- **The job is handed to the transport.** -/
theorem send_step {n : Nat} {job : UploadJob} (hheld : k.held = some (n, job))
    (hshelf : Shelf s.worker.queue k) (hf : s.worker.inFlight = true) (hwaits : Waiting k n job)
    (hdue : job.notBefore ≤ s.now) :
    Shelf s.worker.queue (k.send job s.now) ∧ Flight s (k.send job s.now) [.await job] := by
  have hk : k.send job s.now =
      { k with sent := Function.update k.sent n (k.sent n ++ [⟨job, s.now⟩]) } := by
    unfold Tickets.send
    rw [hheld]
  rw [hk]
  have hsent : Unanswered { k with sent := Function.update k.sent n (k.sent n ++ [⟨job, s.now⟩]) }
      n job := hwaits.send hdue (Function.update_self ..) rfl
  refine ⟨hshelf.atHeld hheld rfl rfl rfl (fun m hm => ⟨?_, rfl⟩) hsent.law,
    .held hheld hf (.awaiting hsent)⟩
  exact Function.update_of_ne hm _ _

/-- **The transport answers.** -/
theorem answer_step {n : Nat} {job : UploadJob} (hheld : k.held = some (n, job))
    (hshelf : Shelf s.worker.queue k) (hf : s.worker.inFlight = true) (hsent : Unanswered k n job)
    (hlog : LogKept job) :
    Shelf (process s job i).1.worker.queue (k.answer i.response s.now) ∧
      Flight (process s job i).1 (k.answer i.response s.now)
        ((process s job i).2 ++ [.clearInFlight]) := by
  have hdone := process_cases (Prod.mk.eta (p := process s job i)).symm
  have hk : k.answer i.response s.now = { k with
      answers := Function.update k.answers n (k.answers n ++ [⟨i.response, s.now⟩]) } := by
    unfold Tickets.answer
    rw [hheld]
  rw [hk, hdone.queue]
  have hflight : (process s job i).1.worker.inFlight = true := hdone.inFlight.trans hf
  have hanswers : Function.update k.answers n (k.answers n ++ [⟨i.response, s.now⟩]) n =
      k.answers n ++ [⟨i.response, s.now⟩] := Function.update_self ..
  refine ⟨hshelf.atHeld hheld rfl rfl rfl (fun m hm => ⟨rfl, ?_⟩) (hsent.answer rfl hanswers),
    .held hheld hflight ?_⟩
  · exact Function.update_of_ne hm _ _
  · by_cases hretry : i.response.outcome = .transient ∧ job.durability ≠ .ephemeral ∧
        job.attempt + 1 < Worker.maxAttempts
    · obtain ⟨htransient, hdurable, hmore⟩ := hretry
      rw [process_retry htransient hdurable hmore]
      exact .again _ (.retried job s.now _) (hsent.retry rfl hanswers hmore hdurable htransient)
    · exact .after _ (hdone.after hlog hretry)

/-- **The worker's thread while it holds a job.** -/
theorem busy_step {rest : List Act} {n : Nat} {job : UploadJob}
    (h : perform s a i = some (s', new)) (hheld : k.held = some (n, job))
    (hkept : ∀ j ∈ a.jobs, LogKept j) (hshelf : Shelf s.worker.queue k)
    (hf : s.worker.inFlight = true) (hp : InFlight s.now k n job (a :: rest)) :
    Shelf s'.worker.queue (k.act 2 s s' i a) ∧ Flight s' (k.act 2 s s' i a) (new ++ rest) := by
  generalize hprogram : a :: rest = p at hp
  cases hp with
  | posting waits due =>
    obtain ⟨rfl, rfl⟩ := List.cons.inj hprogram
    obtain ⟨rfl, rfl⟩ := Prod.mk.inj (Option.some.inj h)
    exact send_step hheld hshelf hf waits due
  | awaiting sent =>
    obtain ⟨rfl, rfl⟩ := List.cons.inj hprogram
    obtain ⟨rfl, rfl⟩ := Prod.mk.inj (Option.some.inj h)
    rw [List.append_nil]
    exact answer_step hheld hshelf hf sent (hkept job (List.mem_singleton_self job))
  | after acts after =>
    cases acts with
    | nil =>
      obtain ⟨rfl, rfl⟩ := List.cons.inj hprogram
      obtain ⟨rfl, rfl⟩ := Prod.mk.inj (Option.some.inj h)
      exact ⟨hshelf.release, .idle rfl rfl⟩
    | cons b acts =>
      obtain ⟨rfl, rfl⟩ := List.cons.inj hprogram
      have ha := after a List.mem_cons_self
      have hrest : ∀ b ∈ new ++ acts, b.After job := by
        intro b hb
        rcases List.mem_append.mp hb with hb | hb
        · exact after_leads h ha b hb
        · exact after b (List.mem_cons_of_mem a hb)
      show _ ∧ Flight s' _ (new ++ (acts ++ [.clearInFlight]))
      rw [← List.append_assoc]
      have hnow : s.now ≤ s'.now := (perform_fixed h).now.ge
      by_cases hmoves : a.MovesJobs
      · cases a with
        | enqueue j =>
          have hk : k.act 2 s s' i (.enqueue j) =
              { k with queued := k.kept ++ [(k.next, j)], next := k.next + 1 } := by
            apply enqueue_new
            intro n' j' hheld' hback
            obtain ⟨rfl, rfl⟩ := Prod.mk.inj (Option.some.inj (hheld.symm.trans hheld'))
            exact ha.2 hback.2
          obtain ⟨rfl, -⟩ := Prod.mk.inj (Option.some.inj h)
          rw [hk]
          exact ⟨hshelf.new ha.1, .held hheld hf (.after _ hrest)⟩
        | _ => first | exact hmoves.elim | exact ha.elim
      · obtain ⟨hqueue, hsame⟩ := perform_still h hmoves
        have hk : k.act 2 s s' i a = k := by
          apply act_still hmoves
          · rintro j rfl
            exact ha
          · rintro j rfl
            exact ha
        rw [hk, hqueue]
        exact ⟨hshelf, .held hheld (hsame.trans hf) (.after _ hrest)⟩
  | again j same waits =>
    obtain ⟨rfl, rfl⟩ := List.cons.inj hprogram
    have hk : k.act 2 s s' i (.enqueue j) =
        { k with queued := k.kept ++ [(n, j)], held := none } := by
      show k.enqueue 2 j = _
      unfold Tickets.enqueue
      rw [hheld]
      exact if_pos ⟨rfl, same⟩
    obtain ⟨rfl, rfl⟩ := Prod.mk.inj (Option.some.inj h)
    rw [hk]
    exact ⟨hshelf.back hheld waits, .inr rfl⟩

end Step

/-! ## Runs -/

theorem logKept_sources : FromSources LogKept := by
  refine fromSources_logUpload (fun _ _ h => h) (fun _ _ _ h => h) fun _ _ _ _ hephemeral => ?_
  cases hephemeral

/-- What holds of the client and the tickets in every run. -/
structure Booked (x : Config × Tickets) : Prop where
  programs : Programs x.1
  logs : AllJobs LogKept x.1
  shelf : Shelf x.1.shared.worker.queue x.2
  flight : ∀ p, x.1.threads[2]? = some p → Flight x.1.shared x.2 p

theorem Booked.start {c : Config} (h : Fresh c) : Booked (c, {}) := by
  have hqueue : c.shared.worker.queue = [] := by
    rw [h.memory]
  have hnone : ∀ (t : Nat) (p : List Act), c.threads[t]? ≠ some p := by
    intro t p
    rw [h.threads, List.getElem?_nil]
    exact nofun
  refine ⟨⟨⟨fun _ => ?_, fun _ => ?_⟩, fun t p hp => absurd hp (hnone t p)⟩,
    ⟨fun job hjob => ?_, fun t p hp => absurd hp (hnone t p)⟩, ?_, fun p hp => absurd hp (hnone 2 p)⟩
  · rw [h.memory]
  · rw [h.memory]
  · rw [hqueue] at hjob
    cases hjob
  · show Shelf c.shared.worker.queue {}
    rw [hqueue]
    exact .start

theorem Booked.exec {c : Config} {k : Tickets} {t : Nat} {i : Input} {a : Act} {rest new : List Act}
    {s' : State} (h : Booked (c, k)) (ht : c.threads[t]? = some (a :: rest))
    (hp : perform c.shared a i = some (s', new)) :
    Shelf s'.worker.queue (k.act t c.shared s' i a) ∧
      ∀ p, (c.threads.set t (new ++ rest))[2]? = some p → Flight s' (k.act t c.shared s' i a) p := by
  have hprogram := h.programs.threads t _ ht
  have hon := hprogram.on a List.mem_cons_self
  by_cases h2 : t = 2
  · subst h2
    have hlt : 2 < c.threads.length := (List.getElem?_eq_some_iff.mp ht).1
    have hflight := h.flight _ ht
    have hstep : Shelf s'.worker.queue (k.act 2 c.shared s' i a) ∧
        Flight s' (k.act 2 c.shared s' i a) (new ++ rest) := by
      cases hheld : k.held with
      | none => exact free_step hp hheld (hprogram.worker rfl) hon h.shelf hflight
      | some e =>
        obtain ⟨n, job⟩ := e
        have hbusy : c.shared.worker.inFlight = true ∧ InFlight c.shared.now k n job (a :: rest) := by
          unfold Flight at hflight
          rw [hheld] at hflight
          exact hflight
        have hlogs := h.logs.act (List.mem_of_getElem? ht) List.mem_cons_self
        exact busy_step hp hheld hlogs h.shelf hbusy.1 hbusy.2
    refine ⟨hstep.1, fun p hp' => ?_⟩
    rw [List.getElem?_set_self hlt] at hp'
    obtain rfl := Option.some.inj hp'
    exact hstep.2
  · obtain ⟨hshelf, hflight⟩ := outside_step hp hon h2 h.shelf
    refine ⟨hshelf, fun p hp' => ?_⟩
    rw [List.getElem?_set_ne h2] at hp'
    exact hflight p (h.flight p hp')

theorem booked_step {x x' : Config × Tickets} {l : Label} (h : Booked x)
    (hs : tracked x l = some x') : Booked x' := by
  obtain ⟨c, k⟩ := x
  obtain ⟨c', hstep, rfl⟩ := Option.map_eq_some_iff.mp hs
  have hprograms := programs_step h.programs hstep
  have hlogs : AllJobs LogKept c' := allJobs_step logKept_sources (fun _ _ => nofun) h.logs hstep
  -- a thread other than the worker's is set
  have hother : ∀ {t : Nat} {q p : List Act}, t ≠ 2 → (c.threads.set t q)[2]? = some p →
      c.threads[2]? = some p := by
    intro t q p ht hp
    rw [List.getElem?_set_ne ht] at hp
    exact hp
  have hbooks : Shelf c'.shared.worker.queue (k.observe c c' l) ∧
      ∀ p, c'.threads[2]? = some p → Flight c'.shared (k.observe c c' l) p := by
    rcases Interleave.step_cases hstep with ⟨t, i, a, rest, s', new, rfl, ht, hp, rfl⟩ |
      ⟨t, call, s', new, rfl, ht, hk, rfl⟩ | ⟨e, rfl, he⟩
    · have hk : k.observe c ⟨s', c.threads.set t (new ++ rest)⟩ (.exec t i) =
          k.act t c.shared s' i a := by
        simp only [Tickets.observe, ht]
      rw [hk]
      exact h.exec ht hp
    · simp only [machine, Runtime.call] at hk
      split at hk
      · rename_i hopen
        obtain ⟨rfl, rfl⟩ := Prod.mk.inj (Option.some.inj hk)
        simp only [Bool.and_eq_true, decide_eq_true_eq] at hopen
        exact ⟨h.shelf, fun p hp => h.flight p (hother hopen.2.2 hp)⟩
      · cases hk
    · obtain ⟨s', ps'⟩ := c'
      rcases env_cases he with ⟨elapsed, rfl, rfl, rfl⟩ | ⟨o, rfl, -, rfl, rfl⟩ | ⟨rfl, rfl, rfl⟩ |
        ⟨t, rfl, -, -, -, -, htwo, -, rfl, rfl⟩
      · refine ⟨h.shelf, fun p hp => (h.flight p hp).frame rfl rfl rfl rfl ?_⟩
        exact Nat.le_add_right _ elapsed
      · exact ⟨h.shelf.empty.release, fun p _ => .idle rfl rfl⟩
      · exact ⟨h.shelf, fun p hp => (h.flight p hp).frame rfl rfl rfl rfl (Nat.le_refl _)⟩
      · refine ⟨h.shelf, fun p hp => ?_⟩
        exact (h.flight p (hother htwo.2 hp)).frame rfl rfl rfl rfl (Nat.le_refl _)
  exact ⟨hprograms, hlogs, hbooks.1, hbooks.2⟩

theorem tracked_run {c₀ c : Config} {ls : List Label} (k : Tickets)
    (h : Run.run step c₀ ls = some c) : ∃ k', Run.run tracked (c₀, k) ls = some (c, k') := by
  induction ls generalizing c₀ k with
  | nil =>
    obtain rfl : c₀ = c := Option.some.inj h
    exact ⟨k, rfl⟩
  | cons l ls ih =>
    obtain ⟨u, hu, hrest⟩ := Run.run_cons_some.mp h
    obtain ⟨k', hk'⟩ := ih (k.observe c₀ u l) hrest
    refine ⟨k', Run.run_cons_some.mpr ⟨(u, k.observe c₀ u l), ?_, hk'⟩⟩
    rw [tracked, hu]
    rfl

/-! ## One job at a time -/

/-- The job that is with the transport, or about to be. -/
def Act.inFlight : Act → List UploadJob
  | .post job | .await job => [job]
  | _ => []

def jobsInFlight (c : Config) : List UploadJob := c.threads.flatMap fun p => p.flatMap Act.inFlight

theorem inFlight_eq_nil {acts : List Act} (h : ∀ a ∈ acts, a.inFlight = []) :
    acts.flatMap Act.inFlight = [] := List.flatMap_eq_nil_iff.mpr h

theorem WorkerAt.one {flight : Bool} {p : List Act} (h : WorkerAt flight p) :
    (p.flatMap Act.inFlight).length ≤ 1 := by
  cases h with
  | top => exact Nat.zero_le _
  | waiting => exact Nat.zero_le _
  | taking => exact Nat.zero_le _
  | stopped => exact Nat.zero_le _
  | posting => exact Nat.le_refl _
  | awaiting => exact Nat.le_refl _
  | draining acts drains =>
    have hnone : acts.flatMap Act.inFlight = [] := by
      apply inFlight_eq_nil
      intro a ha
      have hdrains := drains a ha
      cases a <;> first | rfl | exact hdrains.elim
    rw [List.flatMap_append, hnone]
    exact Nat.zero_le _
  | handled acts follow =>
    have hnone : acts.flatMap Act.inFlight = [] := by
      apply inFlight_eq_nil
      intro a ha
      have hfollow := follow a ha
      cases a <;> first | rfl | exact hfollow.elim
    rw [List.flatMap_append, hnone]
    exact Nat.zero_le _

theorem one_in_flight {c : Config} (h : Programs c) : (jobsInFlight c).length ≤ 1 := by
  rw [jobsInFlight, List.length_flatMap]
  apply Interleave.sum_map_le_of_only (m := 2)
  · intro t p hp ht
    apply List.length_eq_zero_iff.2
    apply inFlight_eq_nil
    intro a ha
    have hon := (h.threads t p hp).on a ha
    cases a <;> first | rfl | exact absurd hon ht
  · exact fun p hp => ((h.threads 2 p hp).worker rfl).one

theorem Booked.posting {c : Config} {k : Tickets} {t : Nat} {job : UploadJob} {rest : List Act}
    (h : Booked (c, k)) (ht : c.threads[t]? = some (.post job :: rest)) :
    ∃ n, k.held = some (n, job) := by
  have hprogram := h.programs.threads t _ ht
  obtain rfl : t = 2 := hprogram.on (.post job) List.mem_cons_self
  have hflight := h.flight _ ht
  unfold Flight at hflight
  cases hheld : k.held with
  | none =>
    rw [hheld] at hflight
    have hat := hprogram.worker rfl
    rcases hflight with hf | hp
    · rw [hf] at hat
      exact absurd trivial (hat.idle _ List.mem_cons_self)
    · cases (List.cons.inj hp).1
  | some e =>
    obtain ⟨n, j⟩ := e
    rw [hheld] at hflight
    generalize hp : Act.post job :: rest = p at hflight
    cases hflight.2 with
    | posting =>
      obtain ⟨hsame, -⟩ := List.cons.inj hp
      cases hsame
      exact ⟨n, rfl⟩
    | awaiting => cases (List.cons.inj hp).1
    | after acts after =>
      cases acts with
      | nil => cases (List.cons.inj hp).1
      | cons b acts =>
        obtain ⟨rfl, -⟩ := List.cons.inj hp
        exact (after _ List.mem_cons_self).elim
    | again => cases (List.cons.inj hp).1

/-- **The retry discipline.** In every state of every run of the client, over launches: the queue
has at most 256 jobs and at most one job is in flight; and with each job followed by its ticket,
so that every sending is on the books of the job that the worker holds and a job's attempt counts
the sendings on its books, a job is sent at most five times, an ephemeral one at most once, again
only after a transient failure, and its `k`-th retry no sooner after that failure than its pause. -/
theorem retry_discipline {c₀ c : Config} {ls : List Label} (h₀ : Fresh c₀)
    (hr : Run.run step c₀ ls = some c) :
    c.shared.worker.queue.length ≤ 256 ∧ (jobsInFlight c).length ≤ 1 ∧
      ∃ k, Run.run tracked (c₀, {}) ls = some (c, k) ∧
        (∀ (t : Nat) (job : UploadJob) (rest : List Act),
          c.threads[t]? = some (.post job :: rest) → ∃ n, k.held = some (n, job)) ∧
        (∀ e ∈ k.queued, (k.sent e.1).length = e.2.attempt) ∧
        ∀ n, Disciplined (k.sent n) (k.answers n) := by
  obtain ⟨k, hk⟩ := tracked_run {} hr
  have hbooked : Booked (c, k) := Run.run_inv (fun _ _ _ h hs => booked_step h hs) (.start h₀) hk
  refine ⟨?_, one_in_flight hbooked.programs, k, hk, fun t job rest ht => hbooked.posting ht,
    fun e he => (hbooked.shelf.waiting e he).sends, hbooked.shelf.law⟩
  rw [← hbooked.shelf.mirror, List.length_map]
  exact hbooked.shelf.bound

/-- A restored report fails once and is put back. -/
def failedOnce : List Label :=
  .env (.launch { order := [crashFile] }) :: .exec 0 {} :: List.replicate 10 (.exec 2 {})

theorem retry_discipline_failedOnce :
    ∃ c k, Run.run tracked (oneCrash, {}) failedOnce = some (c, k) ∧ (k.sent 0).length ≤ 5 := by
  have hrun : (Run.run step oneCrash failedOnce).isSome := by decide
  obtain ⟨c, hc⟩ := Option.isSome_iff_exists.mp hrun
  obtain ⟨-, -, k, hk, -, -, hlaw⟩ := retry_discipline fresh_oneCrash hc
  exact ⟨c, k, hk, (hlaw 0).few⟩

end Tombstone.Runtime
