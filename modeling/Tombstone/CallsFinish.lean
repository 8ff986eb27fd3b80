import Tombstone.Staffing

/- That every call comes to its end (`client.cpp`: `flush`, `~Client`; `worker.cpp`: `stop`).

   The waits of the client are those of a flush, which has a deadline, and the two joins of
   the destructor. What is proved: in every reachable state, whatever thread of the host is
   within a call or in the destructor, steps of the threads alone can bring it to its end
   (`calls_finish`). -/
namespace Tombstone.Runtime

variable {s s' : State} {a : Act} {i : Input} {new : List Act}

/-! ## A thread that runs alone -/

/-- A thread that is left alone with `p` can get through it, from the first state to the last. -/
inductive Clears : State → List Act → State → Prop where
  | done (s : State) : Clears s [] s
  | act {s u s' : State} {a : Act} {i : Input} {new rest : List Act}
      (first : perform s a i = some (u, new)) (left : Clears u (new ++ rest) s') :
      Clears s (a :: rest) s'

theorem Clears.append {u : State} {p q : List Act} (h : Clears s p u) (hq : Clears u q s') :
    Clears s (p ++ q) s' := by
  induction h with
  | done => exact hq
  | act first _ ih =>
    have hleft := ih hq
    rw [List.append_assoc] at hleft
    exact .act first hleft

theorem Clears.one {u : State} (h : perform s a i = some (u, new)) (hn : Clears u new s') :
    Clears s [a] s' := by
  refine .act h ?_
  rwa [List.append_nil]

/-- What no action takes back is still so at the end. -/
theorem Clears.keeps {P : State → Prop} {p : List Act}
    (hkeep : ∀ s a i s' new, P s → perform s a i = some (s', new) → P s') (h : Clears s p s')
    (hs : P s) : P s' := by
  induction h with
  | done => exact hs
  | act first _ ih => exact ih (hkeep _ _ _ _ _ hs first)

theorem Clears.stopped {p : List Act} (h : Clears s p s') (hs : s.worker.running = false) :
    s'.worker.running = false := by
  refine Clears.keeps (P := fun s => s.worker.running = false) ?_ h hs
  intro s a i s' new hs hp
  rcases (perform_control hp).running with hsame | ⟨-, hoff⟩
  · rw [hsame]
    exact hs
  · exact hoff

theorem Clears.told {p : List Act} (h : Clears s p s') (hs : s.heartbeatStop = true) :
    s'.heartbeatStop = true :=
  Clears.keeps (P := fun s => s.heartbeatStop = true)
    (fun _ _ _ _ _ hs hp => (perform_threads hp).stop_kept hs) h hs

def Label.execs : Label → Prop
  | .exec _ _ => True
  | _ => False

/-- Steps of the threads alone lead from the one configuration to the other. -/
def Goes (c c' : Config) : Prop := ∃ ls, (∀ l ∈ ls, Label.execs l) ∧ Run.run step c ls = some c'

theorem Goes.refl (c : Config) : Goes c c := ⟨[], by simp, rfl⟩

theorem Goes.trans {c u c' : Config} (h : Goes c u) (h' : Goes u c') : Goes c c' := by
  obtain ⟨ls, hls, hu⟩ := h
  obtain ⟨ls', hls', hc⟩ := h'
  refine ⟨ls ++ ls', fun l hl => ?_, Run.run_append_some.mpr ⟨u, hu, hc⟩⟩
  rcases List.mem_append.mp hl with hl | hl
  · exact hls l hl
  · exact hls' l hl

theorem Goes.act {c : Config} {t : Nat} {rest : List Act} (ht : c.threads[t]? = some (a :: rest))
    (hp : perform c.shared a i = some (s', new)) : Goes c ⟨s', c.threads.set t (new ++ rest)⟩ := by
  have hmachine : machine.perform c.shared a i = some (s', new) := hp
  refine ⟨[.exec t i], by simp [Label.execs], Run.run_cons_some.mpr ⟨_, ?_, rfl⟩⟩
  simp only [step, Interleave.step, ht, hmachine, Option.map_some]

/-- That thread alone makes the steps. -/
theorem Clears.goes {t : Nat} {p : List Act} (h : Clears s p s') : ∀ {c : Config} {rest : List Act},
    c.shared = s → c.threads[t]? = some (p ++ rest) → Goes c ⟨s', c.threads.set t rest⟩ := by
  induction h with
  | done s =>
    intro c rest hs ht
    obtain ⟨hlt, hrest⟩ := List.getElem?_eq_some_iff.mp ht
    have hset : c.threads.set t rest = c.threads := by
      rw [← List.nil_append rest, ← hrest, List.set_getElem_self]
    rw [hset, ← hs]
    exact .refl c
  | @act s u s' a i new q first _ ih =>
    intro c rest hs ht
    have hlt : t < c.threads.length := (List.getElem?_eq_some_iff.mp ht).1
    have hone : Goes c ⟨u, c.threads.set t (new ++ (q ++ rest))⟩ := by
      apply Goes.act ht
      rw [hs]
      exact first
    have hall : Goes ⟨u, c.threads.set t (new ++ (q ++ rest))⟩
        ⟨s', (c.threads.set t (new ++ (q ++ rest))).set t rest⟩ :=
      ih rfl (by
        rw [List.append_assoc]
        exact List.getElem?_set_self hlt)
    rw [List.set_set] at hall
    exact hone.trans hall

/-- The action waits for nothing: it can be got through from every state. -/
def Able (a : Act) : Prop := ∀ s, ∃ s', Clears s [a] s'

theorem clears_ables : ∀ {acts : List Act}, (∀ a ∈ acts, Able a) → ∀ s, ∃ s', Clears s acts s'
  | [], _, s => ⟨s, .done s⟩
  | a :: acts, h, s => by
    obtain ⟨u, hu⟩ := h a List.mem_cons_self s
    obtain ⟨s', hs'⟩ := clears_ables (fun b hb => h b (List.mem_cons_of_mem a hb)) u
    exact ⟨s', hu.append hs'⟩

theorem able_of (h : ∀ s, ∃ i u new, perform s a i = some (u, new) ∧ ∀ b ∈ new, Able b) : Able a := by
  intro s
  obtain ⟨i, u, new, hp, hnew⟩ := h s
  obtain ⟨s', hs'⟩ := clears_ables hnew u
  exact ⟨s', .one hp hs'⟩

/-- There is always a name that is not in use. -/
theorem exists_freshName (q : SidecarQueue) (kind : SidecarKind) :
    ∃ name : FileName, name.ext = lit ".json" ∧ q.inUse { kind, name } = false := by
  refine ⟨{ stem := List.replicate ((q.files.map fun r => r.path.name.stem.length).sum + 1) 0 }, rfl, ?_⟩
  rw [SidecarQueue.inUse, List.any_eq_false]
  intro r hr hpath
  have hle : r.path.name.stem.length ≤ (q.files.map fun r => r.path.name.stem.length).sum :=
    List.le_sum_of_mem (List.mem_map_of_mem (f := fun r : SidecarRecord => r.path.name.stem.length) hr)
  rw [eq_of_beq hpath, List.length_replicate] at hle
  omega

theorem able_enqueue (job : UploadJob) : Able (.enqueue job) :=
  able_of fun _ => ⟨{}, _, _, rfl, by simp⟩

theorem able_enqueues (jobs : List UploadJob) : ∀ b ∈ jobs.map Act.enqueue, Able b := by
  intro b hb
  obtain ⟨job, -, rfl⟩ := List.mem_map.mp hb
  exact able_enqueue job

theorem able_addItem (metric : Bool) (text : Bytes) : Able (.addItem metric text) :=
  able_of fun _ => ⟨{}, _, _, rfl, by simp⟩

theorem able_track (metric : Bool) (text : Bytes) : Able (.track metric text) := by
  refine able_of fun s => ⟨{}, _, _, rfl, fun b hb => ?_⟩
  split at hb
  · rw [List.mem_singleton.mp hb]
    exact able_addItem metric text
  · cases hb

theorem able_writeAhead (job : UploadJob) : Able (.writeAhead job) := by
  refine able_of fun s => ?_
  obtain ⟨name, hext, hfree⟩ := exists_freshName s.sidecars job.kind
  cases hs : s.storageAvailable
  · exact ⟨{}, s, [.enqueue job], by simp [perform, hs], able_enqueues [job]⟩
  · have hgo : (s.sidecars.inUse { kind := job.kind, name } || name.ext != lit ".json") = false := by
      simp [hfree, hext]
    have hp : perform s (.writeAhead job) { name } = some ((writeSidecar s job name).1,
        [.enqueue { job with sidecarPath := (writeSidecar s job name).2 }]) := by
      simp only [perform, hs, if_true, hgo, Bool.false_eq_true, if_false]
    exact ⟨{ name }, _, _, hp, able_enqueues [_]⟩

theorem able_persistLeftover (job : UploadJob) : Able (.persistLeftover job) := by
  refine able_of fun s => ?_
  obtain ⟨name, hext, hfree⟩ := exists_freshName s.sidecars job.kind
  have hgo : (s.sidecars.inUse { kind := job.kind, name } || name.ext != lit ".json") = false := by
    simp [hfree, hext]
  have hp : perform s (.persistLeftover job) { name } = some ((writeSidecar s job name).1, []) := by
    simp only [perform, hgo, Bool.false_eq_true, if_false]
  exact ⟨{ name }, _, _, hp, by simp⟩

theorem able_maybeFlushBatch (metric : Bool) (now : Nat) (force : Bool) :
    Able (.maybeFlushBatch metric now force) := by
  refine able_of fun s => ⟨{}, (maybeFlushBatch s metric [] now force).1,
    (maybeFlushBatch s metric [] now force).2, rfl, fun b hb => ?_⟩
  obtain ⟨job, rfl⟩ : ∃ job, b = .enqueue job := by
    unfold maybeFlushBatch at hb
    split at hb
    · cases hb
    · obtain ⟨e, -, rfl⟩ := List.mem_map.mp hb
      exact ⟨_, rfl⟩
  exact able_enqueue job

theorem able_drainBatches (s : State) (force : Bool) : ∀ b ∈ drainBatches s force, Able b := by
  intro b hb
  obtain ⟨metric, rfl⟩ := mem_drainBatches hb
  exact able_maybeFlushBatch metric _ force

theorem able_startSessionTracking : Able .startSessionTracking := by
  refine able_of fun s => ?_
  have hgo : (startSessionTracking s { body := [0] }).isSome := by
    unfold startSessionTracking
    split
    · rfl
    · dsimp only
      split
      · rfl
      · split <;> rfl
  obtain ⟨⟨u, new⟩, hr⟩ := Option.isSome_iff_exists.mp hgo
  refine ⟨{ body := [0] }, u, new, hr, fun b hb => ?_⟩
  rcases startSessionTracking_cases hr with ⟨_, _, -, rfl⟩ | ⟨-, -, rfl⟩
  · cases hb
  · rw [List.mem_singleton.mp hb]
    exact able_writeAhead _

theorem able_workerFlush (mark : FlushMark) : Able (.workerFlush mark) := by
  refine able_of fun s => ⟨{ expired := true }, s, [], ?_, by simp⟩
  simp [perform]

theorem able_report {kind : SidecarKind} {body : Bytes} {log : Bool} (s : State) :
    ∀ b ∈ [Act.flushAllBatches, .writeAhead (reportJob s kind body log false)], Able b := by
  intro b hb
  simp only [List.mem_cons, List.not_mem_nil, or_false] at hb
  rcases hb with rfl | rfl
  · exact able_of fun s => ⟨{}, _, _, rfl, able_drainBatches s true⟩
  · exact able_writeAhead _

/-- **The host's actions wait for nothing**, the two joins and what leads to them apart. -/
theorem able_of_on {t : Nat} (ht : t ≠ 1 ∧ t ≠ 2) (hon : a.On t) (hbeat : a ≠ .joinHeartbeat)
    (hwork : a ≠ .joinWorker) (hstop : a ≠ .stopWorker) : Able a := by
  cases a
  case track metric text => exact able_track metric text
  case addItem metric text => exact able_addItem metric text
  case writeAhead job => exact able_writeAhead job
  case enqueue job => exact able_enqueue job
  case maybeFlushBatch metric now force => exact able_maybeFlushBatch metric now force
  case workerFlush mark => exact able_workerFlush mark
  case persistLeftover job => exact able_persistLeftover job
  case startSessionTracking => exact able_startSessionTracking
  case reportCrash body wantLog =>
    refine able_of fun s => ?_
    cases hs : s.captureAllowed
    · exact ⟨{}, s, [], by simp [perform, hs], by simp⟩
    · have hp : perform s (.reportCrash body wantLog) {} =
          some ({ s with nextReport := s.nextReport + 1 },
            [.flushAllBatches, .writeAhead (reportJob s .crash body.val wantLog false)]) := by
        simp only [perform, hs, if_true]
      exact ⟨{}, _, _, hp, able_report s⟩
  case reportBug body wantLog =>
    refine able_of fun s => ?_
    cases hs : s.captureAllowed
    · exact ⟨{}, s, [], by simp [perform, hs], by simp⟩
    · have hp : perform s (.reportBug body wantLog) {} =
          some ({ s with nextReport := s.nextReport + 1 },
            [.writeAhead (reportJob s .bugReport body.val wantLog false)]) := by
        simp only [perform, hs, if_true]
      exact ⟨{}, _, _, hp, fun b hb => able_report s b (List.mem_cons_of_mem _ hb)⟩
  case requestPlayerLogs body => exact able_of fun s => ⟨{}, _, _, rfl, able_enqueues [_]⟩
  case setConsent granted =>
    refine able_of fun s => ⟨{}, _, _, rfl, fun b hb => ?_⟩
    split at hb
    · rw [List.mem_singleton.mp hb]
      exact able_startSessionTracking
    · cases hb
  case trackIfConsented =>
    refine able_of fun s => ⟨{}, _, _, rfl, fun b hb => ?_⟩
    split at hb
    · rw [List.mem_singleton.mp hb]
      exact able_startSessionTracking
    · cases hb
  case flushAllBatches => exact able_of fun s => ⟨{}, _, _, rfl, able_drainBatches s true⟩
  case flush =>
    refine able_of fun s => ⟨{}, _, _, rfl, fun b hb => ?_⟩
    simp only [List.mem_cons, List.not_mem_nil, or_false] at hb
    rcases hb with rfl | rfl
    · exact able_of fun s => ⟨{}, _, _, rfl, able_drainBatches s true⟩
    · exact able_workerFlush _
  case startSession | startHeartbeat | publish | stopHeartbeat =>
    exact able_of fun s => ⟨{}, _, _, rfl, by simp⟩
  case stopWorker => exact absurd rfl hstop
  case joinHeartbeat => exact absurd rfl hbeat
  case joinWorker => exact absurd rfl hwork
  all_goals exact absurd hon (by simp [Act.On, ht])

/-! ## The loops come to their end -/

/-- The worker's thread gets out of its loop from here. -/
def Exits (s : State) (p : List Act) : Prop := ∃ s', Clears s p s' ∧ s'.workerThread = false

theorem Exits.append {p q : List Act} {u : State} (h : Clears s p u) (hq : Exits u q) :
    Exits s (p ++ q) := by
  obtain ⟨s', hs', hdone⟩ := hq
  exact ⟨s', h.append hs', hdone⟩

theorem Exits.one {u : State} (h : perform s a i = some (u, new)) (hn : Exits u new) : Exits s [a] := by
  obtain ⟨s', hs', hdone⟩ := hn
  exact ⟨s', .one h hs', hdone⟩

/-- The wait ends, and with it the loop. -/
theorem exits_waiting (hrun : s.worker.running = false) (deadline : Nat) :
    Exits s [.waiting deadline] := by
  have hp : perform s (.waiting deadline) {} = some ({ s with workerThread := false }, []) := by
    simp [perform, Worker.wakes, wakeUp, hrun]
  exact .one hp ⟨_, .done _, rfl⟩

theorem exits_waitWake (hrun : s.worker.running = false) : Exits s [.waitWake] :=
  .one (i := {}) rfl (exits_waiting hrun _)

theorem exits_loopTop (hrun : s.worker.running = false) : Exits s [.loopTop] := by
  refine .one (i := {}) rfl ?_
  have hable : Able .drainReadyBatches :=
    able_of fun s => ⟨{}, _, _, rfl, able_drainBatches s false⟩
  obtain ⟨u, hu⟩ := hable s
  exact .append hu (exits_waitWake (hu.stopped hrun))

theorem exits_clearInFlight (hrun : s.worker.running = false) : Exits s [.clearInFlight] :=
  .one (i := {}) rfl (exits_loopTop hrun)

/-- A rejected request leaves nothing to do. -/
def rejected : Input := { response := { transportError := false, status := 400 } }

theorem exits_await (hrun : s.worker.running = false) (job : UploadJob) : Exits s [.await job] := by
  have hnone : (process s job rejected).2 = [] ∧
      (process s job rejected).1.worker.running = s.worker.running := by
    have ho : rejected.response.outcome = .poison := by decide
    unfold process handlePostResult
    simp only [ho]
    split <;> simp
  have hwaits : perform s (.await job) rejected =
      some ((process s job rejected).1, (process s job rejected).2 ++ [.clearInFlight]) := rfl
  refine .one hwaits ?_
  rw [hnone.1, List.nil_append]
  exact exits_clearInFlight (hnone.2.trans hrun)

theorem exits_post (hrun : s.worker.running = false) (job : UploadJob) : Exits s [.post job] :=
  .one (i := {}) rfl (exits_await hrun job)

theorem able_followUp {b : Act} (h : b.FollowsUp) : Able b := by
  cases b
  case enqueue job => exact able_enqueue job
  case track metric text => exact able_track metric text
  case addItem metric text => exact able_addItem metric text
  case persistLeftover job => exact able_persistLeftover job
  case ackRequests body => exact able_of fun s => ⟨{}, _, _, rfl, able_enqueues _⟩
  case rttSample =>
    refine able_of fun s => ⟨{}, _, _, rfl, fun b hb => ?_⟩
    rw [List.mem_singleton.mp hb]
    exact able_track true _
  all_goals exact h.elim

theorem able_drains {b : Act} (h : b.Drains) : Able b := by
  cases b
  case drainReadyBatches => exact able_of fun s => ⟨{}, _, _, rfl, able_drainBatches s false⟩
  case maybeFlushBatch metric now force => exact able_maybeFlushBatch metric now force
  case enqueue job => exact able_enqueue job
  all_goals exact h.elim

/-- **From every place of its loop the stopped worker gets out.** -/
theorem WorkerAt.exits {flight : Bool} {p : List Act} (h : WorkerAt flight p)
    (hrun : s.worker.running = false) (hp : p ≠ []) : Exits s p := by
  cases h with
  | top => exact exits_loopTop hrun
  | draining acts drains =>
    obtain ⟨u, hu⟩ := clears_ables (fun b hb => able_drains (drains b hb)) s
    exact .append hu (exits_waitWake (hu.stopped hrun))
  | waiting deadline => exact exits_waiting hrun deadline
  | taking =>
    cases hq : takeReadyJob s with
    | mk u new =>
      refine .one (i := {}) (congrArg some hq) ?_
      rcases takeReadyJob_cases hq with ⟨rfl, rfl⟩ | ⟨job, before, after, -, rfl, rfl⟩
      · exact exits_loopTop hrun
      · apply exits_post
        exact hrun
  | stopped => exact absurd rfl hp
  | posting job => exact exits_post hrun job
  | awaiting job => exact exits_await hrun job
  | handled acts follow =>
    obtain ⟨u, hu⟩ := clears_ables (fun b hb => able_followUp (follow b hb)) s
    exact .append hu (exits_clearInFlight (hu.stopped hrun))

/-- **The heartbeat loop ends** where it has been told to stop. -/
theorem heartbeat_ends {p : List Act} (hon : ∀ b ∈ p, b.On 1) (hmem : .heartbeat ∈ p)
    (hstop : s.heartbeatStop = true) :
    ∃ pre rest s', p = pre ++ rest ∧ Clears s pre s' ∧ s'.heartbeatThread = false := by
  induction p generalizing s with
  | nil => cases hmem
  | cons b p ih =>
    by_cases hb : b = .heartbeat
    · subst hb
      cases hrun : s.heartbeatThread
      · exact ⟨[], _, s, rfl, .done s, hrun⟩
      · have hp : perform s .heartbeat {} = some ({ s with heartbeatThread := false }, []) := by
          simp [perform, hrun, hstop]
        exact ⟨[.heartbeat], p, _, rfl, .one hp (.done _), rfl⟩
    · have hable : Able b := by
        have hb1 := hon b List.mem_cons_self
        cases b
        case enqueue job => exact able_enqueue job
        case heartbeat => exact absurd rfl hb
        all_goals simp [Act.On] at hb1
        -- a forced drain is the host's, an unforced one the worker's
        rename_i force
        cases force <;> simp at hb1
      obtain ⟨u, hu⟩ := hable s
      have hrest : .heartbeat ∈ p := by
        rcases List.mem_cons.mp hmem with heq | hin
        · exact absurd heq.symm hb
        · exact hin
      obtain ⟨pre, rest, s', rfl, hpre, hdone⟩ :=
        ih (fun c hc => hon c (List.mem_cons_of_mem b hc)) hrest (hu.told hstop)
      exact ⟨b :: pre, rest, s', rfl, hu.append hpre, hdone⟩

/-! ## No call hangs -/

/-- What the results below rest on. -/
structure Orderly (c : Config) : Prop where
  accounted : Accounted c
  staffed : Staffed c
  stopsFirst : Interleave.Inv (fun _ => True) StopsFirst c

theorem orderly_step {c c' : Config} {l : Label} (hc : Orderly c) (h : step c l = some c') :
    Orderly c' :=
  ⟨accounted_step hc.accounted h, staffed_step hc.staffed h, stopsFirst_step hc.stopsFirst h⟩

theorem Fresh.orderly {c : Config} (h : Fresh c) : Orderly c := by
  refine ⟨h.accounted, ⟨?_, ?_⟩, ⟨trivial, fun t p hp => ?_⟩⟩
  · have hnone : c.shared.heartbeatThread = false := by rw [h.memory]
    simp [Interleave.total, h.threads, hnone, flag]
  · rw [h.memory]
    exact Nat.zero_le _
  · rw [h.threads, List.getElem?_nil] at hp
    cases hp

theorem Orderly.goes {c c' : Config} (hc : Orderly c) (h : Goes c c') : Orderly c' := by
  obtain ⟨ls, -, hls⟩ := h
  exact Run.run_inv (fun _ _ _ hs => orderly_step hs) hc hls

variable {c : Config}

/-- A loop that must be somewhere is on its own thread. -/
theorem exists_thread {w : Act → Nat} {m : Nat} (hpos : 1 ≤ Interleave.total (fun _ : State => 0) w c)
    (hon : ∀ t p, c.threads[t]? = some p → ∀ b ∈ p, w b ≠ 0 → t = m) :
    ∃ p b, c.threads[m]? = some p ∧ b ∈ p ∧ w b ≠ 0 := by
  by_contra hnone
  push Not at hnone
  have hzero : Interleave.total (fun _ : State => 0) w c = 0 := by
    rw [Interleave.total, Nat.zero_add]
    apply Interleave.sum_map_eq_zero
    intro p hp
    obtain ⟨t, ht⟩ := List.mem_iff_getElem?.mp hp
    apply Interleave.sum_map_eq_zero
    intro b hb
    by_contra hb0
    obtain rfl := hon t p ht b hb hb0
    exact hb0 (hnone p b ht hb)
  omega

/-- The heartbeat's thread can be brought to its end while the others stand still. -/
theorem heartbeat_joins (hc : Orderly c) {t : Nat} (ht : t ≠ 1 ∧ t ≠ 2) {p : List Act}
    (hp : c.threads[t]? = some p) (hstop : c.shared.heartbeatStop = true) :
    ∃ c', Goes c c' ∧ c'.threads[t]? = some p ∧ c'.shared.heartbeatThread = false := by
  cases hrun : c.shared.heartbeatThread
  · exact ⟨c, .refl c, hp, hrun⟩
  · have hbeats := hc.staffed.beats
    have hpos : 1 ≤ Interleave.total (fun _ : State => 0) Act.beats c := by
      simp only [Interleave.total, hrun, flag, if_true] at hbeats ⊢
      omega
    have hon := fun u q hu => (hc.accounted.programs.threads u q hu).on
    obtain ⟨q, b, hq, hb, hb0⟩ := exists_thread (m := 1) hpos (by
      intro u q hu b hb hb0
      have hb1 := hon u q hu b hb
      cases b <;> first | exact hb1 | exact absurd rfl hb0)
    have hbeat : .heartbeat ∈ q := by
      cases b <;> first | exact hb | exact absurd rfl hb0
    obtain ⟨pre, rest, s', rfl, hclear, hdone⟩ := heartbeat_ends (hon 1 q hq) hbeat hstop
    refine ⟨_, hclear.goes rfl hq, ?_, hdone⟩
    rw [List.getElem?_set_ne (Ne.symm ht.1)]
    exact hp

/-- The worker's thread too. -/
theorem worker_joins (hc : Orderly c) {t : Nat} (ht : t ≠ 1 ∧ t ≠ 2) {p : List Act}
    (hp : c.threads[t]? = some p) (hstop : c.shared.worker.running = false) :
    ∃ c', Goes c c' ∧ c'.threads[t]? = some p ∧ c'.shared.workerThread = false := by
  cases hrun : c.shared.workerThread
  · exact ⟨c, .refl c, hp, hrun⟩
  · have hloops := hc.staffed.loops
    rw [hrun] at hloops
    obtain ⟨q, b, hq, hb, -⟩ := exists_thread (m := 2) hloops (by
      intro u q hu b hb hb0
      have hb2 := (hc.accounted.programs.threads u q hu).on b hb
      cases b <;> first | exact hb2 | exact absurd rfl hb0)
    have hat := (hc.accounted.programs.threads 2 q hq).worker rfl
    obtain ⟨s', hclear, hdone⟩ := hat.exits hstop (List.ne_nil_of_mem hb)
    rw [← List.append_nil q] at hq
    refine ⟨_, hclear.goes rfl hq, ?_, hdone⟩
    rw [List.getElem?_set_ne (Ne.symm ht.2)]
    exact hp

/-- The worker is joined, and what it left is persisted. -/
theorem passes_joinWorker (hc : Orderly c) {t : Nat} (ht : t ≠ 1 ∧ t ≠ 2) {p : List Act}
    (hp : c.threads[t]? = some (.joinWorker :: p)) :
    ∃ c', Goes c c' ∧ c'.threads[t]? = some p := by
  have hstop := (hc.accounted.programs.threads t _ hp).join List.mem_cons_self
  obtain ⟨u, hu, hup, hdone⟩ := worker_joins hc ht hp hstop
  have hperform : perform u.shared .joinWorker {} = some (persistLeftovers u.shared) := by
    simp [perform, hdone]
  have hable : ∀ b ∈ (persistLeftovers u.shared).2, Able b := by
    intro b hb
    obtain ⟨job, -, rfl⟩ := List.mem_map.mp hb
    exact able_persistLeftover job
  obtain ⟨s', hs'⟩ := clears_ables hable (persistLeftovers u.shared).1
  have hlt : t < u.threads.length := (List.getElem?_eq_some_iff.mp hup).1
  exact ⟨_, hu.trans ((Clears.one hperform hs').goes rfl hup), List.getElem?_set_self hlt⟩

/-- **Every action of a host's thread can be got through**, with the help of the threads it waits
for. -/
theorem passes (hc : Orderly c) {t : Nat} (ht : t ≠ 1 ∧ t ≠ 2) {p : List Act}
    (hp : c.threads[t]? = some (a :: p)) : ∃ c', Goes c c' ∧ c'.threads[t]? = some p := by
  have hlt : t < c.threads.length := (List.getElem?_eq_some_iff.mp hp).1
  by_cases hbeat : a = .joinHeartbeat
  · subst hbeat
    have hstop : c.shared.heartbeatStop = true := by
      rcases hc.stopsFirst.threads t _ hp List.mem_cons_self with hstop | hhead
      · exact hstop
      · cases hhead
    obtain ⟨u, hu, hup, hdone⟩ := heartbeat_joins hc ht hp hstop
    have hperform : perform u.shared .joinHeartbeat {} = some (u.shared, []) := by
      simp [perform, hdone]
    have hlt' : t < u.threads.length := (List.getElem?_eq_some_iff.mp hup).1
    exact ⟨_, hu.trans (.act hup hperform), List.getElem?_set_self hlt'⟩
  by_cases hjoin : a = .joinWorker
  · subst hjoin
    exact passes_joinWorker hc ht hp
  by_cases hstop : a = .stopWorker
  · subst hstop
    cases hrun : c.shared.worker.running
    · have hperform : perform c.shared .stopWorker {} = some (c.shared, []) := by
        simp [perform, hrun]
      exact ⟨_, .act hp hperform, List.getElem?_set_self hlt⟩
    · have hperform : perform c.shared .stopWorker {} =
          some ({ c.shared with worker := { c.shared.worker with running := false } },
            [.joinWorker]) := by
        simp [perform, hrun]
      have hone := Goes.act hp hperform
      obtain ⟨u, hu, hup⟩ := passes_joinWorker (hc.goes hone) ht (List.getElem?_set_self hlt)
      exact ⟨u, hone.trans hu, hup⟩
  have hon := (hc.accounted.programs.threads t _ hp).on a List.mem_cons_self
  obtain ⟨s', hs'⟩ := able_of_on ht hon hbeat hjoin hstop c.shared
  exact ⟨_, hs'.goes rfl hp, List.getElem?_set_self hlt⟩

theorem finishes {t : Nat} (ht : t ≠ 1 ∧ t ≠ 2) (p : List Act) : ∀ {c : Config}, Orderly c →
    c.threads[t]? = some p → ∃ c', Goes c c' ∧ c'.threads[t]? = some [] := by
  induction p with
  | nil => exact fun {c} _ hp => ⟨c, .refl c, hp⟩
  | cons a p ih =>
    intro c hc hp
    obtain ⟨u, hu, hup⟩ := passes hc ht hp
    obtain ⟨c', hc', hdone⟩ := ih (hc.goes hu) hup
    exact ⟨c', hu.trans hc', hdone⟩

/-- **No call of the host hangs, and neither does the destructor.** In every reachable state, over
launches and interleavings, whatever thread of the host is within a call or in `~Client`, and however
far it has come, steps of the threads alone can bring it to its end: no wait of the client waits for
a thread that can no longer move. -/
theorem calls_finish {c : Config} (h : Reachable c) {t : Nat} (ht : t ≠ 1 ∧ t ≠ 2)
    (hhost : t < c.threads.length) :
    ∃ ls c', (∀ l ∈ ls, Label.execs l) ∧ Run.run step c ls = some c' ∧
      c'.threads[t]? = some [] := by
  have hc : Orderly c := Run.reachable_inv (fun _ hc => hc.orderly) (fun _ _ _ => orderly_step) h
  obtain ⟨c', ⟨ls, hls, hrun⟩, hdone⟩ := finishes ht _ hc (List.getElem?_eq_getElem hhost)
  exact ⟨ls, c', hls, hrun, hdone⟩

/-- The destructor stands before the join of a worker that is still in its loop. -/
theorem calls_finish_inFlush : ∃ c, Run.run step oneCrash stoppedInFlush = some c ∧
    ∃ ls c', (∀ l ∈ ls, Label.execs l) ∧ Run.run step c ls = some c' ∧
      c'.threads[3]? = some [] := by
  have hrun : (Run.run step oneCrash stoppedInFlush).any fun c => decide (3 < c.threads.length) := by
    decide
  obtain ⟨c, hc, hlt⟩ := Option.any_eq_true _ _ |>.mp hrun
  exact ⟨c, hc, calls_finish ⟨oneCrash, _, fresh_oneCrash, hc⟩ (by decide) (of_decide_eq_true hlt)⟩

end Tombstone.Runtime
