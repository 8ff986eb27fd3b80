import Tombstone.WorkerStop

/- What the actions do to the client's own threads, and where their loops stand
   (`client.cpp`: `heartbeat_loop`, `stop_heartbeat`, `~Client`; `worker.cpp`: `run`).

   What is proved:

   1. what an action does to the flags of the two threads (`Threads`, `perform_threads`);
   2. a thread that runs has its loop in its program (`Staffed`, `staffed_step`);
   3. the destructor joins the heartbeat's thread only after telling it to stop
      (`StopsFirst`, `stopsFirst_step`). -/
namespace Tombstone.Runtime

variable {s s' : State} {a : Act} {i : Input} {new : List Act}

/-! ## What keeps the loops on their threads -/

/-- What an action does to the threads of the client. -/
inductive Threads (s : State) (a : Act) (s' : State) (new : List Act) : Prop where
  | same (beats : s'.heartbeatThread = s.heartbeatThread) (stop : s'.heartbeatStop = s.heartbeatStop)
      (works : s'.workerThread = s.workerThread)
  | start (enabled : Bool) (act : a = .startHeartbeat enabled)
      (after : s' = { s with heartbeatThread := enabled })
  | stop (act : a = .stopHeartbeat) (after : s' = { s with heartbeatStop := true })
  | ended (act : a = .heartbeat) (running : s.heartbeatThread = true)
      (after : s' = { s with heartbeatThread := false }) (none : new = [])
  | exit (deadline : Nat) (act : a = .waiting deadline)
      (after : s' = { s with workerThread := false }) (none : new = [])

theorem takeReadyJob_threads {u : State} (h : takeReadyJob u = (s', new))
    (beats : u.heartbeatThread = s.heartbeatThread) (stop : u.heartbeatStop = s.heartbeatStop)
    (works : u.workerThread = s.workerThread) : Threads s a s' new := by
  rcases takeReadyJob_cases h with ⟨rfl, -⟩ | ⟨_, _, _, -, rfl, -⟩
  all_goals exact .same beats stop works

theorem Processed.threads {job : UploadJob} {response : HttpResponse} {acts : List Act}
    (h : Processed s job response s' acts) : Threads s a s' new := by
  cases h <;> exact .same rfl rfl rfl

theorem maybeFlushBatch_threads {metric force : Bool} {now : Nat}
    (h : perform s (.maybeFlushBatch metric now force) i = some (s', new)) : Threads s a s' new := by
  rcases maybeFlushBatch_cases h with ⟨-, rfl, -⟩ | ⟨_, _, -, rfl, -⟩
  · exact .same rfl rfl rfl
  · cases metric <;> exact .same rfl rfl rfl

/-- **What an action does to the threads.** -/
theorem perform_threads (h : perform s a i = some (s', new)) : Threads s a s' new := by
  cases a
  case startHeartbeat enabled =>
    obtain ⟨rfl, rfl⟩ := Prod.mk.inj (Option.some.inj h)
    exact .start enabled rfl rfl
  case stopHeartbeat =>
    obtain ⟨rfl, rfl⟩ := Prod.mk.inj (Option.some.inj h)
    exact .stop rfl rfl
  case heartbeat =>
    obtain ⟨hrun, ⟨rfl, rfl⟩ | ⟨rfl, rfl⟩ | ⟨-, -, rfl, rfl⟩⟩ := heartbeat_cases h
    · exact .ended rfl hrun rfl rfl
    · exact .same rfl rfl rfl
    · exact .same rfl rfl rfl
  case waiting deadline =>
    rcases wakeUp_cases (waiting_cases h) with ⟨-, rfl, rfl⟩ | ⟨-, _, rfl, -⟩ | ⟨-, hw⟩
    · exact .exit deadline rfl rfl rfl
    · exact .same rfl rfl rfl
    · exact takeReadyJob_threads hw rfl rfl rfl
  case takeReadyJob => exact takeReadyJob_threads (Option.some.inj h) rfl rfl rfl
  case startSessionTracking =>
    rcases startSessionTracking_cases h with ⟨_, _, rfl, -⟩ | ⟨-, rfl, -⟩
    all_goals exact .same rfl rfl rfl
  case await =>
    obtain ⟨_, hdone, -⟩ := await_cases h
    exact hdone.threads
  case addItem metric text =>
    obtain ⟨rfl, rfl⟩ := Prod.mk.inj (Option.some.inj h)
    cases metric <;> exact .same rfl rfl rfl
  case maybeFlushBatch => exact maybeFlushBatch_threads h
  case writeAhead =>
    rcases writeAhead_cases h with ⟨rfl, -⟩ | ⟨-, rfl, -⟩
    all_goals exact .same rfl rfl rfl
  case persistLeftover =>
    obtain ⟨-, rfl | ⟨-, rfl⟩⟩ := persistLeftover_cases h
    all_goals exact .same rfl rfl rfl
  case reportCrash =>
    rcases reportCrash_cases h with ⟨rfl, -⟩ | ⟨-, rfl, -⟩
    all_goals exact .same rfl rfl rfl
  case reportBug =>
    rcases reportBug_cases h with ⟨rfl, -⟩ | ⟨-, rfl, -⟩
    all_goals exact .same rfl rfl rfl
  case stopWorker =>
    rcases stopWorker_cases h with ⟨-, rfl, -⟩ | ⟨-, rfl, -⟩
    all_goals exact .same rfl rfl rfl
  case workerFlush =>
    obtain ⟨-, rfl, -⟩ := workerFlush_cases h
    exact .same rfl rfl rfl
  case joinHeartbeat =>
    obtain ⟨-, rfl, -⟩ := joinHeartbeat_cases h
    exact .same rfl rfl rfl
  case joinWorker =>
    obtain ⟨-, rfl, -⟩ := joinWorker_cases h
    exact .same rfl rfl rfl
  all_goals
    obtain ⟨rfl, rfl⟩ := Prod.mk.inj (Option.some.inj h)
    exact .same rfl rfl rfl

/-- The action starts the heartbeat loop. -/
def Act.starts : Act → Nat
  | .startHeartbeat _ => 1
  | _ => 0

/-- The action is where the heartbeat loop stands. -/
def Act.beats : Act → Nat
  | .heartbeat => 1
  | _ => 0

/-- The action is where the worker's loop stands. -/
def Act.loops : Act → Nat
  | .loopTop | .waitWake | .waiting _ | .takeReadyJob | .post _ | .await _ | .clearInFlight => 1
  | _ => 0

def flag (b : Bool) : Nat := if b then 1 else 0

/-- A thread that runs has its loop in its program, one that is still to be started too. -/
structure Staffed (c : Config) : Prop where
  beats : Interleave.total (fun s : State => flag s.heartbeatThread) Act.starts c ≤
    Interleave.total (fun _ : State => 0) Act.beats c
  loops : flag c.shared.workerThread ≤ Interleave.total (fun _ : State => 0) Act.loops c

theorem starts_new (h : perform s a i = some (s', new)) : (new.map Act.starts).sum = 0 := by
  apply Interleave.sum_map_eq_zero
  intro b hb
  cases perform_leads h b hb with
  | followUp follow => cases b <;> first | rfl | exact follow.elim
  | _ => rfl

/-- The heartbeat loop stays where it stands, until it ends. -/
theorem beats_new (h : perform s a i = some (s', new)) :
    flag s'.heartbeatThread + a.beats ≤
      flag s.heartbeatThread + a.starts + (new.map Act.beats).sum := by
  cases perform_threads h with
  | same beats stop works =>
    rw [beats]
    cases a
    case heartbeat =>
      obtain ⟨hrun, ⟨rfl, -⟩ | ⟨-, rfl⟩ | ⟨-, -, -, rfl⟩⟩ := heartbeat_cases h
      · rw [hrun] at beats
        cases beats
      · simp [Act.beats]
      · simp [Act.beats]
    all_goals simp [Act.beats]
    all_goals omega
  | start enabled act after =>
    subst act after
    cases enabled <;> simp [flag, Act.beats, Act.starts]
    omega
  | stop act after =>
    subst act after
    simp [Act.beats]
    omega
  | ended act running after none =>
    subst act after none
    simp [flag, Act.beats, running]
  | exit deadline act after none =>
    subst act after none
    simp [Act.beats, Act.starts]

/-- The worker's loop stays where it stands, until it is left. -/
theorem loops_new (h : perform s a i = some (s', new)) :
    s'.workerThread = false ∨
      s'.workerThread = s.workerThread ∧ a.loops ≤ (new.map Act.loops).sum := by
  cases a
  case waiting deadline =>
    rcases wakeUp_cases (waiting_cases h) with ⟨-, rfl, rfl⟩ | ⟨-, _, rfl, rfl⟩ | ⟨-, hw⟩
    · exact .inl rfl
    · exact .inr ⟨rfl, Nat.le_refl 1⟩
    · rcases takeReadyJob_cases hw with ⟨rfl, rfl⟩ | ⟨_, _, _, -, rfl, rfl⟩
      all_goals exact .inr ⟨rfl, Nat.le_refl 1⟩
  case takeReadyJob =>
    rcases takeReadyJob_cases (Option.some.inj h) with ⟨rfl, rfl⟩ | ⟨_, _, _, -, rfl, rfl⟩
    all_goals exact .inr ⟨rfl, Nat.le_refl 1⟩
  case loopTop | waitWake | post | clearInFlight =>
    obtain ⟨rfl, rfl⟩ := Prod.mk.inj (Option.some.inj h)
    exact .inr ⟨rfl, by simp [Act.loops]⟩
  case await job =>
    have hsame : s'.workerThread = s.workerThread := by
      cases perform_threads h with
      | same beats stop works => exact works
      | start _ act | stop act | ended act | exit _ act => cases act
    obtain ⟨-, rfl⟩ := Prod.mk.inj (Option.some.inj h)
    exact .inr ⟨hsame, by simp [Act.loops]⟩
  all_goals
    refine .inr ⟨?_, Nat.zero_le _⟩
    cases perform_threads h with
    | same beats stop works => exact works
    | start enabled act after | stop act after | ended act running after none => rw [after]
    | exit deadline act => cases act

theorem staffed_step {c c' : Config} {l : Label} (hc : Staffed c) (h : step c l = some c') :
    Staffed c' := by
  obtain ⟨hbeats, hloops⟩ := hc
  rcases Interleave.step_cases h with ⟨t, i, a, rest, s', new, rfl, ht, hp, rfl⟩ |
    ⟨t, k, s', new, rfl, ht, hk, rfl⟩ | ⟨e, rfl, he⟩
  · constructor
    · obtain ⟨f₁, h₁, h₁'⟩ := Interleave.total_exec (fun s : State => flag s.heartbeatThread) Act.starts ht
      obtain ⟨f₂, h₂, h₂'⟩ := Interleave.total_exec (fun _ : State => 0) Act.beats ht
      have hstarts := starts_new hp
      have hnew := beats_new hp
      rw [h₁, h₂] at hbeats
      rw [h₁', h₂']
      omega
    · obtain ⟨f, hf, hf'⟩ := Interleave.total_exec (fun _ : State => 0) Act.loops ht
      rw [hf] at hloops
      rw [hf']
      dsimp only
      rcases loops_new hp with hleft | ⟨hsame, hnew⟩
      · simp [hleft, flag]
      · rw [hsame]
        omega
  · simp only [machine, call] at hk
    split at hk
    · obtain ⟨rfl, rfl⟩ := Prod.mk.inj (Option.some.inj hk)
      have hnone : k.act.starts = 0 ∧ k.act.beats = 0 ∧ k.act.loops = 0 := by
        cases k <;> exact ⟨rfl, rfl, rfl⟩
      constructor
      · obtain ⟨f₁, h₁, h₁'⟩ := Interleave.total_call (fun s : State => flag s.heartbeatThread) Act.starts ht
        obtain ⟨f₂, h₂, h₂'⟩ := Interleave.total_call (fun _ : State => 0) Act.beats ht
        rw [h₁, h₂] at hbeats
        rw [h₁', h₂']
        simp only [List.map_cons, List.map_nil, List.sum_cons, List.sum_nil, hnone]
        omega
      · obtain ⟨f, hf, hf'⟩ := Interleave.total_call (fun _ : State => 0) Act.loops ht
        rw [hf] at hloops
        rw [hf']
        simp only [List.map_cons, List.map_nil, List.sum_cons, List.sum_nil, hnone]
        omega
    · cases hk
  · obtain ⟨s', ps'⟩ := c'
    rcases env_cases he with ⟨elapsed, rfl, rfl, rfl⟩ | ⟨o, rfl, -, rfl, rfl⟩ | ⟨rfl, rfl, rfl⟩ |
      ⟨t, rfl, -, -, -, -, -, ht, rfl, rfl⟩
    · exact ⟨hbeats, hloops⟩
    · -- `init` starts the heartbeat once, and its loop is there
      have hinit : ((initProgram (launched c.shared o) o).map Act.starts).sum = 1 := by
        have hdrain : ((drainSidecars (launched c.shared o)).map Act.starts).sum = 0 := by
          apply Interleave.sum_map_eq_zero
          intro b hb
          obtain ⟨r, -, rfl⟩ := List.mem_map.mp hb
          rfl
        have hconsent : ((o.replayConsent.toList.map Act.setConsent).map Act.starts).sum = 0 := by
          cases o.replayConsent <;> rfl
        have htracks : ((o.replayTracks.map fun t => Act.track t.1 t.2).map Act.starts).sum = 0 := by
          apply Interleave.sum_map_eq_zero
          intro b hb
          obtain ⟨t, -, rfl⟩ := List.mem_map.mp hb
          rfl
        have hsession : ((if o.replayStart then [Act.startSession] else []).map Act.starts).sum = 0 := by
          cases o.replayStart <;> rfl
        simp only [initProgram, initCalls, List.map_append, List.sum_append, hdrain, hconsent, htracks,
          hsession]
        rfl
      have hidle : ∀ w : Act → Nat, ((List.replicate o.hostThreads ([] : List Act)).map
          fun p => (p.map w).sum).sum = 0 := by
        intro w
        simp
      constructor
      · simp only [Interleave.total, List.map_cons, List.sum_cons, hinit, hidle]
        simp [launched, flag, Act.starts, Act.beats]
      · simp only [Interleave.total, List.map_cons, List.sum_cons, hidle]
        simp [launched, flag, Act.loops]
    · exact ⟨hbeats, hloops⟩
    · constructor
      · obtain ⟨f₁, h₁, h₁'⟩ := Interleave.total_call (fun s : State => flag s.heartbeatThread) Act.starts ht
        obtain ⟨f₂, h₂, h₂'⟩ := Interleave.total_call (fun _ : State => 0) Act.beats ht
        rw [h₁, h₂] at hbeats
        rw [h₁', h₂']
        exact hbeats
      · obtain ⟨f, hf, hf'⟩ := Interleave.total_call (fun _ : State => 0) Act.loops ht
        rw [hf] at hloops
        rw [hf']
        exact hloops

/-- The destructor waits for the heartbeat only after it has told it to stop. -/
def StopsFirst (s : State) (_ : Nat) (p : List Act) : Prop :=
  .joinHeartbeat ∈ p → s.heartbeatStop = true ∨ p.head? = some .stopHeartbeat

theorem Threads.stop_kept (h : Threads s a s' new) (hs : s.heartbeatStop = true) :
    s'.heartbeatStop = true := by
  cases h with
  | same beats stop works => rw [stop, hs]
  | stop act after => rw [after]
  | start _ act after | ended act _ after | exit _ act after =>
    rw [after]
    exact hs

theorem join_new (h : perform s a i = some (s', new)) : .joinHeartbeat ∉ new := by
  intro hb
  cases perform_leads h _ hb with
  | followUp follow => exact follow.elim

theorem stopsFirst_step {c c' : Config} {l : Label}
    (hc : Interleave.Inv (fun _ => True) StopsFirst c) (h : step c l = some c') :
    Interleave.Inv (fun _ => True) StopsFirst c' := by
  have hkeep : ∀ {s s' : State} {u : Nat} {q : List Act},
      (s.heartbeatStop = true → s'.heartbeatStop = true) → StopsFirst s u q → StopsFirst s' u q :=
    fun hstop hq hmem => (hq hmem).imp_left hstop
  refine Interleave.inv_step ?_ ?_ ?_ hc h
  · intro s t a rest i s' new _ hp hperform
    have hstop := (perform_threads hperform).stop_kept
    refine ⟨trivial, fun hmem => ?_, fun u q _ hq => hkeep hstop hq⟩
    rcases List.mem_append.mp hmem with hnew | hrest
    · exact absurd hnew (join_new hperform)
    · rcases hp (List.mem_cons_of_mem a hrest) with hset | hhead
      · exact .inl (hstop hset)
      · obtain rfl : a = .stopHeartbeat := Option.some.inj hhead
        obtain ⟨rfl, -⟩ := Prod.mk.inj (Option.some.inj hperform)
        exact .inl rfl
  · intro s t k s' new _ _ hk
    simp only [machine, call] at hk
    split at hk
    · obtain ⟨rfl, rfl⟩ := Prod.mk.inj (Option.some.inj hk)
      refine ⟨trivial, fun hmem => ?_, fun _ _ _ hq => hq⟩
      cases k <;> simp [Call.act] at hmem
    · cases hk
  · intro s ps e s' ps' _ hps he
    rcases env_cases he with ⟨elapsed, rfl, rfl, rfl⟩ | ⟨o, rfl, -, rfl, rfl⟩ | ⟨rfl, rfl, rfl⟩ |
      ⟨t, rfl, -, -, -, -, -, ht, rfl, rfl⟩
    · exact ⟨trivial, fun t p hp => hps t p hp⟩
    · refine ⟨trivial, fun t p hp hmem => ?_⟩
      have hcalm : .joinHeartbeat ∉ initProgram (launched s o) o := by
        intro hm
        rcases List.mem_append.mp hm with hm | hm
        · obtain ⟨r, -, hr⟩ := List.mem_map.mp hm
          cases hr
        · cases mem_initCalls hm
      have hall := List.mem_of_getElem? hp
      simp only [List.mem_cons, List.mem_replicate] at hall
      rcases hall with rfl | rfl | rfl | ⟨-, rfl⟩
      · exact absurd hmem hcalm
      all_goals simp at hmem
    · exact ⟨trivial, fun t p hp => hps t p hp⟩
    · refine ⟨trivial, Interleave.forall_get_set (P := fun u p => ps[u]? = some p)
        (Q := fun u p => StopsFirst { s with destroying := true } u p) (fun _ _ hp => hp) ?_ ?_⟩
      · exact fun u p _ hp => hps u p hp
      · exact fun _ => .inr rfl

end Tombstone.Runtime
