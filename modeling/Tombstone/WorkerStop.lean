import Tombstone.Flush
import Tombstone.UploadBudget

/- What the worker still sends once it has been told to stop (`worker.cpp`: `run`, `stop`).

   The loop looks at its flag when its wait ends, but not again after a paced log flush, for
   which it lets go of its lock. What is proved: from every reachable state in which the flag
   is down, at most one more request is sent in that launch (`stopped_sends_once`). -/
namespace Tombstone.Runtime

/-! ## After the stop -/

/-- The actions that take a job out of the queue, or hold one that is still to be sent. -/
def Act.takes : Act → Nat
  | .takeReadyJob | .post _ => 1
  | _ => 0

def takes (c : Config) : Nat := Interleave.total (fun _ : State => 0) Act.takes c

def Label.launches : Label → Prop
  | .env (.launch _) => True
  | _ => False

variable {s s' : State} {a : Act} {i : Input} {new : List Act}

/-- **A stopped worker takes no further job**: its wait ends the loop. -/
theorem perform_takes (hrun : s.worker.running = false) (h : perform s a i = some (s', new)) :
    (new.map Act.takes).sum + a.sent.length ≤ a.takes := by
  by_cases hpost : ∃ job, a = .post job
  · obtain ⟨job, rfl⟩ := hpost
    obtain ⟨rfl, rfl⟩ := Prod.mk.inj (Option.some.inj h)
    simp [Act.takes, Act.sent]
  by_cases htake : a = .takeReadyJob
  · subst htake
    rcases takeReadyJob_cases (Option.some.inj h) with ⟨rfl, rfl⟩ | ⟨job, before, after, -, rfl, rfl⟩
    all_goals simp [Act.takes, Act.sent]
  by_cases hwait : ∃ deadline, a = .waiting deadline
  · obtain ⟨deadline, rfl⟩ := hwait
    rcases wakeUp_cases (waiting_cases h) with ⟨-, rfl, rfl⟩ | ⟨hr, -⟩ | ⟨hr, -⟩
    · simp [Act.takes, Act.sent]
    · rw [hrun] at hr
      cases hr
    · rw [hrun] at hr
      cases hr
  -- no other action leads to one that takes
  have hnone : ∀ b ∈ new, b.takes = 0 := by
    intro b hb
    cases perform_leads h b hb with
    | woken => exact absurd ⟨_, rfl⟩ hwait
    | again taking => rfl
    | take taking =>
      rcases taking with rfl | ⟨deadline, rfl⟩
      · exact absurd rfl htake
      · exact absurd ⟨_, rfl⟩ hwait
    | followUp follow => cases b <;> first | rfl | exact follow.elim
    | _ => rfl
  have hsent : a.sent = [] := by
    cases a
    case post job => exact absurd ⟨_, rfl⟩ hpost
    all_goals rfl
  rw [Interleave.sum_map_eq_zero hnone, hsent]
  exact Nat.zero_le _

theorem takes_step {c c' : Config} {l : Label} (hl : ¬ l.launches)
    (hrun : c.shared.worker.running = false) (h : step c l = some c') :
    c'.shared.worker.running = false ∧ takes c' + (sent c l).length ≤ takes c := by
  rcases Interleave.step_cases h with ⟨t, i, a, rest, s', new, rfl, ht, hp, rfl⟩ |
    ⟨t, k, s', new, rfl, ht, hk, rfl⟩ | ⟨e, rfl, he⟩
  · refine ⟨?_, ?_⟩
    · rcases (perform_control hp).running with hsame | ⟨-, hoff⟩
      · rw [hsame]
        exact hrun
      · exact hoff
    · obtain ⟨frame, hc, hc'⟩ := Interleave.total_exec (fun _ : State => 0) Act.takes ht
      have hacting := Interleave.acting_exec (i := i) (κ := Call) (ε := Event) ht
      have hsent : sent c (.exec t i) = a.sent := by simp [sent, hacting]
      have hone := perform_takes hrun hp
      rw [takes, takes, hc, hc', hsent]
      omega
  · obtain ⟨frame, hc, hc'⟩ := Interleave.total_call (fun _ : State => 0) Act.takes ht
    simp only [machine, call] at hk
    split at hk
    · obtain ⟨rfl, rfl⟩ := Prod.mk.inj (Option.some.inj hk)
      refine ⟨hrun, ?_⟩
      have hnone : k.act.takes = 0 := by cases k <;> rfl
      rw [takes, takes, hc, hc']
      simp [hnone, sent, Interleave.acting]
    · cases hk
  · have hsent : sent c (.env e) = [] := rfl
    rw [hsent, List.length_nil, Nat.add_zero]
    obtain ⟨s', ps'⟩ := c'
    rcases env_cases he with ⟨elapsed, rfl, rfl, rfl⟩ | ⟨o, rfl, -, rfl, rfl⟩ | ⟨rfl, rfl, rfl⟩ |
      ⟨t, rfl, -, -, -, -, -, ht, rfl, rfl⟩
    · exact ⟨hrun, by simp [takes, Interleave.total]⟩
    · exact absurd trivial hl
    · exact ⟨hrun, by simp [takes, Interleave.total]⟩
    · obtain ⟨frame, hc, hc'⟩ := Interleave.total_call (fun _ : State => 0) Act.takes ht
      have hquit : (destructor.map Act.takes).sum = 0 := rfl
      refine ⟨hrun, ?_⟩
      rw [takes, takes, hc, hc', hquit]

/-- The worker's program takes one job at most. -/
theorem WorkerAt.takes_le {flight : Bool} {p : List Act} (h : WorkerAt flight p) :
    (p.map Act.takes).sum ≤ 1 := by
  cases h with
  | draining acts drains =>
    have hnone : (acts.map Act.takes).sum = 0 := by
      apply Interleave.sum_map_eq_zero
      intro b hb
      have hdrains := drains b hb
      cases b <;> first | rfl | exact hdrains.elim
    simp [hnone, Act.takes]
  | handled acts follow =>
    have hnone : (acts.map Act.takes).sum = 0 := by
      apply Interleave.sum_map_eq_zero
      intro b hb
      have hfollow := follow b hb
      cases b <;> first | rfl | exact hfollow.elim
    simp [hnone, Act.takes]
  | top | waiting | taking | stopped | posting | awaiting => simp [Act.takes]

theorem takes_le {c : Config} (h : Programs c) : takes c ≤ 1 := by
  rw [takes, Interleave.total, Nat.zero_add]
  apply Interleave.sum_map_le_of_only (m := 2)
  · intro t p hp ht
    apply Interleave.sum_map_eq_zero
    intro b hb
    have hon := (h.threads t p hp).on b hb
    cases b <;> first | rfl | exact absurd hon ht
  · exact fun p hp => ((h.threads 2 p hp).worker rfl).takes_le

theorem reachable_programs {c : Config} (h : Reachable c) : Programs c :=
  (Run.reachable_inv (fun _ hc => hc.accounted) (fun _ _ _ => accounted_step) h).programs

/-- **After the stop, one request at most.** From any reachable state in which the worker's flag is
down, whatever the threads still do in that launch, at most one request is sent. -/
theorem stopped_sends_once {c c' : Config} {ls : List Label} (h : Reachable c)
    (hrun : c.shared.worker.running = false) (hls : ∀ l ∈ ls, ¬ l.launches)
    (hr : Run.run step c ls = some c') : (Run.trace step sent c ls).length ≤ 1 := by
  have hstep : ∀ c l c', ¬ Label.launches l → c.shared.worker.running = false →
      step c l = some c' →
        c'.shared.worker.running = false ∧ takes c' + (sent c l).length ≤ takes c + 0 :=
    fun _ _ _ hl hoff hs => takes_step hl hoff hs
  have hall := Run.trace_amortised hstep hrun hls hr
  have hone := takes_le (reachable_programs h)
  have hzero : ∀ (ls : List Label) (c : Config),
      (Run.trace step (fun _ _ => [0]) c ls).sum = 0 := by
    intro ls
    induction ls with
    | nil => simp
    | cons l ls ih =>
      intro c
      rw [Run.trace]
      cases step c l with
      | none => rfl
      | some u => simpa using ih u
  rw [hzero] at hall
  omega

/-- A report is restored; the worker's wait ends with a log flush that is due, and the destructor
stops it there. -/
def stoppedInFlush : List Label :=
  .env (.launch { order := [crashFile] }) :: List.replicate 5 (.exec 0 {}) ++
    List.replicate 5 (.exec 2 {}) ++ [.env (.tick (seconds 5)), .exec 2 {}, .env .retire,
      .env (.destroy 3), .exec 3 {}, .exec 1 {}] ++ List.replicate 5 (.exec 3 {}) ++
        [.exec 3 { expired := true }, .exec 3 {}]

theorem stopped_sends_once_inFlush :
    ∃ c, Run.run step oneCrash stoppedInFlush = some c ∧
      (Run.trace step sent c (List.replicate 2 (.exec 2 {}))).length ≤ 1 := by
  have hrun : (Run.run step oneCrash stoppedInFlush).any fun c =>
      !c.shared.worker.running &&
        (Run.run step c (List.replicate 2 (.exec 2 {}))).isSome := by decide
  obtain ⟨c, hc, hgoes⟩ := Option.any_eq_true _ _ |>.mp hrun
  simp only [Bool.and_eq_true, Bool.not_eq_eq_eq_not, Bool.not_true] at hgoes
  obtain ⟨c', hc'⟩ := Option.isSome_iff_exists.mp hgoes.2
  refine ⟨c, hc, stopped_sends_once ⟨oneCrash, _, fresh_oneCrash, hc⟩ hgoes.1 ?_ hc'⟩
  intro l hl
  rw [List.eq_of_mem_replicate hl]
  exact id

end Tombstone.Runtime
