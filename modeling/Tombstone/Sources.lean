import Tombstone.Threads

/- Where the outbound jobs come from (`client.cpp`, `client_reports.cpp`, `worker.cpp`).

   A job that an action leaves in the queue or to a thread was there before, or is an earlier
   job with its file or with another attempt, or the action made it: a report, a beat, an
   envelope, a request for logs, its fulfilment, a log (`Source`, `perform_source`). What holds
   of all of these holds of every job there ever is. -/
namespace Tombstone.Runtime

/-- The action drains a batch. -/
def Act.FlushesBatch : Act → Prop
  | .maybeFlushBatch _ _ _ => True
  | _ => False

/-- Where a job comes from that an action leaves behind. -/
inductive Source (s : State) (a : Act) (i : Input) : UploadJob → Prop where
  | queued {job : UploadJob} (queued : job ∈ s.worker.queue) : Source s a i job
  | held {job : UploadJob} (held : job ∈ a.jobs) : Source s a i job
  | ahead {job : UploadJob} (held : job ∈ a.jobs) (path : Option SidecarPath) :
      Source s a i { job with sidecarPath := path }
  | retried {job : UploadJob} (held : job ∈ a.jobs) (hint : Option Nat) :
      Source s a i (Worker.retried job s.now hint)
  | report (kind : SidecarKind) (body : Bytes) (wantLog fromPrevious : Bool) :
      Source s a i (reportJob s kind body wantLog fromPrevious)
  | beat (body : Bytes) (opened : s.gate.opened = true) : Source s a i (heartbeatJob s body)
  | envelope (flushes : a.FlushesBatch) (metric : Bool) (e : Envelope) :
      Source s a i (envelopeJob s metric e)
  | playerLogs (body : Bytes) : Source s a i (playerLogsJob s body)
  | fulfil (who : ClientIdent) (request : JsonScan.PendingPullRequest) :
      Source s a i (fulfilJob s who request)
  | log (job : UploadJob) (act : a = .await job) (report : job.isLogUpload = false)
      (upload : JsonScan.LogUpload) (bytes : Bytes)
      (granted : JsonScan.findLogUpload i.response.body = some upload)
      (made : .enqueue (logUploadJob upload bytes) ∈ (process s job i).2) :
      Source s a i (logUploadJob upload bytes)

variable {s s' : State} {a : Act} {i : Input} {new : List Act}

/-- The job that an action without a job makes. -/
theorem made_source (h : perform s a i = some (s', new)) (hnone : a.jobs = []) {job : UploadJob}
    (hb : .enqueue job ∈ new) : Source s a i job := by
  cases perform_leads h _ hb with
  | ahead => cases hnone
  | request _ =>
    obtain ⟨-, rfl⟩ := Prod.mk.inj (Option.some.inj h)
    obtain rfl := Act.enqueue.inj (List.mem_singleton.mp hb)
    exact .playerLogs _
  | envelope _ =>
    rcases maybeFlushBatch_cases h with ⟨-, -, rfl⟩ | ⟨_, _, -, -, rfl⟩
    · cases hb
    · obtain ⟨e, -, hsame⟩ := List.mem_map.mp hb
      obtain rfl := Act.enqueue.inj hsame
      refine .envelope ?_ _ e
      trivial
  | beat _ =>
    obtain ⟨-, ⟨-, rfl⟩ | ⟨-, rfl⟩ | ⟨-, hopen, -, rfl⟩⟩ := heartbeat_cases h
    · cases hb
    · cases List.mem_singleton.mp hb
    · simp only [List.mem_cons, List.not_mem_nil, or_false, reduceCtorEq] at hb
      obtain rfl := Act.enqueue.inj hb
      exact .beat _ hopen
  | followUp _ => cases hnone
  | fulfil =>
    obtain ⟨-, rfl⟩ := Prod.mk.inj (Option.some.inj h)
    obtain ⟨j, hj, hsame⟩ := List.mem_map.mp hb
    obtain rfl := Act.enqueue.inj hsame
    unfold fulfilJobs at hj
    split at hj
    · cases hj
    · obtain ⟨request, -, rfl⟩ := List.mem_map.mp hj
      exact .fulfil i.ident request

/-- What handling a response leaves comes from the job it answers. -/
theorem Processed.source {job : UploadJob} {acts : List Act} (h : Processed s job i.response s' acts)
    (hacts : acts = (process s job i).2) : ∀ b ∈ acts, ∀ j ∈ b.jobs, Source s (.await job) i j := by
  have hself : job ∈ (Act.await job).jobs := List.mem_singleton_self job
  intro b hb j hj
  cases h with
  | final _ report _ follow =>
    cases follow b hb with
    | log _ upload bytes granted =>
      rw [List.mem_singleton.mp hj]
      exact .log job rfl report upload bytes granted (hacts ▸ hb)
    | ack _ body => cases hj
    | rtt => cases hj
  | retry _ _ _ hint =>
    rw [List.mem_singleton.mp hb] at hj
    rw [List.mem_singleton.mp hj]
    exact .retried hself hint
  | givenUp _ _ _ _ =>
    rw [List.mem_singleton.mp (List.mem_ite_nil_right.mp hb).2] at hj
    rw [List.mem_singleton.mp hj]
    exact .held hself
  | lost _ => cases hb

/-- **Where the jobs come from that an action leaves**, in the queue and to its thread. -/
theorem perform_source (h : perform s a i = some (s', new)) :
    (∀ job ∈ s'.worker.queue, Source s a i job) ∧ ∀ b ∈ new, ∀ job ∈ b.jobs, Source s a i job := by
  cases perform_effect h with
  | make hnone queue _ made =>
    refine ⟨fun job hjob => .queued (queue ▸ hjob), fun b hb job hjob => ?_⟩
    rcases made b hb with hidle | ⟨j, rfl, -⟩
    · rw [hidle] at hjob
      cases hjob
    · rw [List.mem_singleton.mp hjob]
      exact made_source h hnone hb
  | report kind body wantLog fromPrevious _ queue _ _ _ _ made _ =>
    refine ⟨fun job hjob => .queued (queue ▸ hjob), fun b hb job hjob => ?_⟩
    have hmem : job ∈ jobsOf new := mem_jobsOf.mpr ⟨b, hb, hjob⟩
    rw [made] at hmem
    rw [List.mem_singleton.mp hmem]
    exact .report kind body wantLog fromPrevious
  | unwritten job act same made =>
    subst act same
    have hself : job ∈ (Act.writeAhead job).jobs := List.mem_singleton_self job
    refine ⟨fun j hj => .queued hj, fun b hb j hj => ?_⟩
    rcases made with rfl | rfl
    · rw [List.mem_singleton.mp hb] at hj
      exact .held hj
    · rw [List.mem_singleton.mp hb] at hj
      rw [List.mem_singleton.mp hj]
      exact .ahead hself none
  | written job act _ same made =>
    subst act same made
    refine ⟨fun j hj => .queued hj, fun b hb j hj => ?_⟩
    rw [List.mem_singleton.mp hb] at hj
    rw [List.mem_singleton.mp hj]
    exact .ahead (List.mem_singleton_self job) _
  | enqueue job act queue _ made =>
    subst act made
    refine ⟨fun j hj => ?_, fun b hb => absurd hb List.not_mem_nil⟩
    have hmem : j ∈ s.worker.queue ++ [job] := queue ▸ List.mem_append_right _ hj
    rcases List.mem_append.mp hmem with hold | hnew
    · exact .queued hold
    · exact .held hnew
  | take job before after _ queue left _ made =>
    subst made
    refine ⟨fun j hj => .queued ?_, fun b hb j hj => .queued ?_⟩
    · rw [left] at hj
      rw [queue]
      exact List.mem_append.mpr ((List.mem_append.mp hj).imp_right (List.mem_cons_of_mem job))
    · rw [List.mem_singleton.mp hb] at hj
      rw [queue, List.mem_singleton.mp hj]
      exact List.mem_append_right before List.mem_cons_self
  | pass job act same made =>
    subst act same made
    refine ⟨fun j hj => .queued hj, fun b hb j hj => ?_⟩
    rw [List.mem_singleton.mp hb] at hj
    exact .held hj
  | processed job acts act done made =>
    subst act made
    have hsame : acts = (process s job i).2 :=
      (List.append_cancel_right (Prod.mk.inj (Option.some.inj h)).2).symm
    refine ⟨fun j hj => .queued (done.queue ▸ hj), fun b hb j hj => ?_⟩
    rcases List.mem_append.mp hb with hb | hb
    · exact done.source hsame b hb j hj
    · rw [List.mem_singleton.mp hb] at hj
      cases hj
  | leftovers _ queue _ made =>
    subst made
    refine ⟨fun j hj => ?_, fun b hb j hj => ?_⟩
    · rw [queue] at hj
      cases hj
    · obtain ⟨job, hmem, rfl⟩ := List.mem_map.mp hb
      rw [List.mem_singleton.mp hj]
      exact .queued (List.mem_of_mem_filter hmem)
  | unpersisted job act same made =>
    subst act same made
    exact ⟨fun j hj => .queued hj, fun b hb => absurd hb List.not_mem_nil⟩
  | persisted job act _ same made =>
    subst act same made
    exact ⟨fun j hj => .queued hj, fun b hb => absurd hb List.not_mem_nil⟩

/-! ## What holds of every job -/

/-- `P` holds of the jobs in the queue and of those that threads hold. -/
def AllJobs (P : UploadJob → Prop) (c : Config) : Prop :=
  Interleave.ActInv (fun s : State => ∀ job ∈ s.worker.queue, P job)
    (fun _ a => ∀ job ∈ a.jobs, P job) c

/-- `P` holds of a job wherever it comes from. -/
def FromSources (P : UploadJob → Prop) : Prop :=
  ∀ (s : State) (a : Act) (i : Input) (job : UploadJob), (∀ j ∈ s.worker.queue, P j) →
    (∀ j ∈ a.jobs, P j) → Source s a i job → P job

/-- What is asked of log uploads only comes from the grants, if neither a file nor another attempt takes
it away. -/
theorem fromSources_logUpload {Q : UploadJob → Prop}
    (hahead : ∀ (job : UploadJob) path, Q job → Q { job with sidecarPath := path })
    (hretried : ∀ job now hint, Q job → Q (Worker.retried job now hint))
    (hgranted : ∀ response upload bytes, JsonScan.findLogUpload response = some upload →
      Q (logUploadJob upload bytes)) : FromSources fun job => job.isLogUpload = true → Q job := by
  intro s a i job hqueue hheld hsource hlog
  cases hsource with
  | queued queued => exact hqueue _ queued hlog
  | held held => exact hheld _ held hlog
  | @ahead job held path => exact hahead job path (hheld job held hlog)
  | @retried job held hint => exact hretried job s.now hint (hheld job held hlog)
  | report _ _ _ _ => cases hlog
  | beat _ _ => cases hlog
  | envelope _ _ _ => cases hlog
  | playerLogs _ => cases hlog
  | fulfil _ _ => cases hlog
  | log _ _ _ upload bytes granted _ => exact hgranted _ upload bytes granted

/-- **What a step says of every job**: `Q` of each that an action leaves, wherever it comes from, and of
the restored ones, if `P` held of those before. -/
theorem allJobs_next {P Q : UploadJob → Prop} {c c' : Config} {l : Label} (hPQ : ∀ job, P job → Q job)
    (hsource : ∀ t i a rest job, l = .exec t i → c.threads[t]? = some (a :: rest) →
      (∀ j ∈ c.shared.worker.queue, P j) → (∀ j ∈ a.jobs, P j) → Source c.shared a i job → Q job)
    (hrestored : ∀ s r, Q (restoredJob s r)) (hc : AllJobs P c) (h : step c l = some c') : AllJobs Q c' := by
  have hold : AllJobs Q c :=
    ⟨fun job hjob => hPQ job (hc.shared job hjob), fun t p hp a ha job hjob =>
      hPQ job (hc.threads t p hp a ha job hjob)⟩
  rcases Interleave.step_cases h with ⟨t, i, a, rest, s', new, hl, ht, hp, rfl⟩ |
    ⟨t, k, s', new, -, -, hk, rfl⟩ | ⟨e, -, he⟩
  · obtain ⟨hqueue, hnew⟩ := perform_source hp
    have hleft : ∀ job, Source c.shared a i job → Q job := fun job =>
      hsource t i a rest job hl ht hc.shared (hc.act (List.mem_of_getElem? ht) List.mem_cons_self)
    exact hold.exec ht (fun job hjob => hleft job (hqueue job hjob))
      (fun b hb job hjob => hleft job (hnew b hb job hjob)) fun _ _ _ _ hb => hb
  · simp only [machine, call] at hk
    split at hk
    · obtain ⟨rfl, rfl⟩ := Prod.mk.inj (Option.some.inj hk)
      refine hold.call hold.shared (fun b hb job hjob => ?_) fun _ _ _ _ hb => hb
      rw [List.mem_singleton.mp hb, jobs_call k] at hjob
      cases hjob
    · cases hk
  · obtain ⟨s', ps'⟩ := c'
    have hheld : ∀ p ∈ c.threads, ∀ a ∈ p, ∀ job ∈ a.jobs, Q job := fun p hp a ha => hold.act hp ha
    have hall : (∀ job ∈ s'.worker.queue, Q job) ∧ ∀ p ∈ ps', ∀ a ∈ p, ∀ job ∈ a.jobs, Q job := by
      rcases env_cases he with ⟨elapsed, -, rfl, rfl⟩ | ⟨o, -, -, rfl, rfl⟩ | ⟨-, rfl, rfl⟩ |
        ⟨t, -, -, -, -, -, -, -, rfl, rfl⟩
      · exact ⟨hold.shared, hheld⟩
      · refine ⟨fun job hjob => absurd hjob List.not_mem_nil, fun p hp a ha job hjob => ?_⟩
        simp only [List.mem_cons, List.mem_replicate] at hp
        rcases hp with rfl | rfl | rfl | ⟨-, rfl⟩
        · rcases List.mem_append.mp ha with ha | ha
          · obtain ⟨r, -, rfl⟩ := List.mem_map.mp ha
            rw [List.mem_singleton.mp hjob]
            exact hrestored _ r
          · rw [jobs_initCalls a ha] at hjob
            cases hjob
        · rw [List.mem_singleton.mp ha] at hjob
          cases hjob
        · rw [List.mem_singleton.mp ha] at hjob
          cases hjob
        · cases ha
      · exact ⟨hold.shared, hheld⟩
      · refine ⟨hold.shared, fun p hp a ha job hjob => ?_⟩
        rcases List.mem_or_eq_of_mem_set hp with hp | rfl
        · exact hheld p hp a ha job hjob
        · rw [mem_destructor ha] at hjob
          cases hjob
    exact ⟨hall.1, fun t p hp => hall.2 p (List.mem_of_getElem? hp)⟩

/-- **What holds of a job wherever it comes from, and of restored ones, holds of every job.** -/
theorem allJobs_step {P : UploadJob → Prop} (hP : FromSources P)
    (hrestored : ∀ s r, P (restoredJob s r)) {c c' : Config} {l : Label} (hc : AllJobs P c)
    (h : step c l = some c') : AllJobs P c' :=
  allJobs_next (fun _ => id) (fun _ i a _ job _ _ hqueue hheld => hP c.shared a i job hqueue hheld)
    hrestored hc h

end Tombstone.Runtime
