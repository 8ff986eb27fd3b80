import Tombstone.Jobs
import Tombstone.Ledger

/- Write-ahead durability of crash and bug reports (`worker.cpp`, `client_reports.cpp`).

   The delivery side keeps a write-ahead ledger: its jobs are the tickets, the files below
   `pending/` are the records, the numbers are the reports'. What is proved:

   1. every step of the client is a sequence of moves of the ledger, or a restart of it
      (`step_refines`), so in every reachable state the ledger is sound (`reachable_sound`);
   2. `writeAhead_durable`: a report that has been written ahead stays on disk until a final
      response to it arrives, is gone right after one, and is never written again;
   3. `file_stays` and `final_removes`, the two facts about one response that the rest
      rests on. -/
namespace Tombstone.Runtime

/-! ## The ledger -/

def ticket (job : UploadJob) : Ledger.Ticket SidecarPath Bytes :=
  ⟨job.sidecarPath, job.body, job.origin.number⟩

def record (r : SidecarRecord) : Ledger.Record SidecarPath Bytes := ⟨r.path, r.body, r.report⟩

def tickets (jobs : List UploadJob) : Multiset (Ledger.Ticket SidecarPath Bytes) := ↑(jobs.map ticket)

/-- The ledger's book over the files and counts of a state. -/
def book (s : State) (memory : Multiset (Ledger.Ticket SidecarPath Bytes)) :
    Ledger.Book SidecarPath Bytes :=
  { memory, disk := s.sidecars.files.map record, written := s.written, next := s.nextReport }

/-- The ledger of a configuration: every queued job and every job a thread holds. -/
def ledger (c : Config) : Ledger.Book SidecarPath Bytes :=
  book c.shared (Interleave.total (fun s => tickets s.worker.queue) (fun a => tickets a.jobs) c)

@[simp] theorem tickets_nil : tickets [] = 0 := rfl

@[simp] theorem tickets_append (jobs jobs' : List UploadJob) :
    tickets (jobs ++ jobs') = tickets jobs + tickets jobs' := by
  simp [tickets]

@[simp] theorem tickets_singleton (job : UploadJob) : tickets [job] = {ticket job} := rfl

theorem add_ticket (m : Multiset (Ledger.Ticket SidecarPath Bytes)) (job : UploadJob) :
    m + {ticket job} = ticket job ::ₘ m := by
  rw [add_comm, Multiset.singleton_add]

theorem tickets_cons (job : UploadJob) (jobs : List UploadJob) :
    tickets (job :: jobs) = ticket job ::ₘ tickets jobs := rfl

theorem sum_tickets (acts : List Act) :
    (acts.map fun a => tickets a.jobs).sum = tickets (jobsOf acts) := by
  induction acts with
  | nil => rfl
  | cons a acts ih => simp [ih]

theorem mem_tickets {t : Ledger.Ticket SidecarPath Bytes} {jobs : List UploadJob} :
    t ∈ tickets jobs ↔ ∃ job ∈ jobs, ticket job = t := by
  simp [tickets]

theorem book_same {s s' : State} (h : SameDisk s s')
    (memory : Multiset (Ledger.Ticket SidecarPath Bytes)) : book s' memory = book s memory := by
  simp only [book, h.sidecars, h.written, h.next]

theorem plain_of_spare {job : UploadJob} (h : Spare job) : (ticket job).plain := ⟨h.2.1, h.2.2⟩

theorem plain_of_spares {acts : List Act} (h : ∀ b ∈ acts, b.spare) :
    ∀ t ∈ tickets (jobsOf acts), t.plain := by
  intro t ht
  obtain ⟨job, hj, rfl⟩ := mem_tickets.mp ht
  obtain ⟨b, hb, hj⟩ := mem_jobsOf.mp hj
  rcases h b hb with hnone | ⟨job', rfl, hspare⟩
  · rw [hnone] at hj
    cases hj
  · rw [List.mem_singleton.mp hj]
    exact plain_of_spare hspare

/-- The tickets an action may settle: the one whose final response it handles. -/
def settles (a : Act) (i : Input) (t : Ledger.Ticket SidecarPath Bytes) : Prop :=
  ∃ job, a = .await job ∧ i.response.outcome ≠ .transient ∧ t = ticket job

section Moves

variable {S : Ledger.Ticket SidecarPath Bytes → Prop} {s s' : State}
  {m m' : Multiset (Ledger.Ticket SidecarPath Bytes)}

theorem moves_shuffle {kept extra : Multiset (Ledger.Ticket SidecarPath Bytes)}
    (disk : SameDisk s s') (hk : kept ≤ m) (hx : ∀ t ∈ extra, t.plain) :
    Ledger.Moves S (book s m) (book s' (kept + extra)) := by
  rw [book_same disk]
  exact .single (.shuffle (b := book s m) kept extra hk hx rfl)

theorem moves_drop (disk : SameDisk s s') (h : m' ≤ m) : Ledger.Moves S (book s m) (book s' m') := by
  rw [← add_zero m']
  exact moves_shuffle disk h (by simp)

/-- A report is written to a file of a fresh name. -/
theorem moves_stored {job : UploadJob} {name : FileName} {n : Nat} (hp : job.sidecarPath = none)
    (hn : job.origin = .report n) (fresh : freshName s job name)
    (rest : Multiset (Ledger.Ticket SidecarPath Bytes)) :
    Ledger.Moves S (book s (ticket job ::ₘ rest)) (book (stored s job name)
      (ticket { job with sidecarPath := some { kind := job.kind, name } } ::ₘ rest)) := by
  have hfresh : ∀ r ∈ s.sidecars.files.map record, r.path ≠ { kind := job.kind, name } := by
    intro r hr
    obtain ⟨file, hf, rfl⟩ := List.mem_map.mp hr
    intro he
    have hin := fresh.1
    simp only [SidecarQueue.inUse, List.any_eq_false, beq_iff_eq] at hin
    exact hin file hf he
  have hmemory : (book s (ticket job ::ₘ rest)).memory = ⟨none, job.body, some n⟩ ::ₘ rest := by
    simp [book, ticket, hp, hn, Origin.number]
  have hmove := Ledger.Move.back (S := S) (b := book s (ticket job ::ₘ rest)) hmemory hfresh
  have hto : book (stored s job name)
      (ticket { job with sidecarPath := some { kind := job.kind, name } } ::ₘ rest) =
      { book s (ticket job ::ₘ rest) with
        memory := ⟨some { kind := job.kind, name }, job.body, some n⟩ ::ₘ rest
        disk := s.sidecars.files.map record ++ [⟨{ kind := job.kind, name }, job.body, n⟩]
        written := s.written ++ [n] } := by
    simp [book, stored, ticket, record, hn, Origin.number]
  rw [hto]
  exact .single hmove

end Moves

theorem removed_files (q : SidecarQueue) (job : UploadJob) :
    (q.remove job.sidecarPath).files.map record = Ledger.others (ticket job) (q.files.map record) := by
  unfold Ledger.others
  rw [List.filter_map]
  cases hp : job.sidecarPath with
  | none => simp [SidecarQueue.remove, ticket, hp]
  | some path =>
    simp only [SidecarQueue.remove, ticket, hp]
    congr 1
    refine List.filter_congr fun r _ => ?_
    rw [Bool.eq_iff_iff]
    simp only [record, bne_iff_ne, Function.comp_apply, ne_eq, Option.some.injEq]
    exact (not_congr eq_comm).trans decide_eq_true_iff.symm

/-- What handling a response does to the ledger: a final one settles the ticket. -/
theorem Processed.moves {s s' : State} {job : UploadJob} {i : Input} {acts : List Act}
    (h : Processed s job i.response s' acts)
    (rest : Multiset (Ledger.Ticket SidecarPath Bytes)) :
    Ledger.Moves (settles (.await job) i) (book s (ticket job ::ₘ rest))
      (book s' (rest + tickets (jobsOf acts))) := by
  cases h with
  | final claimed _ hf follow =>
    have hsettle : Ledger.Moves (settles (.await job) i) (book s (ticket job ::ₘ rest))
        { book s (ticket job ::ₘ rest) with
          memory := rest
          disk := Ledger.others (ticket job) (s.sidecars.files.map record) } :=
      .single (.settle (b := book s (ticket job ::ₘ rest)) rfl ⟨job, rfl, hf, rfl⟩)
    have hplain : ∀ t ∈ tickets (jobsOf acts), t.plain := by
      refine plain_of_spares fun b hb => ?_
      cases follow b hb with
      | log _ upload bytes => exact .inr ⟨_, rfl, ⟨rfl, rfl⟩, rfl, rfl⟩
      | ack => exact .inl rfl
      | rtt => exact .inl rfl
    have hto : book { s with
        sidecars := s.sidecars.remove job.sidecarPath
        settled := s.settled ++ carried job
        worker := { s.worker with previousLogClaimed := claimed } } (rest + tickets (jobsOf acts)) =
        { book s (ticket job ::ₘ rest) with
          memory := rest + tickets (jobsOf acts)
          disk := Ledger.others (ticket job) (s.sidecars.files.map record) } := by
      simp only [book, removed_files]
    rw [hto]
    exact hsettle.tail (.shuffle rest _ le_rfl hplain rfl)
  | retry _ _ _ hint =>
    exact moves_drop .rfl (le_of_eq (add_ticket rest job))
  | givenUp =>
    refine moves_drop ⟨rfl, rfl, rfl⟩ ?_
    split
    · exact le_of_eq (add_ticket rest job)
    · rw [jobsOf_nil, tickets_nil, add_zero]
      exact Multiset.le_cons_self rest _
  | lost =>
    refine moves_drop .rfl ?_
    rw [jobsOf_nil, tickets_nil, add_zero]
    exact Multiset.le_cons_self rest _

/-- **What an action does to the ledger.** -/
theorem Effect.moves {s s' : State} {a : Act} {i : Input} {new : List Act}
    (h : Effect s a i s' new) (ha : a.Ready) :
    Ledger.Moves (settles a i) (book s (tickets s.worker.queue + tickets a.jobs))
      (book s' (tickets s'.worker.queue + tickets (jobsOf new))) := by
  cases h with
  | make held queue disk made =>
    rw [held, queue, tickets_nil, add_zero]
    exact moves_shuffle disk le_rfl (plain_of_spares made)
  | report kind body wantLog prev held queue sidecars written next nonempty made only =>
    rw [held, queue, made, tickets_nil, add_zero, tickets_singleton, add_comm, Multiset.singleton_add]
    have hmove := Ledger.Move.accept (S := settles a i) (b := book s (tickets s.worker.queue)) body
    have hto : book s' (ticket (reportJob s kind body wantLog prev) ::ₘ tickets s.worker.queue) =
        { book s (tickets s.worker.queue) with
          memory := ⟨none, body, some s.nextReport⟩ ::ₘ tickets s.worker.queue
          next := s.nextReport + 1 } := by
      simp only [book, sidecars, written, next]
      rfl
    rw [hto]
    exact .single hmove
  | unwritten job act same made =>
    subst act same
    have hp := (ha.ahead job rfl).1
    have hjobs : tickets (jobsOf new) = tickets (Act.writeAhead job).jobs := by
      rcases made with rfl | rfl
      · rfl
      · simp [Act.jobs, ticket, hp]
    rw [hjobs]
  | written job act fresh same made =>
    subst act same made
    obtain ⟨hp, n, hn⟩ := ha.ahead job rfl
    have hmoves := moves_stored (S := settles (.writeAhead job) i) hp hn fresh
      (tickets s.worker.queue)
    simpa only [jobsOf_cons, jobsOf_nil, Act.jobs, List.append_nil, tickets_singleton, add_ticket,
      stored] using hmoves
  | enqueue job act queue disk made =>
    subst act made
    refine moves_drop disk ?_
    have hq : tickets s.worker.overflow + tickets s'.worker.queue =
        tickets s.worker.queue + tickets [job] := by
      rw [← tickets_append, ← tickets_append, queue]
    rw [jobsOf_nil, tickets_nil, add_zero]
    exact hq ▸ Multiset.le_add_left _ _
  | take job before after held queue left disk made =>
    subst made
    refine moves_drop disk (le_of_eq ?_)
    rw [held, queue, left]
    simp [Act.jobs, tickets_cons, add_ticket]
  | pass job act same made =>
    subst act same made
    exact .refl
  | processed job acts act done made =>
    subst act made
    have hmoves := done.moves (tickets s.worker.queue)
    rw [done.queue]
    simpa [Act.jobs, add_ticket] using hmoves
  | leftovers held queue disk made =>
    subst made
    refine moves_drop disk ?_
    rw [held, queue, jobsOf_map_persistLeftover, tickets_nil, add_zero, zero_add]
    exact Multiset.coe_le.mpr (List.filter_sublist.map ticket).subperm
  | unpersisted job act same made =>
    subst act same made
    refine moves_drop .rfl ?_
    rw [jobsOf_nil, tickets_nil, add_zero]
    exact Multiset.le_add_right _ _
  | persisted job act fresh same made =>
    subst act same made
    obtain ⟨hp, n, hn⟩ := (ha.made job (List.mem_singleton_self job)).persistable (ha.leftover job rfl)
    have hmoves := moves_stored (S := settles (.persistLeftover job) i) hp hn fresh
      (tickets s.worker.queue)
    have hdrop := moves_drop (S := settles (.persistLeftover job) i) (s := stored s job i.name) .rfl
      (Multiset.le_cons_self (tickets s.worker.queue)
        (ticket { job with sidecarPath := some { kind := job.kind, name := i.name } }))
    simpa [Act.jobs, stored, add_ticket] using hmoves.trans hdrop

/-! ## Steps refine moves -/

/-- The tickets a step may settle. -/
def settledBy (c : Config) (l : Label) (t : Ledger.Ticket SidecarPath Bytes) : Prop :=
  ∃ thread i job rest, l = .exec thread i ∧ c.threads[thread]? = some (.await job :: rest) ∧
    i.response.outcome ≠ .transient ∧ t = ticket job

theorem jobsOf_initProgram (s : State) (o : Launch) :
    jobsOf (initProgram s o) = s.sidecars.scan.map (restoredJob s) := by
  have hdrain : drainSidecars s = (s.sidecars.scan.map (restoredJob s)).map .enqueue := by
    rw [List.map_map]
    rfl
  rw [initProgram, jobsOf_append, jobsOf_eq_nil.mpr jobs_initCalls, hdrain, jobsOf_map_enqueue,
    List.append_nil]

/-- The threads of a launch. -/
def launchedThreads (s : State) (o : Launch) : List (List Act) :=
  initProgram (launched s o) o :: [.heartbeat] :: [.loopTop] :: List.replicate o.hostThreads []

theorem restart_launch {s : State} {o : Launch} {m : Multiset (Ledger.Ticket SidecarPath Bytes)}
    (hperm : o.order.Perm s.sidecars.files) :
    Ledger.Restart (book s m) (ledger ⟨launched s o, launchedThreads s o⟩) := by
  refine ⟨hperm.map record, ?_, rfl, rfl⟩
  have hheartbeat : jobsOf [.heartbeat] = [] := rfl
  have hloop : jobsOf [.loopTop] = [] := rfl
  have hqueue : (launched s o).worker.queue = [] := by simp [launched, Worker.start]
  have hmem : (Interleave.total (fun s => tickets s.worker.queue) (fun a => tickets a.jobs)
      ⟨launched s o, launchedThreads s o⟩) =
      tickets ((launched s o).sidecars.scan.map (restoredJob (launched s o))) := by
    simp [Interleave.total, launchedThreads, sum_tickets, jobsOf_initProgram, hheartbeat, hloop, hqueue]
  rw [ledger, hmem]
  simp only [tickets, book, List.map_map]
  exact Multiset.map_le_map (SidecarQueue.scan_le (launched s o).sidecars)

/-- **Every step of the client is a sequence of moves of its ledger, or restarts it.** -/
theorem step_refines {c c' : Config} {l : Label} (hc : WellMade c) (h : step c l = some c') :
    Ledger.Moves (settledBy c l) (ledger c) (ledger c') ∨ Ledger.Restart (ledger c) (ledger c') := by
  rcases Interleave.step_cases h with ⟨t, i, a, rest, s', new, rfl, ht, hp, rfl⟩ |
    ⟨t, k, s', new, rfl, ht, hk, rfl⟩ | ⟨e, rfl, he⟩
  · left
    have ha : a.Ready := hc.act (List.mem_of_getElem? ht) List.mem_cons_self
    obtain ⟨frame, hbefore, hafter⟩ := Interleave.total_exec (fun s : State => tickets s.worker.queue)
      (fun a => tickets a.jobs) ht
    have hmoves := ((perform_effect hp).moves ha).frame frame
    rw [← sum_tickets] at hmoves
    have hfrom : (book c.shared (tickets c.shared.worker.queue + tickets a.jobs)).add frame =
        ledger c := by
      rw [ledger, hbefore]
      rfl
    have hto : (book s' (tickets s'.worker.queue + (new.map fun a => tickets a.jobs).sum)).add frame =
        ledger ⟨s', c.threads.set t (new ++ rest)⟩ := by
      rw [ledger, hafter]
      rfl
    rw [hfrom, hto] at hmoves
    refine hmoves.mono ?_
    rintro _ ⟨job, rfl, hf, rfl⟩
    exact ⟨t, i, job, rest, rfl, ht, hf, rfl⟩
  · left
    simp only [machine, call] at hk
    split at hk
    · obtain ⟨rfl, rfl⟩ := Prod.mk.inj (Option.some.inj hk)
      obtain ⟨frame, hbefore, hafter⟩ := Interleave.total_call (fun s : State => tickets s.worker.queue)
        (fun a => tickets a.jobs) ht
      have hsame : ledger ⟨c.shared, c.threads.set t [k.act]⟩ = ledger c := by
        rw [ledger, ledger, hbefore, hafter]
        simp [jobs_call]
      rw [hsame]
    · cases hk
  · obtain ⟨s', ps'⟩ := c'
    rcases env_cases he with ⟨elapsed, -, rfl, rfl⟩ | ⟨o, -, hperm, rfl, rfl⟩ | ⟨-, rfl, rfl⟩ |
      ⟨t, -, -, -, -, -, -, ht, rfl, rfl⟩
    · exact .inl .refl
    · exact .inr (restart_launch hperm)
    · exact .inl .refl
    · left
      obtain ⟨frame, hbefore, hafter⟩ := Interleave.total_call (fun s : State => tickets s.worker.queue)
        (fun a => tickets a.jobs) ht
      have hsame : ledger ⟨{ c.shared with destroying := true },
          c.threads.set t destructor⟩ = ledger c := by
        rw [ledger, ledger, hbefore, hafter]
        simp [destructor, Act.jobs, book]
      rw [hsame]

theorem fresh_sound {c : Config} (h : Fresh c) : Ledger.Sound (ledger c) := by
  have hmem : Interleave.total (fun s : State => tickets s.worker.queue) (fun a => tickets a.jobs) c =
      0 := by
    simp [Interleave.total, h.queue, h.threads]
  have hpath : (c.shared.sidecars.files.map record).map Ledger.Record.path =
      c.shared.sidecars.files.map SidecarRecord.path := by
    rw [List.map_map]
    rfl
  have hnumber : (c.shared.sidecars.files.map record).map Ledger.Record.number = c.shared.written := by
    rw [List.map_map, h.written]
    rfl
  refine ⟨?_, ?_, ?_, ?_, ?_, ?_⟩
  · simp [ledger, book, hmem]
  · simp [ledger, book, hmem, Ledger.owners]
  · simpa only [ledger, book, hpath] using h.paths
  · intro n
    have hone := List.nodup_iff_count_le_one.mp h.distinct n
    simp only [ledger, book, hmem, Ledger.unbacked, Multiset.countP_zero, add_zero]
    split
    · exact hone
    · rename_i hn
      exact Nat.le_zero.mpr (List.count_eq_zero.mpr fun hw => hn (h.old n hw))
  · intro r hr
    have := List.mem_map_of_mem (f := Ledger.Record.number) hr
    rwa [show (ledger c).disk = c.shared.sidecars.files.map record from rfl, hnumber] at this
  · simpa only [ledger, book, hnumber] using h.distinct

/-- **In every reachable state the ledger is sound.** -/
theorem reachable_sound {c : Config} (h : Reachable c) : Ledger.Sound (ledger c) := by
  have hinv : WellMade c ∧ Ledger.Sound (ledger c) := by
    refine Run.reachable_inv (I := fun c => WellMade c ∧ Ledger.Sound (ledger c))
      (fun c hc => ⟨reachable_wellMade (.start hc), fresh_sound hc⟩) ?_ h
    rintro c l c' ⟨hm, hs⟩ hstep
    refine ⟨wellMade_step hm hstep, ?_⟩
    rcases step_refines hm hstep with hmoves | hrestart
    · exact hs.moves hmoves
    · exact hs.restart hrestart
  exact hinv.2

/-! ## A report that has been written ahead -/

theorem record_injective : Function.Injective record := by
  rintro ⟨path, body, report⟩ ⟨path', body', report'⟩ h
  simp only [record, Ledger.Record.mk.injEq] at h
  obtain ⟨rfl, rfl, rfl⟩ := h
  rfl

theorem record_mem {r : SidecarRecord} {files : List SidecarRecord} :
    record r ∈ files.map record ↔ r ∈ files :=
  List.mem_map_of_injective record_injective

theorem held_on_ledger {c : Config} {t : Nat} {a : Act} {rest : List Act} {job : UploadJob}
    (ht : c.threads[t]? = some (a :: rest)) (hj : job ∈ a.jobs) :
    ticket job ∈ (ledger c).memory := by
  have hmem : ticket job ∈ tickets a.jobs := mem_tickets.mpr ⟨job, hj, rfl⟩
  exact (Interleave.mem_total (f := fun s : State => tickets s.worker.queue)
    (w := fun a => tickets a.jobs)).mpr
    (.inr ⟨_, List.mem_of_getElem? ht, a, List.mem_cons_self, hmem⟩)

/-- What every reachable configuration satisfies. -/
def Kept (c : Config) : Prop := WellMade c ∧ Ledger.Sound (ledger c)

theorem reachable_kept {c : Config} (h : Reachable c) : Kept c :=
  ⟨reachable_wellMade h, reachable_sound h⟩

theorem kept_step (c : Config) (l : Label) (c' : Config) (hc : Kept c) (h : step c l = some c') :
    Kept c' := by
  refine ⟨wellMade_step hc.1 h, ?_⟩
  rcases step_refines hc.1 h with hmoves | hrestart
  · exact hc.2.moves hmoves
  · exact hc.2.restart hrestart

/-- The step is a final response to report `n`'s very body. -/
def Answered (n : Nat) (body : Bytes) (c : Config) (l : Label) : Prop :=
  ∃ t i job rest, l = .exec t i ∧ c.threads[t]? = some (.await job :: rest) ∧
    job.origin = .report n ∧ job.body = body ∧
    (i.response.outcome = .delivered ∨ i.response.outcome = .poison)

theorem final_iff {o : Outcome} : o ≠ .transient ↔ o = .delivered ∨ o = .poison := by
  cases o <;> simp

/-- The response to a report is processed, and what follows from it goes in front of the rest. -/
theorem await_report {c c' : Config} {t : Nat} {i : Input} {job : UploadJob} {rest : List Act} {n : Nat}
    (hc : WellMade c) (ht : c.threads[t]? = some (.await job :: rest)) (hn : job.origin = .report n)
    (h : step c (.exec t i) = some c') :
    ∃ acts, Processed c.shared job i.response c'.shared acts ∧
      c'.threads[t]? = some (acts ++ .clearInFlight :: rest) ∧ job.durability = .writeAhead ∧ job.isLogUpload = false := by
  obtain ⟨a, rest', s', new, ht', hp, rfl⟩ := Interleave.exec_cases h
  rw [ht] at ht'
  obtain ⟨rfl, rfl⟩ := List.cons.inj (Option.some.inj ht')
  obtain ⟨rfl, rfl⟩ := Prod.mk.inj (Option.some.inj hp)
  have hm : Made job :=
    (hc.act (List.mem_of_getElem? ht) List.mem_cons_self).made job (List.mem_singleton_self job)
  simp only [Made, hn] at hm
  have hlt : t < c.threads.length := (List.getElem?_eq_some_iff.mp ht).1
  refine ⟨(process c.shared job i).2, process_cases Prod.mk.eta.symm, ?_, hm.1, hm.2.1⟩
  rw [List.getElem?_set_self hlt, List.append_assoc]
  rfl

/-- A final response to a report removes its file. -/
theorem final_removes {c c' : Config} {t : Nat} {i : Input} {job : UploadJob} {rest : List Act}
    {n : Nat} (hc : WellMade c) (ht : c.threads[t]? = some (.await job :: rest))
    (hn : job.origin = .report n) (hf : i.response.outcome ≠ .transient)
    (h : step c (.exec t i) = some c') :
    c'.shared.sidecars = c.shared.sidecars.remove job.sidecarPath := by
  obtain ⟨acts, hdone, -, -, hlog⟩ := await_report hc ht hn h
  generalize c'.shared = u at hdone ⊢
  cases hdone with
  | final => rfl
  | retry ht => exact absurd ht hf
  | givenUp _ ht => exact absurd ht hf
  | lost hlost =>
    rcases hlost with hyes | ⟨-, ht⟩
    · rw [hlog] at hyes
      cases hyes
    · exact absurd ht hf

/-- A file stays through a step that is no final response to its report. -/
theorem file_stays {c c' : Config} {l : Label} {r : SidecarRecord} (hc : Kept c)
    (hr : r ∈ c.shared.sidecars.files) (hn : ¬ Answered r.report r.body c l)
    (h : step c l = some c') : r ∈ c'.shared.sidecars.files := by
  rw [← record_mem] at hr ⊢
  rcases step_refines hc.1 h with hmoves | hrestart
  · refine hmoves.kept hr ?_
    rintro _ ⟨t, i, job, rest, rfl, ht, hf, rfl⟩ hpath
    -- the job that names the file is its report's, and carries its body
    have hmem := held_on_ledger ht (List.mem_singleton_self job)
    obtain ⟨n, hnum, hd⟩ := hc.2.backed _ hmem r.path hpath
    have hsame := hc.2.unique_path hd hr rfl
    simp only [record, ticket, Ledger.Record.mk.injEq, true_and] at hsame hnum
    refine hn ⟨t, i, job, rest, rfl, ht, ?_, hsame.1, final_iff.mp hf⟩
    rw [← hsame.2]
    cases ho : job.origin <;> simp [Origin.number, ho] at hnum
    rw [hnum]
  · exact hrestart.disk.mem_iff.mpr hr

/-- A write that returned a path has left the report's file on disk. -/
theorem written_ahead {c c₁ : Config} {t : Nat} {i : Input} {job : UploadJob} {rest : List Act}
    {path : SidecarPath} (hc : WellMade c) (hjob : c.threads[t]? = some (.writeAhead job :: rest))
    (hw : step c (.exec t i) = some c₁)
    (hpath : c₁.threads[t]? = some (.enqueue { job with sidecarPath := some path } :: rest)) :
    ∃ n, job.origin = .report n ∧
      { path, body := job.body, report := n } ∈ c₁.shared.sidecars.files := by
  have hready := hc.act (List.mem_of_getElem? hjob) (a := .writeAhead job) List.mem_cons_self
  obtain ⟨hnone, n, hn⟩ := hready.ahead job rfl
  obtain ⟨a, rest', s', new, ht', hp, rfl⟩ := Interleave.exec_cases hw
  rw [hjob] at ht'
  obtain ⟨rfl, rfl⟩ := List.cons.inj (Option.some.inj ht')
  have hlt : t < c.threads.length := (List.getElem?_eq_some_iff.mp hjob).1
  have hnew : new = [.enqueue { job with sidecarPath := some path }] := by
    simp only [List.getElem?_set_self hlt, Option.some.injEq] at hpath
    exact List.append_cancel_right hpath
  refine ⟨n, hn, ?_⟩
  have heffect : Effect c.shared (.writeAhead job) i s' new := perform_effect hp
  cases heffect with
  | unwritten job' act same made =>
    cases act
    rw [hnew] at made
    rcases made with made | made
    · simp only [List.cons.injEq, Act.enqueue.injEq, and_true] at made
      rw [← made] at hnone
      cases hnone
    · simp only [List.cons.injEq, Act.enqueue.injEq, UploadJob.mk.injEq, and_true] at made
      simp at made
  | written job' act fresh same made =>
    cases act
    rw [hnew] at made
    simp only [List.cons.injEq, Act.enqueue.injEq, UploadJob.mk.injEq, and_true, true_and,
      Option.some.injEq] at made
    subst same made
    simp [stored, hn, Origin.number]
  | make held => cases held
  | report _ _ _ _ held => cases held
  | enqueue _ act => cases act
  | take _ _ _ held => cases held
  | pass _ act => cases act
  | processed _ _ act => cases act
  | leftovers held => cases held
  | unpersisted _ act => cases act
  | persisted _ act => cases act

/-- No second copy of a report's file is ever written. -/
theorem only_step {r : SidecarRecord} (c : Config) (l : Label) (c' : Config)
    (hc : Kept c ∧ Ledger.Only (record r) (ledger c)) (h : step c l = some c') :
    Kept c' ∧ Ledger.Only (record r) (ledger c') := by
  refine ⟨kept_step c l c' hc.1 h, ?_⟩
  rcases step_refines hc.1.1 h with hmoves | hrestart
  · exact hc.2.moves hc.1.2 hmoves
  · exact hc.2.restart hrestart

/-- After a final response to a report, it has no file. -/
theorem answered_removes {c c' : Config} {l : Label} {n : Nat} {body : Bytes} (hc : Kept c)
    (hw : n ∈ c.shared.written) (hl : Answered n body c l) (h : step c l = some c') :
    ∀ r ∈ c'.shared.sidecars.files, r.report ≠ n := by
  obtain ⟨t, i, job, rest, rfl, ht, ho, -, hf⟩ := hl
  have hmem := held_on_ledger ht (List.mem_singleton_self job)
  have hnum : (ticket job).number = some n := by simp [ticket, ho, Origin.number]
  obtain ⟨p, hp⟩ := Option.ne_none_iff_exists'.mp (hc.2.names_record hmem hnum hw)
  obtain ⟨n', hn', hd⟩ := hc.2.backed _ hmem p hp
  obtain rfl : n = n' := Option.some.inj (hnum.symm.trans hn')
  intro r hr hreport
  rw [final_removes hc.1 ht ho (final_iff.mpr hf) h] at hr
  obtain ⟨hr, hpath⟩ := SidecarQueue.mem_remove.mp hr
  have hsame := hc.2.unique_number (record_mem.mpr hr) hd hreport
  apply hpath
  rw [show job.sidecarPath = some p from hp, ← show r.path = p from congrArg Ledger.Record.path hsame]

/-- **Write-ahead durability.** Let a report's write have returned a path. Before its job is
enqueued, and from then on until a final response to that very body arrives, its file holds
the body; right after a final response the report has no file; and in every later state it
has no other file, and has been written once. -/
theorem writeAhead_durable {c c₁ c₂ : Config} {t : Nat} {i : Input} {job : UploadJob}
    {rest : List Act} {path : SidecarPath} {ls : List Label} (hc : Reachable c)
    (hjob : c.threads[t]? = some (.writeAhead job :: rest)) (hw : step c (.exec t i) = some c₁)
    (hpath : c₁.threads[t]? = some (.enqueue { job with sidecarPath := some path } :: rest))
    (hrun : Run.run step c₁ ls = some c₂) :
    ∃ n, job.origin = .report n ∧
      (Run.AllSteps step (fun c l _ => ¬ Answered n job.body c l) c₁ ls →
        { path, body := job.body, report := n } ∈ c₂.shared.sidecars.files) ∧
      (∀ l c₃, Answered n job.body c₂ l → step c₂ l = some c₃ →
        ∀ r ∈ c₃.shared.sidecars.files, r.report ≠ n) ∧
      (∀ r ∈ c₂.shared.sidecars.files, r.report = n →
        r = { path, body := job.body, report := n }) ∧
      c₂.shared.written.count n = 1 := by
  have hk := reachable_kept hc
  have hk₁ := kept_step _ _ _ hk hw
  obtain ⟨n, hn, hfile⟩ := written_ahead hk.1 hjob hw hpath
  have honly₁ := hk₁.2.only (record_mem.mpr hfile)
  obtain ⟨hk₂, honly⟩ := Run.run_inv only_step ⟨hk₁, honly₁⟩ hrun
  have hwritten : n ∈ c₂.shared.written := honly.written
  refine ⟨n, hn, fun hno => ?_, fun l c₃ hl h₃ => ?_, fun r hr he => ?_, ?_⟩
  · exact Run.run_unless (R := Answered n job.body) kept_step
      (fun c l c' hc hr hn h => file_stays hc hr hn h) hk₁ hfile hno hrun
  · exact answered_removes hk₂ hwritten hl h₃
  · exact record_injective (honly.copies (record r) (record_mem.mpr hr) he)
  · have hone := hk₂.2.once n
    have hpos : 1 ≤ c₂.shared.written.count n := List.one_le_count_iff.mpr hwritten
    have hle : c₂.shared.written.count n ≤ 1 := by
      have : (ledger c₂).written = c₂.shared.written := rfl
      rw [this] at hone
      split at hone <;> omega
    omega

/-- A launch that finds the marker of a dead session, up to the write of its report. -/
def uncleanStart : List Label :=
  [.env (.launch { previousMarker := true }), .exec 0 {}, .exec 0 {}, .exec 0 { body := [1] }]

def uncleanReport : UploadJob := reportJob {} .crash [1] false true

def uncleanPath : SidecarPath := { kind := .crash, name := { stem := lit "a" } }

def uncleanConfig : Config := (Run.run step noFiles uncleanStart).getD noFiles

def uncleanWritten : Config :=
  (step uncleanConfig (.exec 0 { name := uncleanPath.name })).getD noFiles

/-- The report is enqueued and sent in vain, and taken up again once its retry is due. -/
def retriedReport : List Label :=
  [.exec 0 {}, .exec 0 {}] ++ List.replicate 10 (.exec 2 {}) ++ [.env (.tick (seconds 3))] ++
    List.replicate 7 (.exec 2 {})

def uncleanRetried : Config := (Run.run step uncleanWritten retriedReport).getD noFiles

/-- The server's second answer is a final one. -/
def deliveredReport : Label := .exec 2 { response := { transportError := false, status := 200 } }

theorem retriedReport_transient {l : Label} (hl : l ∈ retriedReport) (n : Nat) (body : Bytes) (c : Config) :
    ¬ Answered n body c l := by
  rintro ⟨t, i, job, rest, rfl, -, -, -, hfinal⟩
  have hinput : t = 0 ∧ i = {} ∨ t = 2 ∧ i = {} := by simpa [retriedReport] using hl
  obtain rfl : i = {} := hinput.elim And.right And.right
  revert hfinal
  decide

/-- The report of a dead session is on disk while it is retried, and gone once it is delivered. -/
theorem writeAhead_durable_unclean : ∃ n c, uncleanReport.origin = .report n ∧
    Run.run step uncleanWritten retriedReport = some uncleanRetried ∧
    { path := uncleanPath, body := [1], report := n } ∈ uncleanRetried.shared.sidecars.files ∧
    uncleanRetried.shared.written.count n = 1 ∧
    step uncleanRetried deliveredReport = some c ∧ ∀ r ∈ c.shared.sidecars.files, r.report ≠ n := by
  have hc : Reachable uncleanConfig := ⟨noFiles, uncleanStart, fresh_noFiles, rfl⟩
  have hjob : uncleanConfig.threads[0]? = some [.writeAhead uncleanReport, .publish] := rfl
  have hw : step uncleanConfig (.exec 0 { name := uncleanPath.name }) = some uncleanWritten := rfl
  have hpath : uncleanWritten.threads[0]? =
      some [.enqueue { uncleanReport with sidecarPath := some uncleanPath }, .publish] := rfl
  have hrun : Run.run step uncleanWritten retriedReport = some uncleanRetried := rfl
  obtain ⟨n, hn, hfile, hanswer, -, hone⟩ := writeAhead_durable hc hjob hw hpath hrun
  obtain rfl : 0 = n := Origin.report.inj hn
  have hkept : Run.AllSteps step (fun c l _ => ¬ Answered 0 uncleanReport.body c l) uncleanWritten retriedReport :=
    Run.allSteps_of_labels fun _ hl c _ => retriedReport_transient hl 0 _ c
  have hawaited : uncleanRetried.threads[2]? = some [.await
      { uncleanReport with sidecarPath := some uncleanPath, attempt := 1, notBefore := seconds 2 }] := rfl
  have hdelivered : Answered 0 uncleanReport.body uncleanRetried deliveredReport :=
    ⟨2, _, _, _, rfl, hawaited, rfl, rfl, .inl rfl⟩
  exact ⟨0, _, rfl, hrun, hfile hkept, hone, rfl, hanswer _ _ hdelivered rfl⟩

end Tombstone.Runtime
