import Tombstone.Durability
import Tombstone.LogUploads
import Tombstone.Overlap

/- A report is answered once (`worker.cpp`, `client.cpp`, `sidecar_queue.cpp`).

   A report may be sent many times: again after a transient failure, again from its file after a
   restart. It is settled by the first response that is final. From then on nothing holds it, in
   the queue, on a thread or on disk, so that it is never sent again, over any number of launches;
   and no second final response can come for it (`settledOnce`).

   That holds of clients that do not overlap, and whose removals succeed. A removal that fails, or a
   death between the response and the removal, leaves the file to be sent again by the next launch,
   and so does a launch while an earlier client is still at it. So the result is stated over clients
   that may do all of this, for the runs in which they do not (`answered_once`). -/
namespace Tombstone.Runtime
open LogGrant

variable {c c' : Config} {l : Label} {n : Nat}

/-- The reports that get their final response in this step. -/
def answers (c : Config) : Label → List Nat
  | .exec t i =>
    match c.threads[t]? with
    | some (.await job :: _) => if i.response.outcome = .transient then [] else job.origin.number.toList
    | _ => []
  | _ => []

/-- The reports that are sent in this step. -/
def posts (c : Config) (l : Label) : List Nat :=
  match Interleave.acting c l with
  | some (.post job) => job.origin.number.toList
  | _ => []

theorem number_some {job : UploadJob} : job.origin.number = some n ↔ job.origin = .report n := by
  cases job.origin <;> simp [Origin.number]

theorem answers_some (h : n ∈ answers c l) :
    ∃ t i job rest, l = .exec t i ∧ c.threads[t]? = some (.await job :: rest) ∧
      job.origin = .report n ∧ i.response.outcome ≠ .transient := by
  cases l with
  | exec t i =>
    simp only [answers] at h
    split at h
    · rename_i job rest ht
      obtain ⟨hfinal, hn⟩ := List.mem_ite_nil_left.mp h
      exact ⟨t, i, job, rest, rfl, ht, number_some.mp (Option.mem_toList.mp hn), hfinal⟩
    · cases h
  | call t k => cases h
  | env e => cases h

theorem Processed.gone {s s' : State} {job : UploadJob} {response : HttpResponse} {acts : List Act}
    {rest : Multiset (Ledger.Ticket SidecarPath Bytes)} (h : Processed s job response s' acts)
    (hfinal : response.outcome ≠ .transient) (hlog : job.isLogUpload = false)
    (hgone : Ledger.Gone n { book s rest with disk := Ledger.others (ticket job) (s.sidecars.files.map record) }) :
    Ledger.Gone n (book s' (rest + tickets (jobsOf acts))) := by
  cases h with
  | final claimed _ hf follow =>
    have hplain : ∀ t ∈ tickets (jobsOf acts), t.plain := by
      refine plain_of_spares fun b hb => ?_
      cases follow b hb with
      | log _ upload bytes => exact .inr ⟨_, rfl, ⟨rfl, rfl⟩, rfl, rfl⟩
      | ack => exact .inl rfl
      | rtt => exact .inl rfl
    refine ⟨hgone.given, fun t ht => ?_, fun r hr => ?_⟩
    · rcases Multiset.mem_add.mp ht with ht | ht
      · exact hgone.memory t ht
      · rw [(hplain t ht).2]
        exact (Option.some_ne_none n).symm
    · exact hgone.disk r (removed_files s.sidecars job ▸ hr)
  | retry htransient => exact absurd htransient hfinal
  | givenUp _ htransient => exact absurd htransient hfinal
  | lost hlost =>
    rcases hlost with hyes | ⟨-, htransient⟩
    · rw [hlog] at hyes
      cases hyes
    · exact absurd htransient hfinal

/-- **A final response settles its report.** -/
theorem answered_gone (hc : Kept c) (hn : n ∈ answers c l) (h : step c l = some c') :
    Ledger.Gone n (ledger c') := by
  obtain ⟨t, i, job, rest, rfl, ht, horigin, hfinal⟩ := answers_some hn
  obtain ⟨-, -, -, -, hlog⟩ := await_report hc.1 ht horigin h
  obtain ⟨a, rest', s', new, ht', hp, rfl⟩ := Interleave.exec_cases h
  obtain ⟨rfl, rfl⟩ := List.cons.inj (Option.some.inj (ht.symm.trans ht'))
  obtain ⟨hs', hnew⟩ := Prod.mk.inj (Option.some.inj hp)
  have hdone : Processed c.shared job i.response s' (process c.shared job i).2 :=
    hs' ▸ process_cases Prod.mk.eta.symm
  obtain ⟨frame, hbefore, hafter⟩ := Interleave.total_exec (fun s : State => tickets s.worker.queue)
    (fun a => tickets a.jobs) ht
  -- the job's ticket, and all the others
  have hmemory : (ledger c).memory = ticket job ::ₘ (tickets c.shared.worker.queue + frame) := by
    show Interleave.total (fun s : State => tickets s.worker.queue) (fun a : Act => tickets a.jobs) c = _
    rw [hbefore]
    show tickets c.shared.worker.queue + {ticket job} + frame = _
    rw [add_ticket, Multiset.cons_add]
  have hgone := (hc.2.settled_gone hmemory (number_some.mpr horigin))
  have hledger : ledger ⟨s', c.threads.set t (new ++ rest)⟩ = book s'
      (tickets c.shared.worker.queue + frame + tickets (jobsOf (process c.shared job i).2)) := by
    have hnothing : tickets (Act.clearInFlight).jobs = 0 := rfl
    rw [ledger, hafter, ← hnew, hdone.queue, List.map_append, List.sum_append, sum_tickets, List.map_cons,
      List.map_nil, List.sum_cons, List.sum_nil, hnothing, add_zero, add_zero, add_right_comm]
  rw [hledger]
  exact hdone.gone hfinal hlog hgone

theorem gone_step (hc : Kept c) (hgone : Ledger.Gone n (ledger c)) (h : step c l = some c') :
    Ledger.Gone n (ledger c') := by
  rcases step_refines hc.1 h with hmoves | hrestart
  · exact hgone.moves hmoves
  · exact hgone.restart hrestart

theorem client_on_ledger {job : UploadJob} (h : InClient c job) : ticket job ∈ (ledger c).memory := by
  refine (Interleave.mem_total (f := fun s : State => tickets s.worker.queue)
    (w := fun a : Act => tickets a.jobs)).mpr ?_
  rcases h with hqueue | ⟨p, hp, a, ha, hjob⟩
  · exact .inl (mem_tickets.mpr ⟨job, hqueue, rfl⟩)
  · exact .inr ⟨p, hp, a, ha, mem_tickets.mpr ⟨job, hjob, rfl⟩⟩

/-- A report that is answered or sent is held by a thread. -/
theorem gone_silent (hgone : Ledger.Gone n (ledger c)) (l : Label) : n ∉ answers c l ∧ n ∉ posts c l := by
  have hheld : ∀ {t : Nat} {a : Act} {rest : List Act} {job : UploadJob},
      c.threads[t]? = some (a :: rest) → job ∈ a.jobs → job.origin.number ≠ some n :=
    fun ht hjob => hgone.memory _ (held_on_ledger ht hjob)
  constructor
  · intro hn
    obtain ⟨t, i, job, rest, rfl, ht, horigin, -⟩ := answers_some hn
    exact hheld ht (List.mem_singleton_self job) (number_some.mpr horigin)
  · intro hn
    unfold posts at hn
    split at hn
    · rename_i job hacting
      cases l with
      | exec t i =>
        obtain ⟨p, ht, hhead⟩ := Option.bind_eq_some_iff.mp hacting
        obtain ⟨rest, rfl⟩ : ∃ rest, p = .post job :: rest := by
          cases p with
          | nil => cases hhead
          | cons a rest => exact ⟨rest, by rw [Option.some.inj hhead]⟩
        exact hheld ht (List.mem_singleton_self job) (Option.mem_toList.mp hn)
      | call t k => cases hacting
      | env e => cases hacting
    · cases hn

theorem gone_run {ls : List Label} (hc : Kept c) (hgone : Ledger.Gone n (ledger c)) (hrun : Run.run step c ls = some c') :
    n ∉ Run.trace step answers c ls ∧ n ∉ Run.trace step posts c ls ∧ Ledger.Gone n (ledger c') := by
  induction ls generalizing c with
  | nil =>
    obtain rfl := Option.some.inj hrun
    exact ⟨List.not_mem_nil, List.not_mem_nil, hgone⟩
  | cons l ls ih =>
    obtain ⟨d, hs, hd⟩ := Run.run_cons_some.mp hrun
    obtain ⟨hanswers, hposts, hlast⟩ := ih (kept_step c l d hc hs) (gone_step hc hgone hs) hd
    obtain ⟨hanswer, hpost⟩ := gone_silent hgone l
    rw [Run.trace_cons hs, Run.trace_cons hs, List.mem_append, List.mem_append, not_or, not_or]
    exact ⟨⟨hanswer, hanswers⟩, ⟨hpost, hposts⟩, hlast⟩

theorem nodup_answers (c : Config) (l : Label) : (answers c l).Nodup := by
  unfold answers
  split
  · split
    · split
      · exact List.nodup_nil
      · rename_i job _ _ _
        cases job.origin.number with
        | none => exact List.nodup_nil
        | some n => exact List.nodup_singleton n
    · exact List.nodup_nil
  · exact List.nodup_nil

/-- Where one client runs at a time, and every removal succeeds, no report gets a second final response.
After its first, no job carries it and no file holds it, and it is never sent again. -/
theorem settledOnce {ls : List Label} (h : Reachable c) (hrun : Run.run step c ls = some c') :
    (Run.trace step answers c ls).Nodup ∧ ∀ n ∈ Run.trace step answers c ls,
      (∀ job, InClient c' job → job.origin ≠ .report n) ∧
      (∀ r ∈ c'.shared.sidecars.files, r.report ≠ n) ∧
      ∀ ls' d, Run.run step c' ls' = some d → n ∉ Run.trace step posts c' ls' := by
  have hgeneral : ∀ (ls : List Label) (d : Config), Kept d → Run.run step d ls = some c' →
      (Run.trace step answers d ls).Nodup ∧ ∀ n ∈ Run.trace step answers d ls, Ledger.Gone n (ledger c') := by
    intro ls
    induction ls with
    | nil => exact fun d _ _ => ⟨List.nodup_nil, fun n hn => absurd hn List.not_mem_nil⟩
    | cons l ls ih =>
      intro d hd hd'
      obtain ⟨e, hs, he⟩ := Run.run_cons_some.mp hd'
      have hkept := kept_step d l e hd hs
      obtain ⟨hnodup, hlater⟩ := ih e hkept he
      have hnow : ∀ n ∈ answers d l, n ∉ Run.trace step answers e ls ∧ Ledger.Gone n (ledger c') :=
        fun n hn => ⟨(gone_run hkept (answered_gone hd hn hs) he).1, (gone_run hkept (answered_gone hd hn hs) he).2.2⟩
      rw [Run.trace_cons hs]
      refine ⟨List.nodup_append.mpr ⟨nodup_answers d l, hnodup, ?_⟩, fun n hn => ?_⟩
      · rintro n hn m hm rfl
        exact (hnow n hn).1 hm
      · rcases List.mem_append.mp hn with hn | hn
        · exact (hnow n hn).2
        · exact hlater n hn
  obtain ⟨hnodup, hgone⟩ := hgeneral ls c (reachable_kept h) hrun
  have hreach : Reachable c' := h.extend hrun
  refine ⟨hnodup, fun n hn => ⟨fun job hjob horigin => ?_, fun r hr he => ?_, fun ls' d hd => ?_⟩⟩
  · exact (hgone n hn).memory _ (client_on_ledger hjob) (number_some.mpr horigin)
  · exact (hgone n hn).disk _ (record_mem.mpr hr) he
  · exact (gone_run (reachable_kept hreach) (hgone n hn) hd).2.1

/-! ## Clients over one directory -/

/-- What outlives a client: the files, the clock, and the proof-only counts of the reports. -/
structure Storage where
  files : List SidecarRecord := []
  now : Nat := 0
  nextReport : Nat := 0
  written : List Nat := []

def storageOf (c : Config) : Storage :=
  { files := c.shared.sidecars.files, now := c.shared.now, nextReport := c.shared.nextReport
    written := c.shared.written }

/-- The client, on what the storage has become. -/
def Storage.under (d : Storage) (c : Config) : Config :=
  { c with shared := { c.shared with
      sidecars := { c.shared.sidecars with files := d.files }
      now := d.now
      nextReport := d.nextReport
      written := d.written } }

/-- Before its first launch. -/
def Storage.unused (d : Storage) : Config := d.under ⟨{}, []⟩

inductive ClientLabel where
  /-- A step of the client; if it removes a file, whether the removal succeeds. -/
  | step (l : Label) (removed : Bool)
  /-- The client is gone, with its process or with its last reference. -/
  | ended

/-- What a step leads to where its removal fails: the answer is there, and so is the file. -/
def unremoved (c : Config) (l : Label) (c' : Config) : Config :=
  match Interleave.acting c l with
  | some (.await _) =>
    { c' with shared := { c'.shared with
        sidecars := { c'.shared.sidecars with files := c.shared.sidecars.files } } }
  | _ => c'

def launches : Label → Bool
  | .env (.launch _) => true
  | _ => false

/-- A client that dies between an answer and the removal is one whose removal fails and that ends. -/
def host : Overlap.Host Storage Config Launch ClientLabel where
  start d o := (step d.unused (.env (.launch o))).map fun c => (storageOf c, c)
  act d c label :=
    match label with
    | .ended => some (d, none)
    | .step l removed =>
      if launches l then none
      else (step (d.under c) l).map fun c' =>
        let c' := if removed then c' else unremoved (d.under c) l c'
        (storageOf c', some c')

abbrev Clients := Overlap.World Storage Config

/-- No launch while another client runs, and every removal succeeds. -/
def InTurn (w : Clients) : Overlap.Label Launch ClientLabel → Prop
  | .start _ => w.clients = []
  | .client _ (.step _ removed) => removed = true
  | .client _ .ended => True

/-- What the steps of the clients show. -/
def seen (f : Config → Label → List Nat) (w : Clients) : Overlap.Label Launch ClientLabel → List Nat
  | .client k (.step l _) => ((w.clients[k]?).map fun c => f (w.storage.under c) l).getD []
  | _ => []

theorem launch_storage {c d : Config} (h : storageOf c = storageOf d) (o : Launch) :
    step c (.env (.launch o)) = step d (.env (.launch o)) := by
  obtain ⟨hfiles, hnow, hnext, hwritten⟩ := Storage.mk.inj h
  simp only [step, Interleave.step, machine, env, launched, hfiles, hnow, hnext, hwritten]

/-- The storage is as one client has left it, and that client runs, if any. -/
def Left (d : Storage) (o : Option Config) (t : Config) : Prop := storageOf t = d ∧ ∀ c ∈ o, d.under c = t

section Clients

variable {d : Storage} {o : Option Config} {t : Config} {w w' : Clients} {f : Config → Label → List Nat}
  {ls : List (Overlap.Label Launch ClientLabel)}

/-- **Clients in turn are one client at a time.** -/
theorem inTurn_run (hf : ∀ c e, f c (.env e) = []) (h : Left d o t)
    (hgood : Run.AllSteps (Overlap.step host) (fun w l _ => InTurn w l) (Overlap.one d o) ls)
    (hrun : Run.run (Overlap.step host) (Overlap.one d o) ls = some w) :
    ∃ d' o', w = Overlap.one d' o' ∧
      Overlap.Answers step Left f t d' o' (Run.trace (Overlap.step host) (seen f) (Overlap.one d o) ls) := by
  refine Overlap.alone_run (fun w l _ hl => ?_) ?_ ?_ ls d o t h hgood hrun
  · cases l with
    | start how => exact hl
    | client k label => trivial
  · intro d how d' c t hleft hstart _
    obtain ⟨u, hu, hsame⟩ := Option.map_eq_some_iff.1 hstart
    obtain ⟨rfl, rfl⟩ := Prod.mk.inj hsame
    have hstep : step t (.env (.launch how)) = some u := (launch_storage hleft.1 how).trans hu
    refine ⟨[.env (.launch how)], u, Run.run_cons_some.2 ⟨u, hstep, rfl⟩, ⟨rfl, ?_⟩, ?_⟩
    · intro c hc
      exact Option.some.inj hc ▸ rfl
    · rw [Run.trace_step hstep, hf]
      rfl
  · intro d c label d' o t hleft hact hgood
    obtain ⟨hstorage, hunder⟩ := hleft
    obtain rfl := hunder c rfl
    cases label with
    | ended =>
      obtain ⟨rfl, rfl⟩ := Prod.mk.inj (Option.some.inj hact)
      exact ⟨[], _, rfl, ⟨hstorage, fun _ hc => absurd hc (Option.not_mem_none _)⟩, rfl⟩
    | step l removed =>
      obtain rfl : removed = true := hgood
      obtain ⟨-, hact⟩ := Option.ite_none_left_eq_some.1 hact
      obtain ⟨u, hu, hsame⟩ := Option.map_eq_some_iff.1 hact
      obtain ⟨rfl, rfl⟩ := Prod.mk.inj hsame
      refine ⟨[l], u, Run.run_cons_some.2 ⟨u, hu, rfl⟩, ⟨rfl, ?_⟩, Run.trace_step hu⟩
      intro c' hc
      exact Option.some.inj hc ▸ rfl

end Clients

instance (w : Clients) (l : Overlap.Label Launch ClientLabel) : Decidable (InTurn w l) :=
  match l with
  | .start _ => decidable_of_iff (w.clients.isEmpty = true) List.isEmpty_iff
  | .client _ (.step _ removed) => inferInstanceAs (Decidable (removed = true))
  | .client _ .ended => .isTrue trivial

/-- The crash report of an earlier launch is on disk. -/
def crashStored : Storage := { files := [crashFile], nextReport := 1, written := [0] }

theorem fresh_crashStored : Fresh crashStored.unused :=
  ⟨rfl, rfl, by decide, by decide, rfl, by decide, by decide⟩

/-- A client restores the report and sends it, to this answer, which removes the file or does not. -/
def restored (status : Nat) (removed : Bool) : List (Overlap.Label Launch ClientLabel) :=
  .start { order := [crashFile] } :: .client 0 (.step (.exec 0 {}) true) ::
    List.replicate 7 (.client 0 (.step (.exec 2 {}) true)) ++
    [.client 0 (.step (.exec 2 { response := { transportError := false, status } }) removed),
      .client 0 .ended]

/-- Where the removal fails, the next launch sends the report again, and it is answered twice. -/
example : Run.trace (Overlap.step host) (seen answers) ⟨crashStored, []⟩
    (restored 200 false ++ restored 200 true) = [0, 0] := by
  decide +kernel

end Tombstone.Runtime
