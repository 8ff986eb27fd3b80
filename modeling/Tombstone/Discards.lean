import Tombstone.Durability

/- When a report is discarded (`worker.cpp`: `classify`, `handle_post_result`).

   The documented reasons are a 2xx and a 4xx other than 408 and 429; after any other result
   the report stays on disk, and is retried in this session or at the next launch. What is
   proved:

   1. a run discards reports for the documented reasons only, and retries the others, exactly
      when every response it gets is one the documentation classifies: a transport error, a
      2xx, or any status from 400 on (`discards_documented`);
   2. a redirect discards a crash report (`redirect_discards`): the catch-all branch of
      `classify` takes every status that no other branch names. -/
namespace Tombstone

/-- The documented reasons to discard a report. -/
def HttpResponse.Discards (r : HttpResponse) : Prop :=
  r.transportError = false ∧
    (200 ≤ r.status ∧ r.status < 300 ∨
      400 ≤ r.status ∧ r.status < 500 ∧ r.status ≠ 408 ∧ r.status ≠ 429)

/-- The results the documentation classifies. -/
def HttpResponse.Documented (r : HttpResponse) : Prop :=
  r.transportError = true ∨ 200 ≤ r.status ∧ r.status < 300 ∨ 400 ≤ r.status

theorem HttpResponse.Discards.final {r : HttpResponse} (h : r.Discards) : r.outcome ≠ .transient := by
  obtain ⟨hte, hs⟩ := h
  simp only [outcome, classify, hte, Bool.false_eq_true, if_false]
  split
  · simp
  · split
    · omega
    · simp

/-- `classify` agrees with the documentation on what it classifies, and nowhere else. -/
theorem HttpResponse.documented_iff {r : HttpResponse} :
    r.Documented ↔ (r.outcome ≠ .transient → r.Discards) := by
  simp only [Documented, Discards, outcome, classify]
  cases r.transportError
  · simp only [Bool.false_eq_true, if_false, true_and, false_or]
    split
    · simp_all
    · split
      · simp_all
        omega
      · simp
        omega
  · simp

namespace Runtime

variable {c c' : Config} {l : Label}

/-- What the documentation promises of one step: a report's file goes only for a documented
reason; after any other result it is kept, and its job is enqueued again while attempts are
left; and a launch enqueues every report on disk. -/
structure DocumentedDiscard (c : Config) (l : Label) (c' : Config) : Prop where
  reason : ∀ r ∈ c.shared.sidecars.files, r.path.kind ≠ .event →
    r ∉ c'.shared.sidecars.files → ∃ t i job rest, l = .exec t i ∧
      c.threads[t]? = some (.await job :: rest) ∧ job.sidecarPath = some r.path ∧
      i.response.Discards
  retried : ∀ t i job rest, l = .exec t i → c.threads[t]? = some (.await job :: rest) →
    ∀ r ∈ c.shared.sidecars.files, r.path.kind ≠ .event → job.sidecarPath = some r.path →
      ¬ i.response.Discards → r ∈ c'.shared.sidecars.files ∧
      (job.attempt + 1 < Worker.maxAttempts → ∃ hint, c'.threads[t]? =
        some (.enqueue (Worker.retried job c.shared.now hint) :: .clearInFlight :: rest))
  restored : ∀ o, l = .env (.launch o) → o.storageAvailable = true →
    ∀ r ∈ c.shared.sidecars.files, r.path.kind ≠ .event →
      ∃ p, c'.threads[0]? = some p ∧ .enqueue (restoredJob c'.shared r) ∈ p

/-- The step handles no response to a report but one the documentation classifies. -/
def DocumentedResponse (c : Config) (l : Label) : Prop :=
  ∀ t i job rest path, l = .exec t i → c.threads[t]? = some (.await job :: rest) →
    job.sidecarPath = some path → path.kind ≠ .event → i.response.Documented

/-! ## Files are as a write leaves them -/

/-- Every file can be restored. -/
def Restorable (c : Config) : Prop :=
  ∀ r ∈ c.shared.sidecars.files, r.path.name.ext = lit ".json" ∧ r.body ≠ []

theorem stored_restorable {s : State} {job : UploadJob} {name : FileName}
    (h : ∀ r ∈ s.sidecars.files, r.path.name.ext = lit ".json" ∧ r.body ≠ [])
    (fresh : freshName s job name) (hb : job.body ≠ []) :
    ∀ r ∈ (stored s job name).sidecars.files, r.path.name.ext = lit ".json" ∧ r.body ≠ [] := by
  intro r hr
  rcases List.mem_append.mp hr with hr | hr
  · exact h r hr
  · rw [List.mem_singleton.mp hr]
    exact ⟨fresh.2, hb⟩

theorem Made.body {job : UploadJob} {n : Nat} (h : Made job) (ho : job.origin = .report n) :
    job.body ≠ [] := by
  simp only [Made, ho] at h
  exact h.2.2

theorem Effect.restorable {s s' : State} {a : Act} {i : Input} {new : List Act}
    (he : Effect s a i s' new) (ha : a.Ready)
    (h : ∀ r ∈ s.sidecars.files, r.path.name.ext = lit ".json" ∧ r.body ≠ []) :
    ∀ r ∈ s'.sidecars.files, r.path.name.ext = lit ".json" ∧ r.body ≠ [] := by
  cases he with
  | make _ _ disk => exact disk.sidecars ▸ h
  | report _ _ _ _ _ _ sidecars => exact sidecars ▸ h
  | unwritten _ _ same => exact same ▸ h
  | written job act fresh same =>
    subst act same
    obtain ⟨-, n, hn⟩ := ha.ahead job rfl
    exact stored_restorable h fresh ((ha.made job (List.mem_singleton_self job)).body hn)
  | enqueue _ _ _ disk => exact disk.sidecars ▸ h
  | take _ _ _ _ _ _ disk => exact disk.sidecars ▸ h
  | pass _ _ same => exact same ▸ h
  | processed job acts act done =>
    cases done with
    | final => exact fun r hr => h r (SidecarQueue.mem_remove.mp hr).1
    | retry => exact h
    | givenUp => exact h
    | lost => exact h
  | leftovers _ _ disk => exact disk.sidecars ▸ h
  | unpersisted _ _ same => exact same ▸ h
  | persisted job act fresh same =>
    subst act same
    have hm := ha.made job (List.mem_singleton_self job)
    obtain ⟨-, n, hn⟩ := hm.persistable (ha.leftover job rfl)
    exact stored_restorable h fresh (hm.body hn)

theorem restorable_step (hc : Kept c) (hr : Restorable c) (h : step c l = some c') :
    Restorable c' := by
  rcases Interleave.step_cases h with ⟨t, i, a, rest, s', new, rfl, ht, hp, rfl⟩ |
    ⟨t, k, s', new, rfl, ht, hk, rfl⟩ | ⟨e, rfl, he⟩
  · have ha : a.Ready := hc.1.act (List.mem_of_getElem? ht) List.mem_cons_self
    exact (perform_effect hp).restorable ha hr
  · simp only [machine, call] at hk
    split at hk
    · obtain ⟨rfl, rfl⟩ := Prod.mk.inj (Option.some.inj hk)
      exact hr
    · cases hk
  · obtain ⟨s', ps'⟩ := c'
    rcases env_cases he with ⟨elapsed, -, rfl, rfl⟩ | ⟨o, -, hperm, rfl, rfl⟩ | ⟨-, rfl, rfl⟩ |
      ⟨t, -, -, -, -, -, -, ht, rfl, rfl⟩
    · exact hr
    · exact fun r hmem => hr r (hperm.mem_iff.mp hmem)
    · exact hr
    · exact hr

/-! ## One step -/

theorem named_file (hc : Kept c) {t : Nat} {job : UploadJob} {rest : List Act} {path : SidecarPath}
    (ht : c.threads[t]? = some (.await job :: rest)) (hp : job.sidecarPath = some path) :
    ∃ n, job.origin = .report n ∧
      { path, body := job.body, report := n } ∈ c.shared.sidecars.files := by
  obtain ⟨n, hn, hd⟩ := hc.2.backed _ (held_on_ledger ht (List.mem_singleton_self job)) path hp
  refine ⟨n, ?_, record_mem.mp hd⟩
  simp only [ticket] at hn
  cases ho : job.origin <;> simp [Origin.number, ho] at hn
  rw [hn]

theorem lost_answered (hc : Kept c) {r : SidecarRecord} (hr : r ∈ c.shared.sidecars.files)
    (hgone : r ∉ c'.shared.sidecars.files) (h : step c l = some c') :
    ∃ t i job rest, l = .exec t i ∧ c.threads[t]? = some (.await job :: rest) ∧
      job.sidecarPath = some r.path ∧ i.response.outcome ≠ .transient := by
  have hans : Answered r.report r.body c l := by
    by_contra hno
    exact hgone (file_stays hc hr hno h)
  obtain ⟨t, i, job, rest, rfl, ht, ho, -, hf⟩ := hans
  have hw : r.report ∈ (ledger c).written := hc.2.logged _ (record_mem.mpr hr)
  have hnum : (ticket job).number = some r.report := by simp [ticket, ho, Origin.number]
  have hmem := held_on_ledger ht (List.mem_singleton_self job)
  obtain ⟨p, hp⟩ := Option.ne_none_iff_exists'.mp (hc.2.names_record hmem hnum hw)
  obtain ⟨n, hn, hd⟩ := hc.2.backed _ hmem p hp
  have hsame := hc.2.unique_number hd (record_mem.mpr hr) (Option.some.inj (hn.symm.trans hnum))
  have hpath : p = r.path := congrArg Ledger.Record.path hsame
  exact ⟨t, i, job, rest, rfl, ht, hpath ▸ hp, final_iff.mpr hf⟩

theorem transient_retries (hc : WellMade c) {t : Nat} {i : Input} {job : UploadJob}
    {rest : List Act} {n : Nat} (ht : c.threads[t]? = some (.await job :: rest))
    (hn : job.origin = .report n) (hf : i.response.outcome = .transient)
    (hleft : job.attempt + 1 < Worker.maxAttempts) (h : step c (.exec t i) = some c') :
    ∃ hint, c'.threads[t]? =
      some (.enqueue (Worker.retried job c.shared.now hint) :: .clearInFlight :: rest) := by
  obtain ⟨acts, hdone, hthread, hahead, hlog⟩ := await_report hc ht hn h
  rw [hthread]
  generalize c'.shared = u at hdone
  cases hdone with
  | final _ _ hfinal => exact absurd hf hfinal
  | retry _ _ _ hint => exact ⟨hint, rfl⟩
  | givenUp _ _ _ hge => omega
  | lost hlost =>
    rcases hlost with hyes | ⟨hephemeral, -⟩
    · rw [hlog] at hyes
      cases hyes
    · rw [hahead] at hephemeral
      cases hephemeral

theorem launch_restores (hr : Restorable c) {o : Launch} (ho : o.storageAvailable = true)
    (h : step c (.env (.launch o)) = some c') {r : SidecarRecord}
    (hmem : r ∈ c.shared.sidecars.files) :
    ∃ p, c'.threads[0]? = some p ∧ .enqueue (restoredJob c'.shared r) ∈ p := by
  obtain ⟨s', ps'⟩ := c'
  have he : env (c.shared, c.threads) (.launch o) = some (s', ps') := Interleave.env_cases h
  rcases env_cases he with ⟨_, hl, -⟩ | ⟨o', hl, hperm, rfl, rfl⟩ | ⟨hl, -⟩ |
    ⟨_, hl, -⟩
  · cases hl
  · cases hl
    refine ⟨_, rfl, List.mem_append_left _ (List.mem_map.mpr ⟨r, ?_, rfl⟩)⟩
    have hfile : r ∈ (launched c.shared o).sidecars.files := hperm.mem_iff.mpr hmem
    exact SidecarQueue.mem_scan.mpr ⟨ho, hfile, hr r hmem⟩
  · cases hl
  · cases hl

/-- **One step keeps the documentation's promise exactly when the response it handles, if it
handles one to a report, is a documented one.** -/
theorem documentedDiscard_iff (hc : Kept c) (hr : Restorable c) (h : step c l = some c') :
    DocumentedDiscard c l c' ↔ DocumentedResponse c l := by
  constructor
  · rintro hdoc t i job rest path rfl ht hp hk
    rw [HttpResponse.documented_iff]
    intro hf
    by_contra hno
    obtain ⟨n, hn, hfile⟩ := named_file hc ht hp
    have hstays := (hdoc.retried t i job rest rfl ht _ hfile hk hp hno).1
    rw [final_removes hc.1 ht hn hf h] at hstays
    exact (SidecarQueue.mem_remove.mp hstays).2 hp
  · intro hresp
    refine ⟨fun r hmem hk hgone => ?_, ?_, ?_⟩
    · obtain ⟨t, i, job, rest, rfl, ht, hp, hf⟩ := lost_answered hc hmem hgone h
      have hdoc := hresp t i job rest r.path rfl ht hp hk
      exact ⟨t, i, job, rest, rfl, ht, hp, HttpResponse.documented_iff.mp hdoc hf⟩
    · rintro t i job rest rfl ht r hmem hk hp hno
      have hdoc := hresp t i job rest r.path rfl ht hp hk
      have htrans : i.response.outcome = .transient := by
        by_contra hf
        exact hno (HttpResponse.documented_iff.mp hdoc hf)
      obtain ⟨n, hn, -⟩ := named_file hc ht hp
      refine ⟨file_stays hc hmem ?_ h, fun hleft => transient_retries hc.1 ht hn htrans hleft h⟩
      rintro ⟨t', i', job', rest', hl, -, -, -, hf⟩
      cases hl
      exact final_iff.mpr hf htrans
    · rintro o rfl ho r hmem hk
      exact launch_restores hr ho h hmem

/-! ## Runs -/

/-- **A run discards reports for the documented reasons only, and retries the others, exactly
when every response it gets to a report is one the documentation classifies.** -/
theorem discards_documented {c₀ : Config} (h : Fresh c₀) (ls : List Label) :
    Run.AllSteps step DocumentedDiscard c₀ ls ↔
      Run.AllSteps step (fun c l _ => DocumentedResponse c l) c₀ ls := by
  refine Run.allSteps_congr (I := fun c => Kept c ∧ Restorable c) ?_ ?_ ls c₀
    ⟨reachable_kept (.start h), h.files⟩
  · exact fun c l c' hc hs => ⟨kept_step c l c' hc.1 hs, restorable_step hc.1 hc.2 hs⟩
  · exact fun c l c' hc hs => documentedDiscard_iff hc.1 hc.2 hs

/-! ## A redirect -/

/-- A launch enqueues the report, and the worker hands it to the transport. -/
def crashPosted : List Label :=
  .env (.launch { order := [crashFile] }) :: .exec 0 {} :: List.replicate 7 (.exec 2 {})

/-- The server answers with a redirect. -/
def redirected : Input := { response := { transportError := false, status := 302 } }

/-- The server is unavailable. -/
def unavailable : Input := { response := { transportError := false, status := 503 } }

/-- A report the server could not take is kept. -/
theorem discards_documented_unavailable :
    Run.AllSteps step DocumentedDiscard oneCrash (crashPosted ++ [.exec 2 unavailable]) := by
  refine (discards_documented fresh_oneCrash _).mpr (Run.allSteps_of_labels ?_)
  rintro l hl c - t i job rest path rfl - - -
  have hi : i = {} ∨ i = unavailable := by
    simp only [crashPosted, List.cons_append, List.mem_cons, List.mem_append, List.mem_replicate,
      List.not_mem_nil, or_false] at hl
    rcases hl with hl | hl | ⟨-, hl⟩ | hl <;> cases hl <;> simp
  rcases hi with rfl | rfl
  · exact .inl rfl
  · exact .inr (.inr (by decide))

/-- **A redirect discards a crash report.** -/
theorem redirect_discards :
    ¬ ∀ c₀ ls, Fresh c₀ → Run.AllSteps step DocumentedDiscard c₀ ls := by
  intro hall
  have hbefore : (Run.run step oneCrash crashPosted).map (fun c => c.shared.sidecars.files) =
      some [crashFile] := by decide
  have hafter : (Run.run step oneCrash (crashPosted ++ [.exec 2 redirected])).map
      (fun c => c.shared.sidecars.files) = some [] := by decide
  obtain ⟨c, hc, hfiles⟩ := Option.map_eq_some_iff.mp hbefore
  obtain ⟨c', hc', hnone⟩ := Option.map_eq_some_iff.mp hafter
  obtain ⟨u, hu, hlast⟩ := Run.run_append_some.mp hc'
  obtain rfl : c = u := Option.some.inj (hc.symm.trans hu)
  obtain ⟨v, hstep, hv⟩ := Run.run_cons_some.mp hlast
  obtain rfl : v = c' := Option.some.inj hv
  have hdoc := (hall oneCrash _ fresh_oneCrash).last hc hstep
  obtain ⟨t, i, job, rest, hl, -, -, hdiscards⟩ :=
    hdoc.reason crashFile (by simp [hfiles]) (by decide) (by simp [hnone])
  cases hl
  exact absurd hdiscards (by unfold HttpResponse.Discards; decide)

end Runtime

end Tombstone
