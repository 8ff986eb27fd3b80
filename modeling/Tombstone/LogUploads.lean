import Mathlib.Data.List.Induction
import Tombstone.LogGrant
import Tombstone.Sources

/- How a granted slot is used.

   The worker does not keep the method of a grant: a log upload is a PUT if it has no form
   fields, and a POST with its fields otherwise. A POST is only granted with fields
   (`LogGrant.findLogUpload_sound`), so the upload that is made of a response is what that response
   grants (`makes_granted`). A retry is the same call again (`process_sameCall`), and every log
   upload there is was made of a response in this way (`run_stems`). -/
namespace Tombstone.LogGrant
open JsonScan StringTokens JsonText Tombstone.Runtime

/-- What `process` calls the transport with. -/
inductive TransportCall
  | putText (url raw : Bytes)
  | postLog (url : Bytes) (formFields : List (Bytes × Bytes)) (raw : Bytes)
  | postJson (url body : Bytes) (signBody : Bool)
  deriving DecidableEq

/-- The choice at the top of `process`. -/
def transportCall (job : UploadJob) : TransportCall :=
  if job.isLogUpload then
    if job.formFields.isEmpty then .putText job.url job.raw
    else .postLog job.url job.formFields job.raw
  else .postJson job.url job.body job.signBody

/-- The call that a grant asks for. -/
def grantedCall (upload : LogUpload) (raw : Bytes) : TransportCall :=
  if upload.method = lit "PUT" then .putText upload.url raw else .postLog upload.url upload.fields raw

/-- In this step the worker's thread has `response` to a report, and leaves the log upload `made`. -/
def Makes (c : Config) (l : Label) (response : HttpResponse) (made : UploadJob) : Prop :=
  ∃ t i job rest, l = .exec t i ∧ c.threads[t]? = some (.await job :: rest) ∧ job.isLogUpload = false ∧
    i.response = response ∧ .enqueue made ∈ (process c.shared job i).2 ∧ made.isLogUpload = true

/-- A step of the run made a log upload that is sent as this one is. -/
def Stems (c₀ : Config) (ls : List Label) (job : UploadJob) : Prop :=
  ∃ before l after c response made, ls = before ++ l :: after ∧ Run.run step c₀ before = some c ∧
    Makes c l response made ∧ transportCall job = transportCall made

/-- The job is in the queue, or a thread holds it. -/
def InClient (c : Config) (job : UploadJob) : Prop :=
  job ∈ c.shared.worker.queue ∨ ∃ p ∈ c.threads, ∃ a ∈ p, job ∈ a.jobs

theorem allJobs_start {P : UploadJob → Prop} {c : Config} (h : Fresh c) : AllJobs P c := by
  have hqueue : c.shared.worker.queue = [] := by rw [h.memory]
  refine ⟨fun job hjob => ?_, fun t p hp => ?_⟩
  · rw [hqueue] at hjob
    cases hjob
  · rw [h.threads, List.getElem?_nil] at hp
    cases hp

/-- **The method of the grant is the method of the upload.** -/
theorem transportCall_granted {job : UploadJob} {upload : LogUpload} (hlog : job.isLogUpload = true)
    (hsound : Sound upload) (hurl : job.url = upload.url) (hfields : job.formFields = upload.fields) :
    transportCall job = grantedCall upload job.raw := by
  rw [transportCall, if_pos hlog, hurl, hfields, grantedCall]
  rcases hsound.policy with ⟨hput, hnone⟩ | ⟨hpost, hform⟩
  · rw [hnone, if_pos hput]
    rfl
  · have hmethod : ¬ upload.method = lit "PUT" := by
      rw [hpost]
      decide
    have hfields : ¬ upload.fields.isEmpty = true := by
      rw [List.isEmpty_iff]
      exact hform.nonempty
    rw [if_neg hfields, if_neg hmethod]

/-- **The upload that is made of a response is what that response grants.** -/
theorem makes_granted {c : Config} {l : Label} {response : HttpResponse} {made : UploadJob}
    (h : Makes c l response made) : ∃ upload, findLogUpload response.body = some upload ∧
      transportCall made = grantedCall upload made.raw := by
  obtain ⟨t, i, job, rest, -, -, hreport, rfl, hmade, hlog⟩ := h
  have hprocessed := process_cases (Prod.mk.eta (p := process c.shared job i)).symm
  generalize (process c.shared job i).1 = s', (process c.shared job i).2 = acts at hmade hprocessed
  cases hprocessed with
  | final _ _ _ follow =>
    cases follow _ hmade with
    | log _ upload bytes granted =>
      exact ⟨upload, granted, transportCall_granted hlog (findLogUpload_sound granted) rfl rfl⟩
  | retry =>
    obtain rfl := Act.enqueue.inj (List.mem_singleton.1 hmade)
    exact absurd (hreport.symm.trans hlog) Bool.noConfusion
  | givenUp => cases List.mem_singleton.1 (List.mem_ite_nil_right.1 hmade).2
  | lost => cases hmade

/-- **A retry is the same call again.** -/
theorem process_sameCall {s : State} {job again : UploadJob} {i : Input} (hlog : job.isLogUpload = true)
    (h : .enqueue again ∈ (process s job i).2) :
    again.isLogUpload = true ∧ transportCall again = transportCall job := by
  have hprocessed := process_cases (Prod.mk.eta (p := process s job i)).symm
  generalize (process s job i).1 = s', (process s job i).2 = acts at h hprocessed
  cases hprocessed with
  | final _ report => exact absurd (report.symm.trans hlog) Bool.noConfusion
  | retry =>
    obtain rfl := Act.enqueue.inj (List.mem_singleton.1 h)
    exact ⟨hlog, rfl⟩
  | givenUp report => exact absurd (report.symm.trans hlog) Bool.noConfusion
  | lost => cases h

theorem Stems.later {c₀ : Config} {ls : List Label} {job job' : UploadJob} (h : Stems c₀ ls job)
    (hcall : transportCall job' = transportCall job) (more : List Label) : Stems c₀ (ls ++ more) job' := by
  obtain ⟨before, l, after, c, response, made, rfl, hrun, hmade, hsame⟩ := h
  exact ⟨before, l, after ++ more, c, response, made, by simp, hrun, hmade, hcall.trans hsame⟩

/-- **Every log upload stems from a response.** -/
theorem run_stems {c₀ c : Config} {ls : List Label} (h₀ : Fresh c₀) (hrun : Run.run step c₀ ls = some c) :
    AllJobs (fun job => job.isLogUpload = true → Stems c₀ ls job) c := by
  induction ls using List.reverseRecOn generalizing c with
  | nil =>
    obtain rfl := Option.some.inj hrun
    exact allJobs_start h₀
  | append_singleton ls l ih =>
    obtain ⟨u, hu, hlast⟩ := Run.run_append_some.1 hrun
    have hstep : step u l = some c := by
      obtain ⟨v, hv, hc⟩ := Run.run_cons_some.1 hlast
      rw [hv, Option.some.inj hc]
    refine allJobs_next (fun job hjob hlog => (hjob hlog).later rfl [l]) ?_ (fun _ _ => nofun) (ih hu) hstep
    intro t i a rest job hl ht hqueue hheld hsource hlog
    cases hsource with
    | queued queued => exact (hqueue _ queued hlog).later rfl [l]
    | held held => exact (hheld _ held hlog).later rfl [l]
    | @ahead job held path => exact (hheld job held hlog).later rfl [l]
    | @retried job held hint => exact (hheld job held hlog).later rfl [l]
    | log report act hreport upload bytes granted made =>
      subst act
      exact ⟨ls, l, [], u, _, _, rfl, hu, ⟨t, i, report, rest, hl, ht, hreport, rfl, made, rfl⟩, rfl⟩
    | report => cases hlog
    | beat => cases hlog
    | envelope => cases hlog
    | playerLogs => cases hlog
    | fulfil => cases hlog

theorem inClient_stems {c₀ c : Config} {ls : List Label} {job : UploadJob} (h₀ : Fresh c₀)
    (hrun : Run.run step c₀ ls = some c) (hjob : InClient c job) (hlog : job.isLogUpload = true) :
    Stems c₀ ls job := by
  rcases hjob with hqueue | ⟨p, hp, a, ha, hheld⟩
  · exact (run_stems h₀ hrun).shared job hqueue hlog
  · exact (run_stems h₀ hrun).act hp ha job hheld hlog

/-! ## The fields of a policy -/

/-- The grant that is documented for a signed POST: the members of the `logUpload` object itself say
so, each of them only once in effect. -/
structure PostGrant (doc : Json) (entries : List (Bytes × Bytes)) : Prop where
  url : HasOwn (ownMembers doc) (lit "url") fun v => stringValue (some v) ≠ []
  method : HasOwn (ownMembers doc) (lit "method") fun v => stringValue (some v) = lit "POST"
  fields : HasOwn (ownMembers doc) (lit "fields") fun v => formOf (some v) = some entries
  urls : ∀ m ∈ ownMembers doc, unescaped m.1 = lit "url" → stringValue (some m.2) ≠ []
  methods : ∀ m ∈ ownMembers doc, unescaped m.1 = lit "method" → stringValue (some m.2) = lit "POST"
  forms : ∀ m ∈ ownMembers doc, unescaped m.1 = lit "fields" → formOf (some m.2) = some entries
  names : ∀ entry ∈ entries, entry.1 ∉ [lit "url", lit "method", lit "fields"]

/-- The first members of these names, in the text and at any depth of the object that the search for
a grant stops at, say the same. -/
def FirstSigned (doc : Json) (entries : List (Bytes × Bytes)) : Prop :=
  ∃ object, grantObject doc = some object ∧
    stringValue (firstNamed id (lit "url") (allMembers object)) ≠ [] ∧
    stringValue (firstNamed id (lit "method") (allMembers object)) = lit "POST" ∧
    formOf (firstNamed id (lit "fields") (allMembers object)) = some entries

theorem formOf_ne_nil {v : Option Json} {entries : List (Bytes × Bytes)} (h : formOf v = some entries) :
    entries ≠ [] := by
  unfold formOf at h
  split at h
  · obtain ⟨-, hform⟩ := Option.filter_eq_some_iff.1 h
    exact (of_decide_eq_true hform).nonempty
  · cases h

theorem grantOf_fields_iff {object : Json} {entries : List (Bytes × Bytes)} (hsome : entries ≠ []) :
    (∃ upload, grantOf object = some upload ∧ upload.fields = entries) ↔
      stringValue (firstNamed id (lit "url") (allMembers object)) ≠ [] ∧
      stringValue (firstNamed id (lit "method") (allMembers object)) = lit "POST" ∧
      formOf (firstNamed id (lit "fields") (allMembers object)) = some entries := by
  have hposts : lit "POST" ≠ lit "PUT" := by decide
  unfold grantOf
  dsimp only
  constructor
  · rintro ⟨upload, hgrant, hfields⟩
    split at hgrant
    · cases hgrant
    · rename_i hurl
      split at hgrant
      · obtain rfl := Option.some.inj hgrant
        exact absurd hfields.symm hsome
      · split at hgrant
        · cases hgrant
        · rename_i hpost
          obtain ⟨fields, hform, rfl⟩ := Option.map_eq_some_iff.1 hgrant
          exact ⟨hurl, not_not.1 hpost, hfields ▸ hform⟩
  · rintro ⟨hurl, hpost, hform⟩
    rw [hpost, hform]
    simp [hurl, hposts]

theorem postFields_iff {doc : Json} {t body : Bytes} {entries : List (Bytes × Bytes)}
    (ht : Laid id (.value doc) t) (hbody : Padded t body) (hsize : body.length ≤ 128 * 1024)
    (hpost : PostGrant doc entries) :
    (∃ upload, findLogUpload body = some upload ∧ upload.fields = entries) ↔ FirstSigned doc entries := by
  obtain ⟨m, -, -, hform⟩ := hpost.fields
  rw [findLogUpload_laid ht hbody hsize, FirstSigned]
  simp only [← grantOf_fields_iff (formOf_ne_nil hform), Option.bind_eq_some_iff]
  constructor
  · rintro ⟨upload, ⟨object, hobject, hgrant⟩, hfields⟩
    exact ⟨object, hobject, upload, hgrant, hfields⟩
  · rintro ⟨object, hobject, upload, hgrant, hfields⟩
    exact ⟨upload, ⟨object, hobject, hgrant⟩, hfields⟩

theorem grant_values : ∀ m ∈ headerGrant,
    (m.1 = lit "url" → m.2 = .str (lit "u")) ∧ (m.1 = lit "method" → m.2 = .str (lit "POST")) ∧
      (m.1 = lit "fields" → m.2 = .obj [(lit "key", .str (lit "k"))]) := by
  have hnames : [lit "headers", lit "url", lit "method", lit "fields"].Nodup := by decide
  simp only [headerGrant, plainGrant, List.forall_mem_cons]
  simp only [List.nodup_cons, List.mem_cons, not_or] at hnames
  grind

theorem postGrant_grantDoc {ms : List (Bytes × Json)} (hplain : plainGrant ⊆ ms) (hms : ms ⊆ headerGrant) :
    PostGrant (grantDoc ms) [(lit "key", lit "k")] := by
  have hwords : ∀ m ∈ headerGrant, m.1 ∈ words := by decide
  have hname : ∀ m ∈ ms, unescaped m.1 = m.1 := fun m hm => unescaped_word m.1 (hwords m (hms hm))
  have hform : formOf (some (.obj [(lit "key", .str (lit "k"))])) = some [(lit "key", lit "k")] := by decide
  have hurl : stringValue (some (.str (lit "u"))) ≠ [] := by
    rw [stringValue_word _ (by decide)]
    decide
  have hpost : stringValue (some (.str (lit "POST"))) = lit "POST" := stringValue_word _ (by decide)
  have hvalues : ∀ m ∈ ms, _ := fun m hm => grant_values m (hms hm)
  refine ⟨?_, ?_, ?_, fun m hm h => ?_, fun m hm h => ?_, fun m hm h => ?_, by decide⟩
  · rw [ownMembers_grantDoc]
    have hm : (lit "url", .str (lit "u")) ∈ ms := hplain (.head _)
    exact ⟨_, hm, hname _ hm, hurl⟩
  · rw [ownMembers_grantDoc]
    have hm : (lit "method", .str (lit "POST")) ∈ ms := hplain (.tail _ (.head _))
    exact ⟨_, hm, hname _ hm, hpost⟩
  · rw [ownMembers_grantDoc]
    have hm : (lit "fields", .obj [(lit "key", .str (lit "k"))]) ∈ ms := hplain (.tail _ (.tail _ (.head _)))
    exact ⟨_, hm, hname _ hm, hform⟩
  · rw [ownMembers_grantDoc] at hm
    rw [hname m hm] at h
    rwa [(hvalues m hm).1 h]
  · rw [ownMembers_grantDoc] at hm
    rw [hname m hm] at h
    rwa [(hvalues m hm).2.1 h]
  · rw [ownMembers_grantDoc] at hm
    rw [hname m hm] at h
    rwa [(hvalues m hm).2.2 h]

end Tombstone.LogGrant
