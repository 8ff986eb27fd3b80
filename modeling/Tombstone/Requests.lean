import Tombstone.SignatureStandard
import Tombstone.Transport

/- Where the game token goes (`transport_curl.cpp`, `worker.cpp`, `client.cpp`).

   The url of a job is the endpoint of this launch followed by a path of the API, or, for a
   session log, an url that a server supplied. The token authorises the first and signs those
   below `/api/v1/ingest/`; a request to an url of the second kind is the same whatever the token
   is. The invariant is `Addressed`, of every job in the queue and on a thread. -/
namespace Tombstone.Runtime
open LogGrant Transport Signature

/-- The paths that take reports, beats and batches. -/
def ingestPaths : List Bytes :=
  [crashesPath, bugReportsPath, eventsPath, heartbeatsPath, eventsBatchPath, metricsBatchPath]

/-- A path of the API, and whether what is posted to it is signed. -/
inductive ApiPath : Bool → Bytes → Prop
  | ingest {path : Bytes} (path_mem : path ∈ ingestPaths) : ApiPath true path
  | pullRequests : ApiPath false pullRequestsPath
  | fulfil (requestId : Bytes) : ApiPath false (pullRequestsPath ++ lit "/" ++ requestId ++ lit "/fulfill")

/-- The job goes to this endpoint's API, unless it is a session log. -/
def Addressed (endpoint : Bytes) (job : UploadJob) : Prop :=
  job.isLogUpload = false → ∃ path, ApiPath job.signBody path ∧ job.url = endpoint ++ path

theorem ingestPathFor_mem (kind : SidecarKind) : ingestPathFor kind ∈ ingestPaths := by
  cases kind <;> decide

theorem batchPath_mem (metric : Bool) :
    (if metric then metricsBatchPath else eventsBatchPath) ∈ ingestPaths := by
  cases metric <;> decide

/-- Wherever a job comes from, it goes to the endpoint if the earlier ones do. -/
theorem source_addressed {s : State} {a : Act} {i : Input} {job : UploadJob}
    (hqueue : ∀ j ∈ s.worker.queue, Addressed s.endpoint j) (hheld : ∀ j ∈ a.jobs, Addressed s.endpoint j)
    (h : Source s a i job) : Addressed s.endpoint job := by
  cases h with
  | queued queued => exact hqueue _ queued
  | held held => exact hheld _ held
  | @ahead job held path => exact hheld job held
  | @retried job held hint => exact hheld job held
  | report kind _ _ _ => exact fun _ => ⟨_, .ingest (ingestPathFor_mem kind), rfl⟩
  | beat _ _ => exact fun _ => ⟨heartbeatsPath, .ingest (by decide), rfl⟩
  | envelope _ metric _ => exact fun _ => ⟨_, .ingest (batchPath_mem metric), rfl⟩
  | playerLogs _ => exact fun _ => ⟨_, .pullRequests, rfl⟩
  | fulfil _ request => exact fun _ => ⟨_, .fulfil request.requestId, by simp [fulfilJob]⟩
  | log => exact fun hlog => absurd hlog Bool.noConfusion

theorem restoredJob_addressed (s : State) (r : SidecarRecord) : Addressed s.endpoint (restoredJob s r) :=
  fun _ => ⟨_, .ingest (ingestPathFor_mem r.path.kind), rfl⟩

/-! ## Every job -/

/-- Every job goes to the endpoint of the launch it is in. -/
def AllAddressed (c : Config) : Prop :=
  Interleave.ActInv (fun s : State => ∀ job ∈ s.worker.queue, Addressed s.endpoint job)
    (fun s a => ∀ job ∈ a.jobs, Addressed s.endpoint job) c

theorem allAddressed_step {c c' : Config} {l : Label} (hc : AllAddressed c) (h : step c l = some c') :
    AllAddressed c' := by
  refine Interleave.actInv_step ?_ ?_ ?_ hc h
  · intro s a i s' new hs ha hp
    have hsame := (perform_fixed hp).endpoint
    obtain ⟨hqueue, hnew⟩ := perform_source hp
    refine ⟨fun job hjob => ?_, fun b hb job hjob => ?_, fun b hb => ?_⟩
    · rw [hsame]
      exact source_addressed hs ha (hqueue job hjob)
    · rw [hsame]
      exact source_addressed hs ha (hnew b hb job hjob)
    · rwa [hsame]
  · intro s t k s' new hs hk
    simp only [machine, call] at hk
    split at hk
    · obtain ⟨rfl, rfl⟩ := Prod.mk.inj (Option.some.inj hk)
      refine ⟨hs, fun b hb job hjob => ?_, fun b hb => hb⟩
      rw [List.mem_singleton.mp hb, jobs_call k] at hjob
      cases hjob
    · cases hk
  · intro s ps e s' ps' hs hps he
    rcases env_cases he with ⟨elapsed, -, rfl, rfl⟩ | ⟨o, -, -, rfl, rfl⟩ | ⟨-, rfl, rfl⟩ |
      ⟨t, -, -, -, -, -, -, -, rfl, rfl⟩
    · exact ⟨hs, hps⟩
    · -- what was in memory is gone, and what is restored goes to the new endpoint
      refine ⟨fun job hjob => absurd hjob List.not_mem_nil, fun p hp a ha job hjob => ?_⟩
      simp only [List.mem_cons, List.mem_replicate] at hp
      rcases hp with rfl | rfl | rfl | ⟨-, rfl⟩
      · rcases List.mem_append.mp ha with ha | ha
        · obtain ⟨r, -, rfl⟩ := List.mem_map.mp ha
          rw [List.mem_singleton.mp hjob]
          exact restoredJob_addressed _ r
        · rw [jobs_initCalls a ha] at hjob
          cases hjob
      · rw [List.mem_singleton.mp ha] at hjob
        cases hjob
      · rw [List.mem_singleton.mp ha] at hjob
        cases hjob
      · cases ha
    · exact ⟨hs, hps⟩
    · refine ⟨hs, fun p hp a ha job hjob => ?_⟩
      rcases List.mem_or_eq_of_mem_set hp with hp | rfl
      · exact hps p hp a ha job hjob
      · rw [mem_destructor ha] at hjob
        cases hjob

theorem allAddressed_start {c : Config} (h : Fresh c) : AllAddressed c := by
  have hqueue : c.shared.worker.queue = [] := by rw [h.memory]
  refine ⟨fun job hjob => ?_, fun t p hp => ?_⟩
  · rw [hqueue] at hjob
    cases hjob
  · rw [h.threads, List.getElem?_nil] at hp
    cases hp

theorem reachable_addressed {c : Config} (h : Reachable c) {job : UploadJob} (hjob : InClient c job) :
    Addressed c.shared.endpoint job := by
  have hall : AllAddressed c := by
    obtain ⟨c₀, labels, hfresh, hrun⟩ := h
    exact Run.run_inv (fun _ _ _ hc hs => allAddressed_step hc hs) (allAddressed_start hfresh) hrun
  rcases hjob with hqueue | ⟨p, hp, a, ha, hheld⟩
  · exact hall.shared job hqueue
  · exact hall.act hp ha job hheld

/-! ## The token -/

/-- The request a job makes. -/
def request (job : UploadJob) (token : Bytes) (unixSeconds : BitVec 64) : Option Request :=
  send token unixSeconds (transportCall job)

theorem request_api {job : UploadJob} (hlog : job.isLogUpload = false) (token : Bytes)
    (unixSeconds : BitVec 64) :
    request job token unixSeconds = some (postJson job.url token job.body unixSeconds job.signBody) := by
  simp [request, transportCall, hlog, send]

/-- The request of a session log is the same for every token. -/
theorem request_log {job : UploadJob} (hlog : job.isLogUpload = true) (token token' : Bytes)
    (unixSeconds unixSeconds' : BitVec 64) :
    request job token unixSeconds = request job token' unixSeconds' := by
  simp only [request, transportCall, hlog, if_true]
  split <;> rfl

theorem cString_append {text more : Bytes} (h : 0 ∉ text) : cString (text ++ more) = text ++ cString more :=
  List.takeWhile_append_of_pos fun _ hb => bne_iff_ne.2 fun hzero => h (hzero ▸ hb)

theorem zero_notMem_intText (n : Int) : 0 ∉ intText n := by
  rw [JsonFields.intText_eq]
  intro h
  rcases List.mem_append.1 h with hsign | hdigit
  · split at hsign
    · exact absurd hsign (by decide)
    · cases hsign
  · exact absurd (Decimal.mem_text hdigit).1 (by decide)

theorem zero_notMem_toHex (bytes : Bytes) : 0 ∉ toHex bytes := by
  have hdigits : ∀ b : UInt8, hexDigits.getD ((b >>> 4) &&& 0xF).toNat 0 ≠ 0 ∧
      hexDigits.getD (b &&& 0xF).toNat 0 ≠ 0 := by
    apply forall_byte
    decide +kernel
  intro h
  obtain ⟨b, -, hb⟩ := List.mem_flatMap.1 h
  rcases List.mem_cons.1 hb with hhigh | hlow
  · exact (hdigits b).1 hhigh.symm
  · exact (hdigits b).2 (List.mem_singleton.1 hlow).symm

/-- What is signed of a request reaches the wire as it is. -/
theorem signatureHeader_eq (token body : Bytes) (unixSeconds : BitVec 64) :
    signatureHeader token body unixSeconds =
      lit "X-Tombstack-Signature: " ++ buildIngestSignatureHeader token body unixSeconds := by
  have hheader : 0 ∉ buildIngestSignatureHeader token body unixSeconds := by
    simp only [buildIngestSignatureHeader, List.mem_append, not_or]
    exact ⟨⟨⟨by decide, zero_notMem_intText _⟩, by decide⟩, zero_notMem_toHex _⟩
  rw [signatureHeader, cString_append (by decide)]
  congr 1
  exact List.takeWhile_eq_self_iff.2 fun b hb => bne_iff_ne.2 fun hzero => hheader (hzero ▸ hb)

/-- The request is signed with this text. -/
def SignedWith (r : Request) (value : Bytes) : Prop := lit "X-Tombstack-Signature: " ++ value ∈ r.headers

/-- Neither of the other two lines begins like a signature. -/
theorem postJson_signedWith {url token body value : Bytes} {unixSeconds : BitVec 64} {sign : Bool} :
    SignedWith (postJson url token body unixSeconds sign) value ↔
      sign = true ∧ value = buildIngestSignatureHeader token body unixSeconds := by
  have hX : lit "X-Tombstack-Signature: " ++ value = ch 'X' :: (lit "-Tombstack-Signature: " ++ value) := rfl
  have htype : lit "X-Tombstack-Signature: " ++ value ≠ lit "Content-Type: application/json" := by
    rw [hX]
    exact fun h => absurd (List.cons.inj h).1 (by decide)
  have hbearer : lit "X-Tombstack-Signature: " ++ value ≠ authorization token := by
    rw [authorization, cString_append (by decide), hX]
    exact fun h => absurd (List.cons.inj h).1 (by decide)
  cases sign with
  | false => simp [SignedWith, postJson, htype, hbearer]
  | true => simp [SignedWith, postJson, htype, hbearer, signatureHeader_eq]

theorem pullRequests_notMem : ∀ path ∈ ingestPaths, ¬ pullRequestsPath <+: path := by decide

/-- A path of the API is signed if and only if it takes reports, beats or batches. -/
theorem ApiPath.signed_iff {sign : Bool} {path : Bytes} (h : ApiPath sign path) :
    sign = true ↔ path ∈ ingestPaths := by
  cases h with
  | ingest hmem => exact iff_of_true rfl hmem
  | pullRequests => exact iff_of_false Bool.noConfusion fun hmem => pullRequests_notMem _ hmem (List.prefix_refl _)
  | fulfil requestId =>
    refine iff_of_false Bool.noConfusion fun hmem => pullRequests_notMem _ hmem ?_
    rw [List.append_assoc, List.append_assoc]
    exact List.prefix_append _ _

/-- **The token goes to the API of this launch's endpoint, and nowhere else.** Of every job there ever
is, queued or held by a thread, over launches and any answers of the server: where the token makes a
difference to its request, the url is the endpoint followed by a path of the API; where a server
supplied the url, the request is the same for every token. It makes a difference to the headers
only, and a request is signed exactly if it goes to an ingest path, over the very body it
carries. -/
theorem token_confined {c : Config} (h : Reachable c) {job : UploadJob} (hjob : InClient c job)
    (token : Bytes) (unixSeconds : BitVec 64) :
    (∀ token' unixSeconds', request job token unixSeconds ≠ request job token' unixSeconds' →
      ∃ path, ApiPath job.signBody path ∧ ∃ r, request job token unixSeconds = some r ∧
        r.url = cString (c.shared.endpoint ++ path)) ∧
    (job.isLogUpload = true → ∀ token' unixSeconds',
      request job token unixSeconds = request job token' unixSeconds') ∧
    (∀ token' unixSeconds' r, request job token unixSeconds = some r →
      ∃ headers, request job token' unixSeconds' = some { r with headers }) ∧
    ∀ r, request job token unixSeconds = some r →
      ((∃ value, SignedWith r value) ↔
        job.isLogUpload = false ∧ ∃ path ∈ ingestPaths, job.url = c.shared.endpoint ++ path) ∧
      ∀ value, SignedWith r value → ∃ body, r.payload = .body body ∧
        value = buildIngestSignatureHeader token body unixSeconds := by
  cases hlog : job.isLogUpload with
  | true =>
    have hsame := request_log hlog token
    refine ⟨fun token' t' hne => absurd (hsame token' unixSeconds t') hne,
      fun _ token' => hsame token' unixSeconds, fun token' t' r hr => ?_, fun r hr => ?_⟩
    · exact ⟨r.headers, by rw [← hsame token' unixSeconds t', hr]⟩
    · have hplain : ∀ value, ¬ SignedWith r value := by
        intro value hvalue
        simp only [request, transportCall, hlog, if_true] at hr
        split at hr
        · obtain rfl := Option.some.inj hr
          have hmem := List.mem_singleton.1 hvalue
          exact absurd (congrArg List.head? hmem) (by simp [lit])
        · simp only [send, postLog] at hr
          split at hr
          · cases hr
          · obtain rfl := Option.some.inj hr
            cases hvalue
      refine ⟨iff_of_false (not_exists.2 hplain) (fun hapi => ?_),
        fun value hvalue => absurd hvalue (hplain value)⟩
      cases hapi.1
  | false =>
    obtain ⟨path, hpath, hurl⟩ := reachable_addressed h hjob hlog
    have hrequest := request_api hlog
    refine ⟨fun token' t' _ => ⟨path, hpath, _, hrequest token unixSeconds, by rw [← hurl]; rfl⟩,
      fun htrue => absurd htrue Bool.noConfusion, fun token' t' r hr => ?_, fun r hr => ?_⟩
    · rw [hrequest] at hr ⊢
      obtain rfl := Option.some.inj hr
      exact ⟨_, rfl⟩
    · rw [hrequest] at hr
      obtain rfl := Option.some.inj hr
      simp only [postJson_signedWith]
      refine ⟨?_, fun value hvalue => ⟨job.body, rfl, hvalue.2⟩⟩
      constructor
      · rintro ⟨value, hsign, -⟩
        exact ⟨trivial, path, hpath.signed_iff.1 hsign, hurl⟩
      · rintro ⟨-, path', hmem, hsame⟩
        have hpaths : path = path' := List.append_cancel_left (hurl.symm.trans hsame)
        exact ⟨_, hpath.signed_iff.2 (hpaths ▸ hmem), rfl⟩

/-- A crash report of an earlier launch is signed. -/
theorem token_confined_restored :
    ∃ r value, request (restoredJob (launched oneCrash.shared { order := [crashFile] }) crashFile)
      (lit "key") 0 = some r ∧ SignedWith r value := by
  have hrun : Run.run step oneCrash [.env (.launch { order := [crashFile] })] =
      some ⟨launched oneCrash.shared { order := [crashFile] },
        [initProgram (launched oneCrash.shared { order := [crashFile] }) { order := [crashFile] },
          [.heartbeat], [.loopTop], []]⟩ := rfl
  have hlog : (restoredJob (launched oneCrash.shared { order := [crashFile] })
      crashFile).isLogUpload = false := rfl
  have hrequest := request_api hlog (lit "key") 0
  obtain ⟨-, -, -, hsigned⟩ := token_confined ⟨_, _, fresh_oneCrash, hrun⟩
    (.inr ⟨_, .head _, _, .head _, .head _⟩) (lit "key") 0
  obtain ⟨value, hvalue⟩ := (hsigned _ hrequest).1.2 ⟨rfl, crashesPath, by decide, rfl⟩
  exact ⟨_, value, hrequest, hvalue⟩

end Tombstone.Runtime
