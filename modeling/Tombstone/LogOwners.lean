import Tombstone.Launches

/- Whose log a report gets.

   A granted slot is filled with the current session's log, or, for a restored report and for
   one about the session before, with the one log that rotation kept. This file

   1. says that an uploaded log is the report's own (`OwnLog`): every byte of it was written
      by the session that the report is about;
   2. proves whose logs there are on disk at any time (`LogOwned`), with the session log on at
      every launch;
   3. proves that the histories in which every uploaded log is its report's own are exactly
      those where the kept log goes only to reports about the session just before
      (`own_log_iff`), over any number of launches. -/
namespace Tombstone.Launches

/-- A launch with the session log on, as the histories here have them. -/
def Label.logs : Label → Prop
  | .launch o _ => o.enableSessionLog = true
  | _ => True

/-- Every uploaded log is that of the session its report is about. -/
def OwnLog (s : State) : Prop := ∀ u ∈ s.uploads, ∀ b ∈ u.bytes, b.1 = u.subject

/-- The number of the report that a job carries. -/
def reportOf (job : UploadJob) : Nat := job.origin.number.getD 0

/-- The response to a report's job grants a slot, and there is a log to fill it with. -/
def Fills (s : State) (p : Process) (job : UploadJob) (response : HttpResponse) : Prop :=
  response.outcome = .delivered ∧ job.requestLog = true ∧
    (JsonScan.findLogUpload response.body).isSome = true ∧
    (job.logFromPrevious && p.worker.previousLogClaimed) = false ∧
    readLog s p job.logFromPrevious ≠ []

/-- The kept log goes to a report about the session just before this one. -/
def FromLastSession (s : State) : Label → Prop
  | .respond i response _ => ∀ p ∈ s.process, ∀ job ∈ p.worker.queue[i]?,
      Fills s p job response → job.logFromPrevious = true →
        s.subjectOf (reportOf job) + 1 = s.sessions
  | _ => True

/-! ## Whose logs there are -/

/-- A job of this session's own reports. -/
def State.Own (s : State) (job : UploadJob) : Prop :=
  reportOf job < s.reports.length ∧ s.subjectOf (reportOf job) = s.sessions

/-- **The logs on disk**: the current one is this session's, the kept one the last session's,
and a job that is not for the kept one carries a report of this session. -/
structure LogOwned (s : State) : Prop where
  current : ∀ b ∈ s.log.getD [], b.1 = s.sessions
  kept : ∀ p ∈ s.process, ∀ b ∈ s.previousLog.getD [], b.1 + 1 = s.sessions
  enabled : ∀ p ∈ s.process, p.options.enableSessionLog = true
  jobs : ∀ p ∈ s.process, ∀ job ∈ p.worker.queue, job.logFromPrevious = false → s.Own job

/-- What a step may do to a worker's queue: jobs may go, or be tried again; a new one is for the
kept log, or a report of this session. -/
def QueueGrows (s' : State) (w w' : Worker) : Prop :=
  ∀ job ∈ w'.queue, (∃ j ∈ w.queue, j.origin = job.origin ∧ j.logFromPrevious = job.logFromPrevious) ∨
    job.logFromPrevious = true ∨ s'.Own job

/-- A step that touches no log. -/
structure Quiet (s : State) (p : Process) (s' : State) : Prop where
  log : s'.log = s.log
  previousLog : s'.previousLog = s.previousLog
  sessions : s'.sessions = s.sessions
  uploads : s'.uploads = s.uploads
  reports : ∃ new, s'.reports = s.reports ++ new
  process : ∀ p' ∈ s'.process, p'.options = p.options ∧ QueueGrows s' p.worker p'.worker

theorem queueGrows_subset {s' : State} {w w' : Worker} (h : ∀ job ∈ w'.queue, job ∈ w.queue) :
    QueueGrows s' w w' := fun job hjob => .inl ⟨job, h job hjob, rfl, rfl⟩

theorem queueGrows_enqueue {s' : State} {w : Worker} {job : UploadJob}
    (h : job.logFromPrevious = true ∨ s'.Own job) : QueueGrows s' w (w.enqueue job) := by
  intro j hj
  rcases Worker.mem_enqueue hj with hold | rfl
  · exact .inl ⟨j, hold, rfl, rfl⟩
  · exact .inr h

/-- Reports are only added, so whom an old one is about stays. -/
theorem own_append {s s' : State} {job : UploadJob} (h : s.Own job)
    (hreports : ∃ new, s'.reports = s.reports ++ new) (hsessions : s'.sessions = s.sessions) :
    s'.Own job := by
  obtain ⟨new, hnew⟩ := hreports
  refine ⟨?_, ?_⟩
  · rw [hnew, List.length_append]
    exact Nat.lt_add_right _ h.1
  · rw [hsessions, ← h.2, State.subjectOf, State.subjectOf, hnew,
      List.getElem?_append_left h.1]

theorem LogOwned.quiet {s s' : State} {p : Process} (hs : LogOwned s) (hp : s.process = some p)
    (h : Quiet s p s') : LogOwned s' := by
  constructor
  · rw [h.log, h.sessions]
    exact hs.current
  · rw [h.previousLog, h.sessions]
    exact fun _ _ => hs.kept p hp
  · intro p' hp'
    rw [(h.process p' hp').1]
    exact hs.enabled p hp
  · intro p' hp' job hjob hcurrent
    rcases (h.process p' hp').2 job hjob with ⟨j, hj, horigin, hfrom⟩ | hprevious | hown
    · have hjown := hs.jobs p hp j hj (hfrom.trans hcurrent)
      have hjob := own_append hjown h.reports h.sessions
      rwa [State.Own, reportOf, horigin] at hjob
    · rw [hcurrent] at hprevious
      cases hprevious
    · exact hown

/-! ## The steps -/

theorem enqueueIngest_quiet (s : State) (p : Process) (kind : SidecarKind)
    (body : Runtime.ReportBody) (requestLog logFromPrevious : Bool) (info : ReportInfo)
    (name : FileName) (h : logFromPrevious = true ∨ info.subject = s.sessions) :
    Quiet s p (enqueueIngest s p kind body requestLog logFromPrevious info name) := by
  refine ⟨rfl, rfl, rfl, rfl, ⟨[info], rfl⟩, fun p' hp' => ?_⟩
  obtain rfl := Option.some.inj hp'
  refine ⟨rfl, queueGrows_enqueue ?_⟩
  rcases h with hprevious | hsubject
  · exact .inl hprevious
  · refine .inr ⟨?_, ?_⟩
    · show s.reports.length < (s.reports ++ [info]).length
      rw [List.length_append]
      exact Nat.lt_add_one _
    · show ((s.reports ++ [info])[s.reports.length]?.map ReportInfo.subject).getD 0 = s.sessions
      rw [List.getElem?_concat_length]
      exact hsubject

theorem quiet_same {s s' : State} {p p' : Process} (hprocess : s'.process = some p')
    (hlog : s'.log = s.log) (hprevious : s'.previousLog = s.previousLog)
    (hsessions : s'.sessions = s.sessions) (huploads : s'.uploads = s.uploads)
    (hreports : s'.reports = s.reports) (hoptions : p'.options = p.options)
    (hjobs : ∀ job ∈ p'.worker.queue, job ∈ p.worker.queue) : Quiet s p s' := by
  refine ⟨hlog, hprevious, hsessions, huploads, ⟨[], by rw [hreports, List.append_nil]⟩, ?_⟩
  intro q hq
  rw [hprocess] at hq
  obtain rfl := Option.some.inj hq
  exact ⟨hoptions, queueGrows_subset hjobs⟩

theorem quiet_ended {s s' : State} {p : Process} (hprocess : s'.process = none)
    (hlog : s'.log = s.log) (hprevious : s'.previousLog = s.previousLog)
    (hsessions : s'.sessions = s.sessions) (huploads : s'.uploads = s.uploads)
    (hreports : s'.reports = s.reports) : Quiet s p s' := by
  refine ⟨hlog, hprevious, hsessions, huploads, ⟨[], by rw [hreports, List.append_nil]⟩, ?_⟩
  intro q hq
  rw [hprocess] at hq
  cases hq

/-- What went before touched neither the logs nor the worker. -/
theorem Quiet.after {s t s' : State} {p q : Process} (h : Quiet t q s') (hlog : t.log = s.log)
    (hprevious : t.previousLog = s.previousLog) (hsessions : t.sessions = s.sessions)
    (huploads : t.uploads = s.uploads) (hreports : t.reports = s.reports)
    (hoptions : q.options = p.options) (hworker : q.worker = p.worker) : Quiet s p s' := by
  refine ⟨h.log.trans hlog, h.previousLog.trans hprevious, h.sessions.trans hsessions,
    h.uploads.trans huploads, hreports ▸ h.reports, fun p' hp' => ?_⟩
  obtain ⟨hp, hqueue⟩ := h.process p' hp'
  exact ⟨hp.trans hoptions, hworker ▸ hqueue⟩

theorem startSessionTracking_quiet (s : State) (p : Process) (body : Runtime.ReportBody)
    (name : FileName) : Quiet s p (startSessionTracking s p body name) := by
  unfold startSessionTracking
  split
  · exact quiet_same rfl rfl rfl rfl rfl rfl rfl fun _ => id
  · dsimp only
    split
    · exact quiet_same rfl rfl rfl rfl rfl rfl rfl fun _ => id
    · unfold reportUncleanShutdown
      split
      · exact quiet_same rfl rfl rfl rfl rfl rfl rfl fun _ => id
      · exact (enqueueIngest_quiet _ _ .crash body _ true _ name (.inl rfl)).after rfl rfl rfl rfl
          rfl rfl rfl

theorem drainSidecars_quiet (s : State) (p : Process) : Quiet s p (drainSidecars s p) := by
  refine ⟨rfl, rfl, rfl, rfl, ⟨[], (List.append_nil _).symm⟩, fun p' hp' => ?_⟩
  obtain rfl := Option.some.inj hp'
  refine ⟨rfl, ?_⟩
  show QueueGrows _ p.worker (s.sidecars.scan.foldl _ p.worker)
  generalize s.sidecars.scan = records
  intro job hjob
  -- a drained job is for the kept log
  have hfold : ∀ (records : List SidecarRecord) (w : Worker),
      job ∈ (records.foldl (fun w r => w.enqueue
        (Runtime.restoredJob { endpoint := p.options.endpoint } r)) w).queue →
      job ∈ w.queue ∨ job.logFromPrevious = true := by
    intro records
    induction records with
    | nil => exact fun w h => .inl h
    | cons r rs ih =>
      intro w h
      rcases ih _ h with h | h
      · rcases Worker.mem_enqueue h with h | rfl
        · exact .inl h
        · exact .inr rfl
      · exact .inr h
  rcases hfold records p.worker hjob with h | h
  · exact .inl ⟨job, h, rfl, rfl⟩
  · exact .inr (.inl h)

instance (s : State) (p : Process) (job : UploadJob) (response : HttpResponse) :
    Decidable (Fills s p job response) :=
  inferInstanceAs (Decidable (_ ∧ _ ∧ _ ∧ _ ∧ _))

/-- **What a response does to the logs**: nothing, but for the upload of a slot that it fills. -/
theorem handlePostResult_logs (s : State) (p : Process) (job : UploadJob) (response : HttpResponse)
    (name : FileName) :
    (handlePostResult s p job response name).log = s.log ∧
    (handlePostResult s p job response name).previousLog = s.previousLog ∧
    (handlePostResult s p job response name).sessions = s.sessions ∧
    (handlePostResult s p job response name).reports = s.reports ∧
    (handlePostResult s p job response name).uploads = s.uploads ++
      if Fills s p job response then
        [⟨s.subjectOf (reportOf job), readLog s p job.logFromPrevious⟩] else [] := by
  unfold handlePostResult
  cases hout : response.outcome with
  | poison =>
    have hno : ¬ Fills s p job response := fun h => by rw [Fills, hout] at h; cases h.1
    rw [if_neg hno]
    exact ⟨rfl, rfl, rfl, rfl, (List.append_nil _).symm⟩
  | transient =>
    have hno : ¬ Fills s p job response := fun h => by rw [Fills, hout] at h; cases h.1
    rw [if_neg hno]
    dsimp only
    split_ifs <;> exact ⟨rfl, rfl, rfl, rfl, (List.append_nil _).symm⟩
  | delivered =>
    dsimp only
    by_cases hreq : job.requestLog = true
    · rw [if_pos hreq]
      unfold scheduleLogUpload
      by_cases hslot : ((JsonScan.findLogUpload response.body).isNone
          || (job.logFromPrevious && p.worker.previousLogClaimed)) = true
      · -- no slot was granted, or the kept log is claimed
        have hno : ¬ Fills s p job response := by
          rintro ⟨-, -, hgrant, hclaim, -⟩
          rw [hclaim, Bool.or_false, Option.isNone_iff_eq_none] at hslot
          rw [hslot] at hgrant
          cases hgrant
        rw [if_pos hslot, if_neg hno]
        exact ⟨rfl, rfl, rfl, rfl, (List.append_nil _).symm⟩
      · rw [if_neg hslot]
        rw [Bool.or_eq_true, not_or, Bool.not_eq_true, Bool.not_eq_true] at hslot
        dsimp only
        split
        · -- there is nothing to upload
          rename_i hempty
          have hno : ¬ Fills s p job response := fun h => h.2.2.2.2 (List.isEmpty_iff.1 hempty)
          rw [if_neg hno]
          exact ⟨rfl, rfl, rfl, rfl, (List.append_nil _).symm⟩
        · -- the slot is filled
          rename_i hlog
          have hgrant : (JsonScan.findLogUpload response.body).isSome = true := by
            rw [← Option.not_isNone, hslot.1, Bool.not_false]
          have hfills : Fills s p job response :=
            ⟨hout, hreq, hgrant, hslot.2, fun h => hlog (List.isEmpty_iff.2 h)⟩
          rw [if_pos hfills]
          exact ⟨rfl, rfl, rfl, rfl, rfl⟩
    · have hno : ¬ Fills s p job response := fun h => hreq h.2.1
      rw [if_neg hreq, if_neg hno]
      exact ⟨rfl, rfl, rfl, rfl, (List.append_nil _).symm⟩

/-- The job that was posted may come back for another try; nothing else is queued. -/
theorem handlePostResult_queue (s : State) (p : Process) (job : UploadJob)
    (response : HttpResponse) (name : FileName) :
    ∀ p' ∈ (handlePostResult s p job response name).process, p'.options = p.options ∧
      ∀ j ∈ p'.worker.queue, j ∈ p.worker.queue ∨
        j.origin = job.origin ∧ j.logFromPrevious = job.logFromPrevious := by
  have hsame : ∀ {s' : State} {p₁ : Process}, s'.process = some p₁ → p₁.options = p.options →
      p₁.worker.queue = p.worker.queue → ∀ p' ∈ s'.process, p'.options = p.options ∧
        ∀ j ∈ p'.worker.queue, j ∈ p.worker.queue ∨
          j.origin = job.origin ∧ j.logFromPrevious = job.logFromPrevious := by
    intro s' p₁ hprocess hoptions hqueue p' hp'
    rw [hprocess] at hp'
    obtain rfl := Option.some.inj hp'
    exact ⟨hoptions, fun j hj => .inl (hqueue ▸ hj)⟩
  unfold handlePostResult scheduleLogUpload
  split
  · dsimp only
    split_ifs <;> exact hsame rfl rfl rfl
  · exact hsame rfl rfl rfl
  · dsimp only
    split_ifs
    · intro p' hp'
      obtain rfl := Option.some.inj hp'
      refine ⟨rfl, fun j hj => ?_⟩
      rcases Worker.mem_enqueue hj with hj | rfl
      · exact .inl hj
      · exact .inr ⟨rfl, rfl⟩
    · exact hsame rfl rfl rfl
    · exact hsame rfl rfl rfl

theorem LogOwned.respond {s : State} {p : Process} {i : Nat} {job : UploadJob}
    (hs : LogOwned s) (hp : s.process = some p) (hjob : p.worker.queue[i]? = some job)
    (response : HttpResponse) (name : FileName) :
    LogOwned (handlePostResult s (p.take i) job response name) := by
  obtain ⟨hlog, hprevious, hsessions, hreports, -⟩ :=
    handlePostResult_logs s (p.take i) job response name
  have hqueue := handlePostResult_queue s (p.take i) job response name
  generalize handlePostResult s (p.take i) job response name = s'
    at hlog hprevious hsessions hreports hqueue
  have hquiet : Quiet s p { s' with uploads := s.uploads } := by
    refine ⟨hlog, hprevious, hsessions, rfl, ⟨[], by rw [List.append_nil]; exact hreports⟩, ?_⟩
    intro p' hp'
    obtain ⟨hoptions, hjobs⟩ := hqueue p' hp'
    refine ⟨hoptions, fun j hj => ?_⟩
    rcases hjobs j hj with hkept | ⟨horigin, hfrom⟩
    · exact .inl ⟨j, List.mem_of_mem_eraseIdx hkept, rfl, rfl⟩
    · exact .inl ⟨job, List.mem_of_getElem? hjob, horigin.symm, hfrom.symm⟩
  have howned := hs.quiet hp hquiet
  exact ⟨howned.current, howned.kept, howned.enabled, howned.jobs⟩

theorem finishInit_quiet (s : State) (p : Process) (body : Runtime.ReportBody)
    (name : FileName) : Quiet s p (finishInit s p body name) := by
  unfold finishInit
  cases p.consent with
  | true =>
    exact (startSessionTracking_quiet s { p with phase := .ready, consent := true, consented := true }
      body name).after rfl rfl rfl rfl rfl rfl rfl
  | false => exact quiet_same rfl rfl rfl rfl rfl rfl rfl fun _ => id

theorem setConsent_quiet (s : State) (p : Process) (granted : Bool) (body : Runtime.ReportBody)
    (name : FileName) : Quiet s p (setConsent s p granted body name) := by
  unfold setConsent
  cases granted with
  | true =>
    exact (startSessionTracking_quiet s
      { p with consent := true, consented := p.consented || true } body name).after rfl rfl rfl rfl
      rfl rfl rfl
  | false => exact quiet_same rfl rfl rfl rfl rfl rfl rfl fun _ => id

/-- The labels of the log's own writes, and of the responses. -/
def Label.logging : Label → Prop
  | .writeLog _ | .trimLog _ | .respond _ _ _ => True
  | _ => False

theorem stepProcess_quiet {s s' : State} {p : Process} {l : Label}
    (hl : ¬ l.logging) (h : stepProcess s p l = some s') : Quiet s p s' := by
  cases l with
  | launch o marker => cases h
  | drain =>
    obtain ⟨-, h⟩ := Option.ite_none_right_eq_some.1 h
    obtain rfl := Option.some.inj h
    exact drainSidecars_quiet s p
  | finishInit body name =>
    obtain ⟨-, h⟩ := Option.ite_none_right_eq_some.1 h
    obtain rfl := Option.some.inj h
    exact finishInit_quiet s p body name
  | setConsent granted body name =>
    obtain ⟨-, h⟩ := Option.ite_none_right_eq_some.1 h
    obtain rfl := Option.some.inj h
    exact setConsent_quiet s p granted body name
  | report bug body attachLog name =>
    obtain ⟨-, h⟩ := Option.ite_none_right_eq_some.1 h
    obtain rfl := Option.some.inj h
    exact enqueueIngest_quiet s p _ body _ false _ name (.inr rfl)
  | writeLog text => exact absurd trivial hl
  | trimLog n => exact absurd trivial hl
  | respond i response name => exact absurd trivial hl
  | dropOldest =>
    obtain rfl := Option.some.inj h
    exact quiet_same rfl rfl rfl rfl rfl rfl rfl fun _ => List.mem_of_mem_drop
  | shutdown names =>
    obtain ⟨-, h⟩ := Option.ite_none_right_eq_some.1 h
    obtain rfl := Option.some.inj h
    exact quiet_ended rfl rfl rfl rfl rfl rfl
  | die dump =>
    obtain rfl := Option.some.inj h
    exact quiet_ended rfl rfl rfl rfl rfl rfl

theorem logOwned_step {s s' : State} {l : Label} (hl : l.logs) (hs : LogOwned s)
    (h : step s l = some s') : LogOwned s' := by
  cases hp : s.process with
  | none =>
    obtain ⟨o, marker, rfl, rfl⟩ := step_launch hp h
    have hon : o.enableSessionLog = true := hl
    -- the log of the session before is kept, and no other
    constructor
    · simp [configure, hon]
    · intro p' _ b hb
      have hb' : b ∈ s.log.getD [] := by simpa [configure, hon] using hb
      exact congrArg (· + 1) (hs.current b hb')
    · intro p' hp'
      obtain rfl := Option.some.inj hp'
      exact hon
    · intro p' hp' job hjob
      obtain rfl := Option.some.inj hp'
      cases hjob
  | some p =>
    have hstep := step_running hp h
    by_cases hlogging : l.logging
    · cases l with
      | respond i response name =>
        obtain ⟨job, hjob, rfl⟩ := Option.map_eq_some_iff.1 hstep
        exact hs.respond hp hjob response name
      | writeLog text =>
        obtain ⟨-, hstep⟩ := Option.ite_none_right_eq_some.1 hstep
        obtain rfl := Option.some.inj hstep
        refine ⟨fun b hb => ?_, hs.kept, hs.enabled, hs.jobs⟩
        rcases List.mem_append.1 hb with hold | hnew
        · exact hs.current b hold
        · obtain ⟨c, -, rfl⟩ := List.mem_map.1 hnew
          rfl
      | trimLog n =>
        obtain ⟨-, hstep⟩ := Option.ite_none_right_eq_some.1 hstep
        obtain rfl := Option.some.inj hstep
        refine ⟨fun b hb => hs.current b ?_, hs.kept, hs.enabled, hs.jobs⟩
        cases hlog : s.log with
        | none =>
          rw [hlog] at hb
          exact hb
        | some log =>
          rw [hlog] at hb
          exact List.mem_of_mem_drop hb
      | _ => exact hlogging.elim
    · exact hs.quiet hp (stepProcess_quiet hlogging hstep)

/-! ## Whose log is uploaded -/

/-- A slot is filled with the report's own log just when it is not the kept one, or the report
is about the session before. -/
theorem filled_own {s : State} {p : Process} {i : Nat} {job : UploadJob}
    {response : HttpResponse} (hs : LogOwned s) (hp : s.process = some p)
    (hjob : p.worker.queue[i]? = some job) (hfills : Fills s p job response) :
    (∀ b ∈ readLog s p job.logFromPrevious, b.1 = s.subjectOf (reportOf job)) ↔
      (job.logFromPrevious = true → s.subjectOf (reportOf job) + 1 = s.sessions) := by
  have hlog := hfills.2.2.2.2
  unfold readLog at hlog ⊢
  rw [hs.enabled p hp] at hlog ⊢
  simp only [Bool.not_true, Bool.false_eq_true, if_false] at hlog ⊢
  cases hfrom : job.logFromPrevious with
  | false =>
    -- a report of this session gets this session's log
    obtain ⟨-, hsubject⟩ := hs.jobs p hp job (List.mem_of_getElem? hjob) hfrom
    refine iff_of_true (fun b hb => ?_) nofun
    rw [hsubject]
    exact hs.current b hb
  | true =>
    simp only [hfrom, if_true, forall_const] at hlog ⊢
    constructor
    · -- the kept log is not empty, and all of it is of the session before
      intro hown
      obtain ⟨b, hb⟩ := List.exists_mem_of_ne_nil _ hlog
      rw [← hown b hb]
      exact hs.kept p hp b hb
    · intro hlast b hb
      have hb := hs.kept p hp b hb
      omega

/-- **One step**: uploaded logs stay their reports' own just when a slot filled with the kept log
is that of a report about the session before. -/
theorem ownLog_step {s s' : State} {l : Label} (hs : LogOwned s) (hlaw : OwnLog s)
    (h : step s l = some s') : OwnLog s' ↔ FromLastSession s l := by
  have hkeep : s'.uploads = s.uploads → OwnLog s' := fun huploads u hu => hlaw u (huploads ▸ hu)
  cases hp : s.process with
  | none =>
    obtain ⟨o, marker, rfl, rfl⟩ := step_launch hp h
    exact iff_of_true hlaw trivial
  | some p =>
    have hstep := step_running hp h
    by_cases hlogging : l.logging
    · cases l with
      | respond i response name =>
        obtain ⟨job, hjob, rfl⟩ := Option.map_eq_some_iff.1 hstep
        have huploads : (handlePostResult s (p.take i) job response name).uploads = s.uploads ++
            if Fills s p job response then
              [⟨s.subjectOf (reportOf job), readLog s p job.logFromPrevious⟩] else [] :=
          (handlePostResult_logs s (p.take i) job response name).2.2.2.2
        unfold FromLastSession
        simp only [hp, hjob, Option.mem_some_iff, forall_eq']
        by_cases hfills : Fills s p job response
        · rw [if_pos hfills] at huploads
          simp only [hfills, forall_const]
          rw [← filled_own hs hp hjob hfills]
          constructor
          · intro hown
            exact hown ⟨_, _⟩ (huploads ▸ List.mem_append_right _ (List.mem_singleton.2 rfl))
          · intro hown u hu
            rw [huploads] at hu
            rcases List.mem_append.1 hu with hold | hnew
            · exact hlaw u hold
            · obtain rfl := List.mem_singleton.1 hnew
              exact hown
        · rw [if_neg hfills, List.append_nil] at huploads
          exact iff_of_true (hkeep huploads) fun hf => absurd hf hfills
      | writeLog text =>
        obtain ⟨-, hstep⟩ := Option.ite_none_right_eq_some.1 hstep
        obtain rfl := Option.some.inj hstep
        exact iff_of_true hlaw trivial
      | trimLog n =>
        obtain ⟨-, hstep⟩ := Option.ite_none_right_eq_some.1 hstep
        obtain rfl := Option.some.inj hstep
        exact iff_of_true hlaw trivial
      | _ => exact hlogging.elim
    · refine iff_of_true (hkeep (stepProcess_quiet hlogging hstep).uploads) ?_
      cases l with
      | respond i response name => exact absurd trivial hlogging
      | _ => trivial

theorem logOwned_start : LogOwned {} := by
  constructor
  · intro b hb
    cases hb
  · intro p hp
    cases hp
  · intro p hp
    cases hp
  · intro p hp
    cases hp

/-- **A report's log is its own session's log**, in every history of launches with the session
log on, exactly where the kept log is only handed to reports about the session just before. -/
theorem own_log_iff (ls : List Label) (hls : ∀ l ∈ ls, l.logs) :
    Run.AllStates step OwnLog {} ls ↔
      Run.AllSteps step (fun s l _ => FromLastSession s l) {} ls :=
  Run.allStates_iff_allSteps_of_labels (A := Label.logs) (I := LogOwned)
    (fun _ _ _ hl hs h => logOwned_step hl hs h)
    (fun _ _ _ _ hs hlaw h => ownLog_step hs hlaw h) ls ({} : State) hls logOwned_start nofun

instance (s : State) : Decidable (OwnLog s) :=
  inferInstanceAs (Decidable (∀ u ∈ s.uploads, ∀ b ∈ u.bytes, b.1 = u.subject))

instance (s : State) : DecidablePred (FromLastSession s)
  | .respond i response _ => inferInstanceAs (Decidable (∀ p ∈ s.process,
      ∀ job ∈ p.worker.queue[i]?, Fills s p job response → job.logFromPrevious = true →
        s.subjectOf (reportOf job) + 1 = s.sessions))
  | .launch _ _ | .drain | .finishInit _ _ | .setConsent _ _ _ | .report _ _ _ _ | .writeLog _
  | .trimLog _ | .dropOldest | .shutdown _ | .die _ => .isTrue trivial

instance : DecidablePred Label.logs
  | .launch o _ => inferInstanceAs (Decidable (o.enableSessionLog = true))
  | .drain | .finishInit _ _ | .setConsent _ _ _ | .report _ _ _ _ | .writeLog _ | .trimLog _
  | .respond _ _ _ | .dropOldest | .shutdown _ | .die _ => .isTrue trivial

/-- A launch, to the end of `init`, and one line in its log; a report it makes gets this name. -/
def loggedLaunch (stem line : Bytes) : List Label :=
  [.launch {} { sessionId := lit "a" }, .drain,
    .finishInit ⟨_, emptyObject_ne_nil⟩ { stem }, .writeLog line]

/-- A crash that asks for a log slot, in a session that then dies. -/
def crashPending : List Label :=
  loggedLaunch (lit "0") (lit "x") ++
    [.report false ⟨lit "\x7b\"log\":true\x7d", by decide⟩ true { stem := lit "1" }, .die none]

/-- The oldest report is delivered, and granted a slot. -/
def granted : Label :=
  .respond 0
    { transportError := false, status := 201
      body := lit "\x7b\"logUpload\":\x7b\"url\":\"u\",\"method\":\"PUT\"\x7d\x7d" }
    { stem := lit "9" }

/-- Delivered by the launch after it, the crash gets its own session's log. -/
theorem crashPending_own :
    Run.AllStates step OwnLog {} (crashPending ++ loggedLaunch (lit "2") (lit "y") ++ [granted]) :=
  (own_log_iff (crashPending ++ loggedLaunch (lit "2") (lit "y") ++ [granted]) (by decide)).mpr
    (by decide +kernel)

/-- Delivered one launch later, it gets the log of the session in between. -/
theorem crashPending_other :
    ¬ ∀ ls : List Label, (∀ l ∈ ls, l.logs) → Run.AllStates step OwnLog {} ls := by
  intro hall
  have hfails : ¬ Run.AllStates step OwnLog {} (crashPending
      ++ loggedLaunch (lit "2") (lit "y") ++ [.die none] ++ loggedLaunch (lit "3") (lit "z")
      ++ [granted]) := by
    decide +kernel
  exact hfails (hall _ (by decide))

end Tombstone.Launches
