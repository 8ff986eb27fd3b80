import Tombstone.Overlap
import Tombstone.UncleanReports

/- How often a session is reported as unclean (`client.cpp`: `start_session_tracking`,
   `report_unclean_shutdown`; `session_marker.cpp`).

   The mark of a session passes from the marker file to the launch that finds it, and from there
   to the report that is made of it; each of these steps takes it away where it was. So, over any
   number of launches, whatever the options and wherever a process dies (also after it has written
   its own marker and before it has reported the one it found, `Move.dieTracking`):

   1. no session is reported as unclean twice, and no session reports two others;
   2. a session that was shut down is never reported as unclean (`suspectedOnce`).

   That holds of sessions that do not overlap, and whose removals succeed. A client that is launched
   while another one still runs finds its marker, and a marker that could not be removed is found
   again. So the result is stated over sessions that may do this, for the runs in which they do not
   (`unclean_reported_once`). -/
namespace Tombstone.Launches

open Tombstone.Runtime (ReportBody)

variable {s s' : State} {p p' : Process} {l : Label} {n : Nat}

/-! ## Where the mark of a session is -/

/-- The reports that one session made of another. -/
def State.uncleanReports (s : State) : List ReportInfo :=
  s.reports.filter fun info => info.author != info.subject

/-- The session whose marker is on disk. -/
def State.marked (s : State) : List Nat := (s.marker.map MarkerFile.session).toList

/-- The session whose marker this process has found, until it is reported. -/
def State.foundMarked (s : State) : List Nat :=
  (s.process.bind fun p => p.previousMarker.map Prod.snd).toList

/-- The sessions that are, or may yet be, reported as unclean. -/
def State.suspects (s : State) : List Nat :=
  s.marked ++ s.foundMarked ++ s.uncleanReports.map ReportInfo.subject

/-- **What a step does to the marks.** -/
inductive Passes (s : State) : State → Prop
  /-- A launch takes the marker from the disk, and may keep what it says. -/
  | launched (s' : State) (hp : s.process = none) (sessions : s'.sessions = s.sessions + 1)
      (marker : s'.marked = []) (found : s'.foundMarked.Sublist s.marked)
      (reports : s'.reports = s.reports) : Passes s s'
  /-- Tracking begins: this session is marked, and the found one reported or dropped. -/
  | tracked (s' : State) (p : Process) (made : Option ReportInfo) (hp : s.process = some p)
      (unstarted : p.sessionTrackingStarted = false)
      (started : ∀ p' ∈ s'.process, p'.sessionTrackingStarted = true)
      (sessions : s'.sessions = s.sessions) (marker : s'.marked = [s.sessions])
      (found : s'.foundMarked = []) (reports : s'.reports = s.reports ++ made.toList)
      (of : ∀ info ∈ made, info.author = s.sessions ∧ info.subject ∈ s.foundMarked) : Passes s s'
  /-- Any other step only takes marks away; a report is the session's own. -/
  | kept (s' : State) (p : Process) (own : List ReportInfo) (hp : s.process = some p)
      (started : ∀ p' ∈ s'.process, p'.sessionTrackingStarted = p.sessionTrackingStarted)
      (sessions : s'.sessions = s.sessions) (marker : s'.marked.Sublist s.marked)
      (found : s'.foundMarked.Sublist s.foundMarked) (reports : s'.reports = s.reports ++ own)
      (authors : ∀ info ∈ own, info.author = info.subject) : Passes s s'

theorem configure_passes (hp : s.process = none) (o : InitOptions) (marker : SessionMarkerData) :
    Passes s (configure s o marker) := by
  refine .launched _ hp rfl rfl ?_ rfl
  cases hon : o.enableUncleanShutdownDetection with
  | false => simp [State.foundMarked, configure, hon]
  | true =>
    cases hm : s.marker with
    | none => simp [State.foundMarked, configure, hon, hm]
    | some file =>
      cases hread : file.read with
      | none => simp [State.foundMarked, configure, hon, hm, hread]
      | some data => simp [State.foundMarked, State.marked, configure, hon, hm, hread]

theorem kept_process (hp : s.process = some p) (hp' : s'.process = some p')
    (started : p'.sessionTrackingStarted = p.sessionTrackingStarted)
    (found : p'.previousMarker = p.previousMarker) (sessions : s'.sessions = s.sessions)
    (marker : s'.marker = s.marker) (reports : s'.reports = s.reports) : Passes s s' := by
  refine .kept s' p [] hp ?_ sessions ?_ ?_ (by rw [reports, List.append_nil])
    fun _ h => absurd h List.not_mem_nil
  · intro q hq
    rw [hp'] at hq
    exact Option.some.inj hq ▸ started
  · rw [State.marked, State.marked, marker]
  · rw [State.foundMarked, State.foundMarked, hp, hp', Option.bind_some, Option.bind_some, found]

theorem ended_passes (hp : s.process = some p) (hp' : s'.process = none)
    (sessions : s'.sessions = s.sessions) (marker : s'.marked.Sublist s.marked)
    (reports : s'.reports = s.reports) : Passes s s' := by
  refine .kept s' p [] hp ?_ sessions marker ?_ (by rw [reports, List.append_nil])
    fun _ h => absurd h List.not_mem_nil
  · intro q hq
    rw [hp'] at hq
    cases hq
  · rw [State.foundMarked, hp']
    exact List.nil_sublist _

theorem startSessionTracking_passes (hp : s.process = some p') (body : ReportBody)
    (name : FileName) (hstarted : p'.sessionTrackingStarted = p.sessionTrackingStarted)
    (hfound : p'.previousMarker = p.previousMarker) : Passes s (startSessionTracking s p body name) := by
  unfold startSessionTracking
  by_cases hoff : (p.sessionTrackingStarted || !p.options.enableUncleanShutdownDetection) = true
  · rw [if_pos hoff]
    refine .kept _ p' [] hp ?_ rfl (List.Sublist.refl _) ?_ (List.append_nil _).symm
      fun _ h => absurd h List.not_mem_nil
    · intro q hq
      exact Option.some.inj hq ▸ hstarted.symm
    · simp [State.foundMarked, hp, hfound]
  · rw [if_neg hoff]
    have hunstarted : p'.sessionTrackingStarted = false := by
      rw [hstarted]
      exact Bool.eq_false_iff.2 fun h => hoff (by rw [h, Bool.true_or])
    cases hm : p.previousMarker with
    | none =>
      refine .tracked _ p' none hp hunstarted ?_ rfl rfl ?_ (List.append_nil _).symm ?_
      · exact fun q hq => Option.some.inj hq ▸ rfl
      · simp [State.foundMarked]
      · exact fun _ h => absurd h (Option.not_mem_none _)
    | some found =>
      obtain ⟨data, previous⟩ := found
      unfold reportUncleanShutdown
      cases hcrash : p.hasRestoredCrash with
      | true =>
        refine .tracked _ p' none hp hunstarted ?_ rfl rfl ?_ (List.append_nil _).symm ?_
        · exact fun q hq => Option.some.inj hq ▸ rfl
        · simp [State.foundMarked]
        · exact fun _ h => absurd h (Option.not_mem_none _)
      | false =>
        refine .tracked _ p' (some ⟨s.sessions, previous, p.previousNativeDump⟩) hp hunstarted ?_ rfl
          rfl rfl rfl ?_
        · exact fun q hq => Option.some.inj hq ▸ rfl
        · simp [State.foundMarked, hp, hfound, hm]

/-- A final or a failed response changes neither the marker nor the reports. -/
theorem handlePostResult_kept (s : State) (p : Process) (job : UploadJob) (response : HttpResponse)
    (name : FileName) :
    (handlePostResult s p job response name).sessions = s.sessions ∧
    (handlePostResult s p job response name).marker = s.marker ∧
    (handlePostResult s p job response name).reports = s.reports := by
  unfold handlePostResult scheduleLogUpload
  split
  · dsimp only
    split_ifs <;> exact ⟨rfl, rfl, rfl⟩
  · exact ⟨rfl, rfl, rfl⟩
  · split_ifs <;> exact ⟨rfl, rfl, rfl⟩

theorem step_passes (h : step s l = some s') : Passes s s' := by
  cases hp : s.process with
  | none =>
    obtain ⟨o, marker, rfl, rfl⟩ := step_launch hp h
    exact configure_passes hp o marker
  | some p =>
    have hs := step_running hp h
    cases l with
    | launch o marker => cases hs
    | drain =>
      obtain ⟨-, hs⟩ := Option.ite_none_right_eq_some.1 hs
      obtain rfl := Option.some.inj hs
      refine .kept _ p [] hp ?_ rfl (List.Sublist.refl _) ?_ (List.append_nil _).symm
        fun _ h => absurd h List.not_mem_nil
      · exact fun q hq => Option.some.inj hq ▸ rfl
      · simp [State.foundMarked, drainSidecars, hp]
    | finishInit body name =>
      obtain ⟨-, hs⟩ := Option.ite_none_right_eq_some.1 hs
      obtain rfl := Option.some.inj hs
      unfold finishInit
      cases hc : p.consent with
      | true => exact startSessionTracking_passes hp body name rfl rfl
      | false => exact kept_process hp rfl rfl rfl rfl rfl rfl
    | setConsent granted body name =>
      obtain ⟨-, hs⟩ := Option.ite_none_right_eq_some.1 hs
      obtain rfl := Option.some.inj hs
      unfold setConsent
      cases granted with
      | true => exact startSessionTracking_passes hp body name rfl rfl
      | false => exact kept_process hp rfl rfl rfl rfl rfl rfl
    | report bug body attachLog name =>
      obtain ⟨-, hs⟩ := Option.ite_none_right_eq_some.1 hs
      obtain rfl := Option.some.inj hs
      refine .kept _ p [⟨s.sessions, s.sessions, none⟩] hp ?_ rfl (List.Sublist.refl _) ?_ rfl ?_
      · exact fun q hq => Option.some.inj hq ▸ rfl
      · simp [State.foundMarked, enqueueIngest, hp]
      · simp
    | writeLog text =>
      obtain ⟨-, hs⟩ := Option.ite_none_right_eq_some.1 hs
      obtain rfl := Option.some.inj hs
      exact kept_process hp hp rfl rfl rfl rfl rfl
    | trimLog n =>
      obtain ⟨-, hs⟩ := Option.ite_none_right_eq_some.1 hs
      obtain rfl := Option.some.inj hs
      exact kept_process hp hp rfl rfl rfl rfl rfl
    | respond i response name =>
      obtain ⟨job, -, rfl⟩ := Option.map_eq_some_iff.1 hs
      obtain ⟨w, hw⟩ := handlePostResult_process s (p.take i) job response name
      obtain ⟨hsessions, hmarker, hreports⟩ := handlePostResult_kept s (p.take i) job response name
      exact kept_process hp hw rfl rfl hsessions hmarker hreports
    | dropOldest =>
      obtain rfl := Option.some.inj hs
      exact kept_process hp rfl rfl rfl rfl rfl rfl
    | shutdown names =>
      obtain ⟨-, hs⟩ := Option.ite_none_right_eq_some.1 hs
      obtain rfl := Option.some.inj hs
      exact ended_passes hp rfl rfl (List.nil_sublist _) rfl
    | die dump =>
      obtain rfl := Option.some.inj hs
      exact ended_passes hp rfl rfl (List.Sublist.refl _) rfl

/-! ## Deaths while tracking begins -/

/-- What a session does: its steps; and a death while tracking begins, after its own marker is
written and before the found one is reported. -/
inductive Move where
  | step (l : Label)
  | dieTracking (dump : Option Bytes)
  deriving DecidableEq

def move (s : State) : Move → Option State
  | .step l => step s l
  | .dieTracking dump => s.process.bind fun p =>
      if (p.phase = .ready ∨ p.phase = .drained ∧ p.consent = true) ∧
          p.sessionTrackingStarted = false ∧ p.options.enableUncleanShutdownDetection = true then
        some { s with
          marker := some { text := markerText p.marker, session := s.sessions }
          dump := if p.options.enableNativeCrashHandler then dump.or s.dump else s.dump
          process := none }
      else none

theorem move_passes {m : Move} (h : move s m = some s') : Passes s s' := by
  cases m with
  | step l => exact step_passes h
  | dieTracking dump =>
    obtain ⟨p, hp, h⟩ := Option.bind_eq_some_iff.1 h
    obtain ⟨⟨-, hunstarted, -⟩, h⟩ := Option.ite_none_right_eq_some.1 h
    obtain rfl := Option.some.inj h
    exact .tracked _ p none hp hunstarted (fun _ hq => absurd hq (Option.not_mem_none _)) rfl rfl rfl
      (List.append_nil _).symm fun _ hmade => absurd hmade (Option.not_mem_none _)

/-! ## The invariant -/

/-- The marks are of different sessions, all of them earlier than the one that runs, whose own is
the one on disk, if any; and each session has reported at most one other. -/
structure Suspected (s : State) : Prop where
  distinct : s.suspects.Nodup
  marked : ∀ n ∈ s.marked, n ≤ s.sessions
  past : ∀ n ∈ s.foundMarked ++ s.uncleanReports.map ReportInfo.subject, n < s.sessions
  authors : (s.uncleanReports.map ReportInfo.author).Nodup
  earlier : ∀ info ∈ s.uncleanReports, info.subject < info.author ∧ info.author ≤ s.sessions
  unstarted : ∀ p ∈ s.process, p.sessionTrackingStarted = false →
    s.sessions ∉ s.marked ∧ s.sessions ∉ s.uncleanReports.map ReportInfo.author

theorem uncleanReports_append {made : List ReportInfo} (h : s'.reports = s.reports ++ made) :
    s'.uncleanReports = s.uncleanReports ++ made.filter fun info => info.author != info.subject := by
  rw [State.uncleanReports, h, List.filter_append, State.uncleanReports]

/-- Reports of the own session make no mark. -/
theorem uncleanReports_own {own : List ReportInfo} (h : s'.reports = s.reports ++ own)
    (hown : ∀ info ∈ own, info.author = info.subject) : s'.uncleanReports = s.uncleanReports := by
  rw [uncleanReports_append h, List.filter_eq_nil_iff.2, List.append_nil]
  intro info hinfo
  simpa using hown info hinfo

/-- Where marks are only taken away, so are suspects. -/
theorem suspects_sublist (hmarker : s'.marked.Sublist s.marked)
    (hfound : s'.foundMarked.Sublist s.foundMarked) (hreports : s'.uncleanReports = s.uncleanReports) :
    s'.suspects.Sublist s.suspects := by
  unfold State.suspects
  rw [hreports]
  exact (hmarker.append hfound).append (List.Sublist.refl _)

/-- At a launch the found mark comes from the disk. -/
theorem launched_suspects (hmarker : s'.marked = []) (hfound : s'.foundMarked.Sublist s.marked)
    (hreports : s'.reports = s.reports) : s'.suspects.Sublist s.suspects := by
  have hsame : s'.uncleanReports = s.uncleanReports := by
    rw [State.uncleanReports, hreports, State.uncleanReports]
  unfold State.suspects
  rw [hsame, hmarker, List.nil_append]
  exact (hfound.trans (List.sublist_append_left _ _)).append (List.Sublist.refl _)

theorem nodup_append_toList {α : Type} {as : List α} {o : Option α} (has : as.Nodup)
    (ho : ∀ a ∈ o, a ∉ as) : (as ++ o.toList).Nodup := by
  refine List.nodup_append.2 ⟨has, Option.toList_nodup o, ?_⟩
  rintro a ha _ hb rfl
  exact ho a (Option.mem_toList.1 hb) ha

/-- When tracking begins, the found mark passes on to the report, and the own session is marked. -/
theorem tracked_suspected {made : Option ReportInfo} (hs : Suspected s)
    (hfresh : s.sessions ∉ s.uncleanReports.map ReportInfo.author)
    (started : ∀ p' ∈ s'.process, p'.sessionTrackingStarted = true)
    (sessions : s'.sessions = s.sessions) (marker : s'.marked = [s.sessions])
    (found : s'.foundMarked = []) (reports : s'.reports = s.reports ++ made.toList)
    (hmade : ∀ info ∈ made, info.author = s.sessions ∧ info.subject ∈ s.foundMarked) :
    Suspected s' := by
  have hpast : ∀ info ∈ made, info.subject < s.sessions := fun info hinfo =>
    hs.past _ (List.mem_append_left _ (hmade info hinfo).2)
  have hall : s'.uncleanReports = s.uncleanReports ++ made.toList := by
    rw [uncleanReports_append reports, List.filter_eq_self.2]
    intro info hinfo
    have hmem := Option.mem_toList.1 hinfo
    have hlt := hpast info hmem
    rw [← (hmade info hmem).1] at hlt
    exact bne_iff_ne.2 hlt.ne'
  have hdistinct := hs.distinct
  rw [State.suspects, List.append_assoc] at hdistinct
  obtain ⟨-, hdistinct, -⟩ := List.nodup_append.1 hdistinct
  obtain ⟨-, hsubjects, hapart⟩ := List.nodup_append.1 hdistinct
  have hnew : ((s.uncleanReports ++ made.toList).map ReportInfo.subject).Nodup := by
    rw [List.map_append, ← Option.toList_map]
    refine nodup_append_toList hsubjects fun n hn => ?_
    obtain ⟨info, hinfo, rfl⟩ := Option.mem_map.1 hn
    exact fun hin => hapart _ (hmade info hinfo).2 _ hin rfl
  have hsubject : ∀ n ∈ (s.uncleanReports ++ made.toList).map ReportInfo.subject, n < s.sessions := by
    intro n hn
    obtain ⟨info, hinfo, rfl⟩ := List.mem_map.1 hn
    rcases List.mem_append.1 hinfo with hinfo | hinfo
    · exact hs.past _ (List.mem_append_right _ (List.mem_map_of_mem hinfo))
    · exact hpast info (Option.mem_toList.1 hinfo)
  refine ⟨?_, ?_, ?_, ?_, ?_, ?_⟩
  · rw [State.suspects, marker, found, hall]
    exact List.nodup_cons.2 ⟨fun hin => (hsubject _ hin).false, hnew⟩
  · simp [marker, sessions]
  · rwa [found, hall, sessions]
  · rw [hall, List.map_append, ← Option.toList_map]
    refine nodup_append_toList hs.authors fun n hn => ?_
    obtain ⟨info, hinfo, rfl⟩ := Option.mem_map.1 hn
    rwa [(hmade info hinfo).1]
  · rw [hall, sessions]
    intro info hinfo
    rcases List.mem_append.1 hinfo with hinfo | hinfo
    · exact hs.earlier info hinfo
    · have hmem := Option.mem_toList.1 hinfo
      rw [(hmade info hmem).1]
      exact ⟨hpast info hmem, le_rfl⟩
  · intro p hp hoff
    exact absurd (started p hp) (Bool.eq_false_iff.1 hoff)

theorem suspected_passes (hs : Suspected s) (h : Passes s s') : Suspected s' := by
  cases h with
  | launched hp sessions marker found reports =>
    have hsame : s'.uncleanReports = s.uncleanReports := by
      rw [State.uncleanReports, reports, State.uncleanReports]
    have hlater : s'.sessions ∉ s.uncleanReports.map ReportInfo.author := by
      intro hin
      obtain ⟨info, hinfo, hauthor⟩ := List.mem_map.1 hin
      have := (hs.earlier info hinfo).2
      omega
    refine ⟨hs.distinct.sublist (launched_suspects marker found reports), ?_, ?_, ?_, ?_, ?_⟩
    · simp [marker]
    · intro n hn
      rw [hsame] at hn
      rcases List.mem_append.1 hn with hn | hn
      · have := hs.marked n (found.subset hn)
        omega
      · have := hs.past n (List.mem_append_right _ hn)
        omega
    · exact hsame ▸ hs.authors
    · intro info hinfo
      rw [hsame] at hinfo
      have := hs.earlier info hinfo
      omega
    · intro p hp hunstarted
      rw [hsame, marker]
      exact ⟨List.not_mem_nil, hlater⟩
  | tracked p made hp unstarted started sessions marker found reports hmade =>
    exact tracked_suspected hs (hs.unstarted p hp unstarted).2 started sessions marker found reports hmade
  | kept p own hp started sessions marker found reports authors =>
    have hsame := uncleanReports_own reports authors
    refine ⟨hs.distinct.sublist (suspects_sublist marker found hsame), ?_, ?_, ?_, ?_, ?_⟩
    · rw [sessions]
      exact fun n hn => hs.marked n (marker.subset hn)
    · rw [sessions, hsame]
      intro n hn
      exact hs.past n ((found.append (List.Sublist.refl _)).subset hn)
    · exact hsame ▸ hs.authors
    · rw [sessions, hsame]
      exact hs.earlier
    · rw [sessions, hsame]
      intro q hq hunstarted
      obtain ⟨hmarked, hauthors⟩ := hs.unstarted p hp (started q hq ▸ hunstarted)
      exact ⟨fun hin => hmarked (marker.subset hin), hauthors⟩

/-! ## Sessions that were shut down -/

/-- A session that has ended without leaving a mark. -/
structure Cleared (n : Nat) (s : State) : Prop where
  given : n ≤ s.sessions
  ended : ∀ p ∈ s.process, n < s.sessions
  unmarked : n ∉ s.suspects

theorem cleared_passes (hn : Cleared n s) (h : Passes s s') : Cleared n s' := by
  have hgiven := hn.given
  cases h with
  | launched hp sessions marker found reports =>
    refine ⟨by omega, fun _ _ => by omega, fun hin => hn.unmarked ?_⟩
    exact (launched_suspects marker found reports).subset hin
  | tracked p made hp unstarted started sessions marker found reports hmade =>
    have hlt := hn.ended p hp
    refine ⟨by omega, fun _ _ => by omega, fun hin => hn.unmarked ?_⟩
    rw [State.suspects, marker, found, uncleanReports_append reports, List.map_append] at hin
    rw [State.suspects]
    simp only [List.mem_append, List.mem_singleton, List.not_mem_nil, or_false] at hin ⊢
    rcases hin with rfl | hin | hin
    · omega
    · exact .inr hin
    · obtain ⟨info, hinfo, rfl⟩ := List.mem_map.1 hin
      exact .inl (.inr (hmade info (Option.mem_toList.1 (List.mem_filter.1 hinfo).1)).2)
  | kept p own hp started sessions marker found reports authors =>
    have hlt := hn.ended p hp
    refine ⟨by omega, fun _ _ => by omega, fun hin => hn.unmarked ?_⟩
    exact (suspects_sublist marker found (uncleanReports_own reports authors)).subset hin

/-- The session that a move shuts down. -/
def shutDown (s : State) : Move → List Nat
  | .step (.shutdown _) => [s.sessions]
  | _ => []

theorem shutDown_cleared {m : Move} (hs : Suspected s) (h : move s m = some s') (hn : n ∈ shutDown s m) :
    Cleared n s' := by
  have hshut : n = s.sessions ∧ ∃ names, m = .step (.shutdown names) := by
    rcases m with (_ | _ | _ | _ | _ | _ | _ | _ | _ | names | _) | _
    case step.shutdown => exact ⟨List.mem_singleton.1 hn, names, rfl⟩
    all_goals cases hn
  obtain ⟨rfl, names, rfl⟩ := hshut
  cases hp : s.process with
  | none =>
    obtain ⟨_, _, hl, -⟩ := step_launch hp h
    cases hl
  | some p =>
    obtain ⟨-, h⟩ := Option.ite_none_right_eq_some.1 (step_running hp h)
    obtain rfl := Option.some.inj h
    refine ⟨le_rfl, fun _ hp' => absurd hp' (Option.not_mem_none _), fun hin => ?_⟩
    exact (hs.past _ (List.mem_append_right _ hin)).false

/-- Nothing runs, nothing is reported, and a marker is of a session there was. -/
structure Begins (s : State) : Prop where
  idle : s.process = none
  unreported : s.reports = []
  marked : ∀ n ∈ s.marked, n ≤ s.sessions

theorem suspected_begins (h : Begins s) : Suspected s := by
  have hnone : s.uncleanReports = [] := by rw [State.uncleanReports, h.unreported]; rfl
  have hfound : s.foundMarked = [] := by rw [State.foundMarked, h.idle]; rfl
  refine ⟨?_, h.marked, ?_, ?_, ?_, ?_⟩
  · rw [State.suspects, hnone, hfound, List.append_nil, List.map_nil, List.append_nil]
    exact Option.toList_nodup _
  · simp [hfound, hnone]
  · simp [hnone]
  · simp [hnone]
  · intro p hp
    rw [h.idle] at hp
    cases hp

/-- Where one session runs at a time, and every removal succeeds, a session is reported as unclean at
most once, by a later one, which reports no other; and never where it was shut down. -/
theorem suspectedOnce {ls : List Move} (h : Begins s) (hrun : Run.run move s ls = some s') :
    (s'.uncleanReports.map ReportInfo.subject).Nodup ∧
    (s'.uncleanReports.map ReportInfo.author).Nodup ∧
    ∀ info ∈ s'.uncleanReports, info.subject < info.author ∧
      info.subject ∉ Run.trace move shutDown s ls := by
  have hgeneral : ∀ (ls : List Move) (d : State), Suspected d → Run.run move d ls = some s' →
      Suspected s' ∧ ∀ n ∈ Run.trace move shutDown d ls, Cleared n s' := by
    intro ls
    induction ls with
    | nil =>
      intro d hd hd'
      obtain rfl := Option.some.inj hd'
      exact ⟨hd, fun n hn => absurd hn List.not_mem_nil⟩
    | cons l ls ih =>
      intro d hd hd'
      obtain ⟨e, he, hd'⟩ := Run.run_cons_some.1 hd'
      obtain ⟨hlast, hcleared⟩ := ih e (suspected_passes hd (move_passes he)) hd'
      refine ⟨hlast, fun n hn => ?_⟩
      rw [Run.trace_cons he] at hn
      rcases List.mem_append.1 hn with hn | hn
      · exact Run.run_inv (fun _ _ _ hn h => cleared_passes hn (move_passes h))
          (shutDown_cleared hd he hn) hd'
      · exact hcleared n hn
  obtain ⟨hlast, hcleared⟩ := hgeneral ls s (suspected_begins h) hrun
  obtain ⟨-, hsubjects, -⟩ := List.nodup_append.1 hlast.distinct
  refine ⟨hsubjects, hlast.authors, fun info hinfo => ⟨(hlast.earlier info hinfo).1, fun hin => ?_⟩⟩
  exact (hcleared _ hin).unmarked (List.mem_append_right _ (List.mem_map_of_mem hinfo))

/-! ## Sessions over one directory -/

/-- A client's own part: its session, and its process. -/
structure Client where
  session : Nat
  process : Process

/-- The state as this client sees it. -/
def Client.over (c : Client) (d : State) : State := { d with process := some c.process, sessions := c.session }

/-- How a client is launched, and whether the removal of the marker that it finds succeeds. -/
structure Start where
  options : InitOptions
  marker : SessionMarkerData
  removed : Bool := true

/-- What a move leads to where its removals fail. -/
def unremoved (s : State) (m : Move) (s' : State) : State :=
  match m with
  | .step (.launch _ _) | .step (.shutdown _) => { s' with marker := s.marker }
  | .step (.respond _ response _) =>
    if response.outcome = .transient then s' else { s' with sidecars := s.sidecars }
  | _ => s'

/-- The storage holds no process, and counts the sessions. A client's step may find its removals
failing. -/
def host : Overlap.Host State Client Start (Move × Bool) where
  start d how := (step d (.launch how.options how.marker)).bind fun s' =>
    let s' := if how.removed then s' else unremoved d (.step (.launch how.options how.marker)) s'
    s'.process.map fun p => ({ s' with process := none }, ⟨s'.sessions, p⟩)
  act d c label := (move (c.over d) label.1).map fun s' =>
    let s' := if label.2 then s' else unremoved (c.over d) label.1 s'
    ({ s' with process := none, sessions := d.sessions }, s'.process.map fun p => ⟨c.session, p⟩)

abbrev Clients := Overlap.World State Client

/-- No launch while another client runs, and every removal succeeds. -/
def InTurn (w : Clients) : Overlap.Label Start (Move × Bool) → Prop
  | .start how => w.clients = [] ∧ how.removed = true
  | .client _ label => label.2 = true

/-- The sessions that are shut down. -/
def clientShutDown (w : Clients) : Overlap.Label Start (Move × Bool) → List Nat
  | .start _ => []
  | .client k label => ((w.clients[k]?).map fun c => shutDown (c.over w.storage) label.1).getD []

/-- The storage is as one session has left it, and that session runs, if any. -/
structure Left (d : State) (o : Option Client) (t : State) : Prop where
  process : t.process = o.map Client.process
  storage : { t with process := none } = d
  current : ∀ c ∈ o, c.session = d.sessions

section Clients

variable {d : State} {o : Option Client} {t : State} {w : Clients}
  {ls : List (Overlap.Label Start (Move × Bool))}

theorem Left.sessions (h : Left d o t) : t.sessions = d.sessions := by
  rw [← h.storage]

theorem map_client_process {n : Nat} (q : Option Process) :
    (q.map fun p => (⟨n, p⟩ : Client)).map Client.process = q := by
  cases q <;> rfl

/-- No move of a process counts a session. -/
theorem running_sessions {m : Move} (hp : s.process = some p) (h : move s m = some s') :
    s'.sessions = s.sessions := by
  cases move_passes h with
  | launched hnone => exact absurd (hnone.symm.trans hp) (Option.some_ne_none p).symm
  | tracked => assumption
  | kept => assumption

/-- **Sessions in turn are one at a time.** -/
theorem inTurn_run (h : Left d o t)
    (hgood : Run.AllSteps (Overlap.step host) (fun w l _ => InTurn w l) (Overlap.one d o) ls)
    (hrun : Run.run (Overlap.step host) (Overlap.one d o) ls = some w) :
    ∃ d' o', w = Overlap.one d' o' ∧ Overlap.Answers move Left shutDown t d' o'
      (Run.trace (Overlap.step host) clientShutDown (Overlap.one d o) ls) := by
  refine Overlap.alone_run (fun w l _ hl => ?_) ?_ ?_ ls d o t h hgood hrun
  · cases l with
    | start how => exact hl.1
    | client k label => trivial
  · rintro d ⟨options, marker, removed⟩ d' c t hleft hstart ⟨-, hremoved⟩
    obtain rfl : removed = true := hremoved
    have ht : t = d := by
      rw [← hleft.storage, ← show t.process = none from hleft.process]
    subst ht
    obtain ⟨u, hu, hstart⟩ := Option.bind_eq_some_iff.1 hstart
    obtain ⟨q, hq, hsame⟩ := Option.map_eq_some_iff.1 hstart
    obtain ⟨rfl, rfl⟩ := Prod.mk.inj hsame
    refine ⟨[.step (.launch options marker)], u, Run.run_cons_some.2 ⟨u, hu, rfl⟩, ⟨hq, rfl, ?_⟩, Run.trace_step hu⟩
    intro c hc
    exact Option.some.inj hc ▸ rfl
  · rintro d c ⟨m, removed⟩ d' o t hleft hact hremoved
    obtain rfl : removed = true := hremoved
    have ht : c.over d = t := by
      rw [← hleft.storage, Client.over, hleft.current c rfl, ← hleft.sessions,
        ← show t.process = some c.process from hleft.process]
    obtain ⟨u, hu, hsame⟩ := Option.map_eq_some_iff.1 hact
    obtain ⟨rfl, rfl⟩ := Prod.mk.inj hsame
    have hsessions : u.sessions = d.sessions :=
      (running_sessions rfl hu).trans (hleft.current c rfl)
    rw [ht] at hu
    refine ⟨[m], u, Run.run_cons_some.2 ⟨u, hu, rfl⟩, ⟨?_, ?_, ?_⟩, ?_⟩
    · exact (map_client_process u.process).symm
    · rw [← hsessions]
      rfl
    · intro c' hc'
      obtain ⟨q, -, rfl⟩ := Option.map_eq_some_iff.1 hc'
      exact hleft.current c rfl
    · rw [Run.trace_step hu, ← ht]
      rfl

/-- **A session is reported as unclean at most once**, by a later one, which reports no other; and
never where it was shut down: over any number of launches that do not overlap, and whose removals
succeed. -/
theorem unclean_reported_once (h : Begins d)
    (hgood : Run.AllSteps (Overlap.step host) (fun w l _ => InTurn w l) ⟨d, []⟩ ls)
    (hrun : Run.run (Overlap.step host) ⟨d, []⟩ ls = some w) :
    (w.storage.uncleanReports.map ReportInfo.subject).Nodup ∧
    (w.storage.uncleanReports.map ReportInfo.author).Nodup ∧
    ∀ info ∈ w.storage.uncleanReports, info.subject < info.author ∧
      info.subject ∉ Run.trace (Overlap.step host) clientShutDown ⟨d, []⟩ ls := by
  have hstart : Left d none d :=
    ⟨h.idle, by rw [← h.idle], fun _ hc => absurd hc (Option.not_mem_none _)⟩
  obtain ⟨d', o', rfl, ls', t, hrun', hleft, hshown⟩ := inTurn_run hstart hgood hrun
  have honce := suspectedOnce h hrun'
  have hreports : t.uncleanReports = d'.uncleanReports := by
    rw [← hleft.storage]
    rfl
  rwa [hreports, hshown] at honce

end Clients

instance (w : Clients) (l : Overlap.Label Start (Move × Bool)) : Decidable (InTurn w l) :=
  match l with
  | .start how => decidable_of_iff (w.clients.isEmpty = true ∧ how.removed = true)
      (and_congr_left fun _ => List.isEmpty_iff)
  | .client _ label => inferInstanceAs (Decidable (label.2 = true))

/-- A client is launched, and comes to the end of its `init`. -/
def begun (k : Nat) (id : Bytes) : List (Overlap.Label Start (Move × Bool)) :=
  .start ⟨{}, { sessionId := id }, true⟩ ::
    [.client k (.step .drain, true),
      .client k (.step (.finishInit ⟨_, emptyObject_ne_nil⟩ { stem := id }), true)]

/-- A session is killed; the next one reports it and is shut down; the third has nothing to report. -/
def killedOnce : List (Overlap.Label Start (Move × Bool)) :=
  begun 0 (lit "0") ++ [.client 0 (.step (.die none), true)] ++ begun 0 (lit "1") ++
    [.client 0 (.step (.shutdown []), true)] ++ begun 0 (lit "2")

theorem unclean_reported_once_killed : ∃ w, Run.run (Overlap.step host) ⟨{}, []⟩ killedOnce = some w ∧
    w.storage.uncleanReports.length = 1 ∧
    Run.trace (Overlap.step host) clientShutDown ⟨{}, []⟩ killedOnce = [2] ∧
    ∀ info ∈ w.storage.uncleanReports, info.subject ≠ 2 := by
  have hrun : ((Run.run (Overlap.step host) ⟨{}, []⟩ killedOnce).map fun w =>
      w.storage.uncleanReports.length) = some 1 := by
    decide +kernel
  have hshut : Run.trace (Overlap.step host) clientShutDown ⟨{}, []⟩ killedOnce = [2] := by decide +kernel
  have hgood : Run.AllSteps (Overlap.step host) (fun w l _ => InTurn w l) ⟨{}, []⟩ killedOnce := by
    decide +kernel
  obtain ⟨w, hw, hone⟩ := Option.map_eq_some_iff.1 hrun
  obtain ⟨-, -, hall⟩ :=
    unclean_reported_once ⟨rfl, rfl, fun _ h => absurd h List.not_mem_nil⟩ hgood hw
  refine ⟨w, hw, hone, hshut, fun info hinfo heq => (hall info hinfo).2 ?_⟩
  rw [hshut, heq]
  exact List.mem_singleton_self 2

/-- Where they overlap, a session that is shut down has been reported as unclean. -/
example : (Run.run (Overlap.step host) ⟨{}, []⟩
    (begun 0 (lit "0") ++ begun 1 (lit "1") ++ [.client 0 (.step (.shutdown []), true)])).map
      (fun w => w.storage.uncleanReports.map ReportInfo.subject) = some [1] := by
  decide +kernel

end Tombstone.Launches
