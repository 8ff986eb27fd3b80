import Tombstone.Captures
import Tombstone.Decimal
import Tombstone.Dedupe
import Tombstone.Interleave

/- Breadcrumbs and the revoke of consent (`client.cpp`, `client_reports.cpp`).

   `set_consent(0)` empties the ring when it turns consent off, so that the trail before a revoke
   does not end up in a report after consent is granted again. A capture checks consent and
   writes the ring in two steps, on any thread, with nothing held from one to the other.

   A call is known by how many revokes were complete when it began; a revoke is complete with
   its last step, the emptied ring. What is proved:

   1. where no capture writes the ring after a revoke that has completed since it began, every
      breadcrumb of every report is from a call that began after the last revoke before the
      report (`revoke_empties_trail`); and a capture that does write so late leaves a
      breadcrumb that the next bug report carries;
   2. such a capture exists (`late_breadcrumb`). -/
namespace Tombstone.RevokedTrail

/-- A report, by the breadcrumbs it carries and by the revokes complete when its call began. -/
structure Report where
  began : Nat
  breadcrumbs : List Breadcrumb
  deriving DecidableEq

/-- The part of a client that these calls read and write. -/
structure State where
  initialized : Bool := true
  consent : Bool := true
  ring : BreadcrumbRing := .ofCapacity BreadcrumbRing.defaultCapacity
  dedupe : DedupeWindow := {}
  /-- The reports that were made. -/
  reports : List Report := []
  /-- Proof-only: how many revokes are complete. -/
  revokes : Nat := 0
  deriving DecidableEq

/-- The clocks. -/
structure Input where
  tsIso : Bytes := []
  now : Int := 0

/-- The steps of a call; `began` is the revokes complete when it began. -/
inductive Act where
  /-- `add_breadcrumb`, `log_line`, `set_level`: the check of consent, then the write. -/
  | capture (level message : Bytes) (began : Nat)
  | record (level message : Bytes) (began : Nat)
  /-- `report_crash`: the check of consent, the dedupe, then the snapshot. -/
  | reportCrash (signature hint : Bytes) (began : Nat)
  | dedupe (signature hint : Bytes) (began : Nat)
  | reportBug (began : Nat)
  | snapshot (began : Nat)
  /-- `set_consent`: the exchange of the flag, then the purge. -/
  | exchange (granted : Bool)
  | purge
  deriving DecidableEq

/-- The calls. `signature` is the effective one. -/
inductive Call where
  | addBreadcrumb (level : Int) (message : CString)
  | logLine (level : Int) (line : CString)
  | setLevel (name : CString)
  | reportCrash (signature : Bytes) (stackHint : CString)
  | reportBug (message : CString)
  | setConsent (granted : Bool)
  deriving DecidableEq

def State.captureAllowed (s : State) : Bool := s.initialized && s.consent

/-- The breadcrumb that a suppressed crash becomes. -/
def suppressedMessage (count : Nat) (hint : Bytes) : Bytes :=
  lit "crash suppressed (duplicate x" ++ Decimal.text count ++ lit " within 60s): " ++ hint

/-- A crash is never reported with an empty hint. -/
def crashHint (stackHint : CString) : Bytes :=
  if CString.blank stackHint then lit "Crash" else stackHint.getD []

/-- What a checked crash does next. -/
def afterDedupe (decision : DedupeDecision) (hint : Bytes) (began : Nat) : List Act :=
  if decision.allowed then [.snapshot began]
  else [.record (lit "Error") (suppressedMessage decision.suppressedCount hint) began]

/-- One step of a call. -/
def perform (s : State) (a : Act) (i : Input) : Option (State × List Act) :=
  match a with
  | .capture level message began =>
    some (s, if s.captureAllowed then [.record level message began] else [])
  | .record level message began =>
    some ({ s with ring := s.ring.add level message i.tsIso began }, [])
  | .reportCrash signature hint began =>
    some (s, if s.captureAllowed then [.dedupe signature hint began] else [])
  | .dedupe signature hint began =>
    let checked := s.dedupe.check signature i.now
    some ({ s with dedupe := checked.2 }, afterDedupe checked.1 hint began)
  | .reportBug began => some (s, if s.captureAllowed then [.snapshot began] else [])
  | .snapshot began => some ({ s with reports := s.reports ++ [⟨began, s.ring.snapshot⟩] }, [])
  | .exchange granted =>
    -- to grant consent may start session tracking, which leaves the ring alone
    some ({ s with consent := granted }, if !granted && s.consent then [.purge] else [])
  | .purge => some ({ s with ring := s.ring.clear, revokes := s.revokes + 1 }, [])

/-- A call begins; arguments that it refuses end it. -/
def call (s : State) (_thread : Nat) (k : Call) : Option (State × List Act) :=
  match k with
  | .addBreadcrumb level message =>
    some (s, if CString.blank message then []
      else [.capture (levelLabel level) (message.getD []) s.revokes])
  | .logLine level line =>
    some (s, if CString.blank line then []
      else [.capture (levelLabel level) (line.getD []) s.revokes])
  | .setLevel name =>
    some (s, if CString.blank name then []
      else [.capture (lit "Info")
        (lit "[scene] level: " ++ clamped name BreadcrumbRing.maxMessageBytes) s.revokes])
  | .reportCrash signature stackHint =>
    some (s, [.reportCrash signature (crashHint stackHint) s.revokes])
  | .reportBug message =>
    some (s, if CString.blank message then [] else [.reportBug s.revokes])
  | .setConsent granted => some (s, [.exchange granted])

/-- The host starts another thread. -/
def env (c : State × List (List Act)) (_spawn : Unit) : Option (State × List (List Act)) :=
  some (c.1, c.2 ++ [[]])

def machine : Interleave.Machine State Act Input Call Unit := ⟨perform, call, env⟩

abbrev Config := Interleave.Config State Act
abbrev Label := Interleave.Label Input Call Unit

def step : Config → Label → Option Config := Interleave.step machine

/-- An initialised client, with an empty trail; no call has begun. -/
structure Fresh (c : Config) : Prop where
  initialized : c.shared.initialized = true
  ring : c.shared.ring.snapshot = []
  reports : c.shared.reports = []
  revokes : c.shared.revokes = 0
  threads : ∀ p ∈ c.threads, p = []

/-- What a revoke is for: a report carries only breadcrumbs of calls that began after the last
revoke that was complete when the report began. -/
def Respected (c : Config) : Prop :=
  ∀ r ∈ c.shared.reports, ∀ b ∈ r.breadcrumbs, r.began ≤ b.serial

instance (c : Config) : Decidable (Respected c) :=
  inferInstanceAs (Decidable (∀ r ∈ c.shared.reports, ∀ b ∈ r.breadcrumbs, r.began ≤ b.serial))

/-- The action is no write of the ring by a call that began before the last complete revoke. -/
def Act.InTime (s : State) : Act → Prop
  | .record _ _ began => began = s.revokes
  | _ => True

instance (s : State) (a : Act) : Decidable (a.InTime s) := by
  cases a <;> unfold Act.InTime <;> infer_instance

/-- No capture writes the ring after a revoke that has completed since it began. -/
def Timely (c : Config) (l : Label) : Prop := ∀ a ∈ Interleave.acting c l, a.InTime c.shared

instance (c : Config) (l : Label) : Decidable (Timely c l) :=
  inferInstanceAs (Decidable (∀ a ∈ Interleave.acting c l, a.InTime c.shared))

/-! ## Calls under way -/

/-- A call under way began no later than now, and has a message to write. -/
def Act.UnderWay (s : State) : Act → Prop
  | .capture _ message began | .record _ message began => message ≠ [] ∧ began ≤ s.revokes
  | .reportCrash _ _ began | .dedupe _ _ began | .reportBug began | .snapshot began =>
    began ≤ s.revokes
  | .exchange _ | .purge => True

theorem Act.UnderWay.later {s s' : State} {a : Act} (h : a.UnderWay s)
    (hs : s.revokes ≤ s'.revokes) : a.UnderWay s' := by
  cases a with
  | capture _ _ _ => exact ⟨h.1, h.2.trans hs⟩
  | record _ _ _ => exact ⟨h.1, h.2.trans hs⟩
  | reportCrash _ _ _ => exact Nat.le_trans h hs
  | dedupe _ _ _ => exact Nat.le_trans h hs
  | reportBug _ => exact Nat.le_trans h hs
  | snapshot _ => exact Nat.le_trans h hs
  | exchange _ => trivial
  | purge => trivial

theorem getD_ne_nil {value : CString} (h : CString.blank value = false) : value.getD [] ≠ [] := by
  intro hnil
  simp [CString.blank, hnil] at h

theorem suppressedMessage_ne_nil (count : Nat) (hint : Bytes) :
    suppressedMessage count hint ≠ [] := by
  have hstart : lit "crash suppressed (duplicate x" ≠ [] := by decide
  unfold suppressedMessage
  apply List.append_ne_nil_of_left_ne_nil
  apply List.append_ne_nil_of_left_ne_nil
  exact List.append_ne_nil_of_left_ne_nil hstart _

theorem afterDedupe_underWay {s : State} {began : Nat} (h : began ≤ s.revokes)
    (decision : DedupeDecision) (hint : Bytes) :
    ∀ b ∈ afterDedupe decision hint began, b.UnderWay s := by
  intro b hb
  unfold afterDedupe at hb
  split at hb
  · rw [List.mem_singleton.mp hb]
    exact h
  · rw [List.mem_singleton.mp hb]
    exact ⟨suppressedMessage_ne_nil _ hint, h⟩

/-- What one step leaves: no fewer revokes, and calls that are under way. -/
theorem perform_underWay {s s' : State} {a : Act} {i : Input} {new : List Act}
    (h : perform s a i = some (s', new)) (ha : a.UnderWay s) :
    s'.initialized = s.initialized ∧ s.revokes ≤ s'.revokes ∧ ∀ b ∈ new, b.UnderWay s' := by
  cases a with
  | capture level message began =>
    obtain ⟨rfl, rfl⟩ := Prod.mk.inj (Option.some.inj h)
    refine ⟨rfl, le_rfl, fun b hb => ?_⟩
    rw [List.mem_singleton.mp (List.mem_ite_nil_right.mp hb).2]
    exact ha
  | record level message began =>
    obtain ⟨rfl, rfl⟩ := Prod.mk.inj (Option.some.inj h)
    exact ⟨rfl, le_rfl, by simp⟩
  | reportCrash signature hint began =>
    obtain ⟨rfl, rfl⟩ := Prod.mk.inj (Option.some.inj h)
    refine ⟨rfl, le_rfl, fun b hb => ?_⟩
    rw [List.mem_singleton.mp (List.mem_ite_nil_right.mp hb).2]
    exact ha
  | dedupe signature hint began =>
    obtain ⟨rfl, rfl⟩ := Prod.mk.inj (Option.some.inj h)
    exact ⟨rfl, le_rfl, afterDedupe_underWay ha _ hint⟩
  | reportBug began =>
    obtain ⟨rfl, rfl⟩ := Prod.mk.inj (Option.some.inj h)
    refine ⟨rfl, le_rfl, fun b hb => ?_⟩
    rw [List.mem_singleton.mp (List.mem_ite_nil_right.mp hb).2]
    exact ha
  | snapshot began =>
    obtain ⟨rfl, rfl⟩ := Prod.mk.inj (Option.some.inj h)
    exact ⟨rfl, le_rfl, by simp⟩
  | exchange granted =>
    obtain ⟨rfl, rfl⟩ := Prod.mk.inj (Option.some.inj h)
    refine ⟨rfl, le_rfl, fun b hb => ?_⟩
    rw [List.mem_singleton.mp (List.mem_ite_nil_right.mp hb).2]
    trivial
  | purge =>
    obtain ⟨rfl, rfl⟩ := Prod.mk.inj (Option.some.inj h)
    exact ⟨rfl, Nat.le_succ _, by simp⟩

/-- A call begins now, with a message it has checked. -/
theorem call_underWay {s s' : State} {t : Nat} {k : Call} {new : List Act}
    (h : call s t k = some (s', new)) : s' = s ∧ ∀ b ∈ new, b.UnderWay s := by
  cases k with
  | addBreadcrumb level message =>
    obtain ⟨rfl, rfl⟩ := Prod.mk.inj (Option.some.inj h)
    refine ⟨rfl, fun b hb => ?_⟩
    obtain ⟨hblank, hb⟩ := List.mem_ite_nil_left.mp hb
    rw [List.mem_singleton.mp hb]
    exact ⟨getD_ne_nil (Bool.eq_false_iff.mpr hblank), le_rfl⟩
  | logLine level line =>
    obtain ⟨rfl, rfl⟩ := Prod.mk.inj (Option.some.inj h)
    refine ⟨rfl, fun b hb => ?_⟩
    obtain ⟨hblank, hb⟩ := List.mem_ite_nil_left.mp hb
    rw [List.mem_singleton.mp hb]
    exact ⟨getD_ne_nil (Bool.eq_false_iff.mpr hblank), le_rfl⟩
  | setLevel name =>
    obtain ⟨rfl, rfl⟩ := Prod.mk.inj (Option.some.inj h)
    refine ⟨rfl, fun b hb => ?_⟩
    have hstart : lit "[scene] level: " ≠ [] := by decide
    rw [List.mem_singleton.mp (List.mem_ite_nil_left.mp hb).2]
    exact ⟨List.append_ne_nil_of_left_ne_nil hstart _, le_rfl⟩
  | reportCrash signature stackHint =>
    obtain ⟨rfl, rfl⟩ := Prod.mk.inj (Option.some.inj h)
    refine ⟨rfl, fun b hb => ?_⟩
    rw [List.mem_singleton.mp hb]
    exact Nat.le_refl s.revokes
  | reportBug message =>
    obtain ⟨rfl, rfl⟩ := Prod.mk.inj (Option.some.inj h)
    refine ⟨rfl, fun b hb => ?_⟩
    rw [List.mem_singleton.mp (List.mem_ite_nil_left.mp hb).2]
    exact Nat.le_refl s.revokes
  | setConsent granted =>
    obtain ⟨rfl, rfl⟩ := Prod.mk.inj (Option.some.inj h)
    refine ⟨rfl, fun b hb => ?_⟩
    rw [List.mem_singleton.mp hb]
    trivial

/-- An initialised client, and calls under way. -/
def Calls (c : Config) : Prop :=
  Interleave.ActInv (fun s => s.initialized = true) (fun s a => a.UnderWay s) c

theorem Fresh.calls {c : Config} (h : Fresh c) : Calls c := by
  refine ⟨h.initialized, fun t p hp a ha => ?_⟩
  rw [h.threads p (List.mem_of_getElem? hp)] at ha
  cases ha

theorem calls_step {c c' : Config} {l : Label} (hc : Calls c) (h : step c l = some c') :
    Calls c' := by
  refine Interleave.actInv_step ?_ ?_ ?_ hc h
  · intro s a i s' new hI ha hp
    obtain ⟨hinit, hle, hnew⟩ := perform_underWay hp ha
    exact ⟨hinit.trans hI, hnew, fun b hb => hb.later hle⟩
  · intro s t k s' new hI hp
    obtain ⟨rfl, hnew⟩ := call_underWay (t := t) hp
    exact ⟨hI, hnew, fun b hb => hb⟩
  · intro s ps _ s' ps' hI hps he
    obtain ⟨rfl, rfl⟩ := Prod.mk.inj (Option.some.inj he)
    refine ⟨hI, fun p hp a ha => ?_⟩
    rcases List.mem_append.mp hp with hp | hp
    · exact hps p hp a ha
    · rw [List.mem_singleton.mp hp] at ha
      cases ha

/-! ## The trail after a revoke -/

/-- The breadcrumbs in the ring are from calls that began after the last complete revoke, and
so are those of every report as of its beginning. -/
structure Trail (s : State) : Prop where
  ring : ∀ b ∈ s.ring.snapshot, s.revokes ≤ b.serial
  reports : ∀ r ∈ s.reports, ∀ b ∈ r.breadcrumbs, r.began ≤ b.serial

/-- A breadcrumb in the ring after a write was there before or is the new one. -/
theorem mem_add {r : BreadcrumbRing} {level message tsIso : Bytes} {serial : Nat} {b : Breadcrumb}
    (hmessage : message ≠ []) (hb : b ∈ (r.add level message tsIso serial).snapshot) :
    b ∈ r.snapshot ∨ b.serial = serial := by
  rw [r.snapshot_add level tsIso serial hmessage] at hb
  rcases List.mem_append.mp hb with hb | hb
  · exact .inl (List.mem_of_mem_drop hb)
  · exact .inr (by rw [List.mem_singleton.mp hb]; rfl)

/-- **A step in time keeps the trail.** -/
theorem perform_trail {s s' : State} {a : Act} {i : Input} {new : List Act}
    (h : perform s a i = some (s', new)) (ha : a.UnderWay s) (htime : a.InTime s) (hs : Trail s) :
    Trail s' := by
  cases a with
  | capture level message began =>
    obtain ⟨rfl, rfl⟩ := Prod.mk.inj (Option.some.inj h)
    exact hs
  | record level message began =>
    obtain ⟨rfl, rfl⟩ := Prod.mk.inj (Option.some.inj h)
    refine ⟨fun b hb => ?_, hs.reports⟩
    rcases mem_add ha.1 hb with hb | hb
    · exact hs.ring b hb
    · have hnow : began = s.revokes := htime
      show s.revokes ≤ b.serial
      omega
  | reportCrash signature hint began =>
    obtain ⟨rfl, rfl⟩ := Prod.mk.inj (Option.some.inj h)
    exact hs
  | dedupe signature hint began =>
    obtain ⟨rfl, rfl⟩ := Prod.mk.inj (Option.some.inj h)
    exact ⟨hs.ring, hs.reports⟩
  | reportBug began =>
    obtain ⟨rfl, rfl⟩ := Prod.mk.inj (Option.some.inj h)
    exact hs
  | snapshot began =>
    obtain ⟨rfl, rfl⟩ := Prod.mk.inj (Option.some.inj h)
    refine ⟨hs.ring, fun r hr b hb => ?_⟩
    rcases List.mem_append.mp hr with hr | hr
    · exact hs.reports r hr b hb
    · rw [List.mem_singleton.mp hr] at hb ⊢
      calc began ≤ s.revokes := ha
        _ ≤ b.serial := hs.ring b hb
  | exchange granted =>
    obtain ⟨rfl, rfl⟩ := Prod.mk.inj (Option.some.inj h)
    exact ⟨hs.ring, hs.reports⟩
  | purge =>
    obtain ⟨rfl, rfl⟩ := Prod.mk.inj (Option.some.inj h)
    refine ⟨fun b hb => ?_, hs.reports⟩
    rw [BreadcrumbRing.snapshot_clear] at hb
    cases hb

theorem trail_step {c c' : Config} {l : Label} (hc : Calls c) (hs : Trail c.shared)
    (h : step c l = some c') (htime : Timely c l) : Trail c'.shared := by
  rcases Interleave.step_cases h with ⟨t, i, a, rest, s', new, rfl, ht, hp, rfl⟩ |
    ⟨t, k, s', new, rfl, ht, hk, rfl⟩ | ⟨_, rfl, he⟩
  · have ha := hc.act (List.mem_of_getElem? ht) List.mem_cons_self
    exact perform_trail hp ha (htime a (Interleave.acting_exec ht)) hs
  · obtain ⟨rfl, -⟩ := call_underWay (t := t) hk
    exact hs
  · have hshared : c.shared = c'.shared := (Prod.mk.inj (Option.some.inj he)).1
    exact hshared ▸ hs

/-! ## A late write -/

/-- A bug report on a new thread, with consent granted. -/
def bugReport (thread : Nat) : List Label :=
  [.env (), .call thread (.setConsent true), .exec thread {},
    .call thread (.reportBug (some (lit "x"))), .exec thread {}, .exec thread {}]

/-- The report carries the ring. -/
theorem run_bugReport {c : Config} (h : c.shared.initialized = true) :
    ∃ c', Run.run step c (bugReport c.threads.length) = some c' ∧
      c'.shared.reports = c.shared.reports ++ [⟨c.shared.revokes, c.shared.ring.snapshot⟩] := by
  obtain ⟨s, ps⟩ := c
  have hallowed : ({ s with consent := true } : State).captureAllowed = true := by
    simp [State.captureAllowed, show s.initialized = true from h]
  have hconsent : step ⟨s, ps ++ [[]]⟩ (.call ps.length (.setConsent true)) =
      some ⟨s, ps ++ [[.exchange true]]⟩ := Interleave.step_call_last _ _ _
  have hgranted : step ⟨s, ps ++ [[.exchange true]]⟩ (.exec ps.length {}) =
      some ⟨{ s with consent := true }, ps ++ [[]]⟩ := Interleave.step_exec_last _ _ _ _ _
  have hreport : step ⟨{ s with consent := true }, ps ++ [[]]⟩
      (.call ps.length (.reportBug (some (lit "x")))) =
      some ⟨{ s with consent := true }, ps ++ [[.reportBug s.revokes]]⟩ :=
    Interleave.step_call_last _ _ _
  have hchecked : step ⟨{ s with consent := true }, ps ++ [[.reportBug s.revokes]]⟩
      (.exec ps.length {}) = some ⟨{ s with consent := true }, ps ++ [[.snapshot s.revokes]]⟩ := by
    rw [step, Interleave.step_exec_last]
    simp only [machine, perform, hallowed, if_true, Option.map_some, List.append_nil]
  have hattached : step ⟨{ s with consent := true }, ps ++ [[.snapshot s.revokes]]⟩
      (.exec ps.length {}) = some ⟨{ s with
        consent := true
        reports := s.reports ++ [⟨s.revokes, s.ring.snapshot⟩] }, ps ++ [[]]⟩ :=
    Interleave.step_exec_last _ _ _ _ _
  refine ⟨⟨{ s with
    consent := true
    reports := s.reports ++ [⟨s.revokes, s.ring.snapshot⟩] }, ps ++ [[]]⟩, ?_, rfl⟩
  apply Run.run_cons_some.mpr
  refine ⟨⟨s, ps ++ [[]]⟩, rfl, Run.run_cons_some.mpr ⟨_, hconsent, ?_⟩⟩
  apply Run.run_cons_some.mpr
  refine ⟨_, hgranted, Run.run_cons_some.mpr ⟨_, hreport, ?_⟩⟩
  apply Run.run_cons_some.mpr
  exact ⟨_, hchecked, Run.run_cons_some.mpr ⟨_, hattached, rfl⟩⟩

/-- **After a late write, the next bug report carries what it wrote.** -/
theorem late_write_reported {c c' : Config} {l : Label} (hc : Calls c) (h : step c l = some c')
    (hlate : ¬ Timely c l) :
    ∃ ls c'', Run.run step c' ls = some c'' ∧ ¬ Respected c'' := by
  have hinit : c'.shared.initialized = true := (calls_step hc h).shared
  obtain ⟨c'', hrun, hreports⟩ := run_bugReport hinit
  refine ⟨_, c'', hrun, fun hrespected => hlate fun a ha => ?_⟩
  rcases Interleave.step_cases h with ⟨t, i, b, rest, s', new, rfl, ht, hp, rfl⟩ |
    ⟨_, _, _, _, rfl, _⟩ | ⟨_, rfl, _⟩
  · obtain rfl : b = a := Option.some.inj ((Interleave.acting_exec ht).symm.trans ha)
    have hunder := hc.act (List.mem_of_getElem? ht) List.mem_cons_self
    cases b with
    | record level message began =>
      obtain ⟨rfl, rfl⟩ := Prod.mk.inj (Option.some.inj hp)
      -- the new breadcrumb is the last in the ring, and so in the report
      have hring := c.shared.ring.snapshot_add level i.tsIso began hunder.1
      have hcrumb : BreadcrumbRing.crumb level message i.tsIso began ∈
          (c.shared.ring.add level message i.tsIso began).snapshot := by
        rw [hring]
        exact List.mem_append_right _ (List.mem_singleton_self _)
      have hreport : ⟨c.shared.revokes, (c.shared.ring.add level message i.tsIso began).snapshot⟩ ∈
          c''.shared.reports := by
        rw [hreports]
        exact List.mem_append_right _ (List.mem_singleton_self _)
      have hle : c.shared.revokes ≤ began := hrespected _ hreport _ hcrumb
      exact Nat.le_antisymm hunder.2 hle
    | capture _ _ _ => trivial
    | reportCrash _ _ _ => trivial
    | dedupe _ _ _ => trivial
    | reportBug _ => trivial
    | snapshot _ => trivial
    | exchange _ => trivial
    | purge => trivial
  · cases ha
  · cases ha

/-! ## Runs -/

theorem Fresh.trail {c : Config} (h : Fresh c) : Trail c.shared := by
  refine ⟨fun b hb => ?_, fun r hr => ?_⟩
  · rw [h.ring] at hb
    cases hb
  · rw [h.reports] at hr
    cases hr

theorem calls_of_run {c₀ c : Config} {ls : List Label} (h : Fresh c₀)
    (hr : Run.run step c₀ ls = some c) : Calls c :=
  Run.run_inv (fun _ _ _ hc hs => calls_step hc hs) h.calls hr

/-- **In a run in which no capture writes the ring after a revoke that has completed since it
began, reports respect every revoke.** After a write that late, a bug report does not. -/
theorem revoke_empties_trail {c₀ : Config} (h : Fresh c₀) (ls : List Label) :
    (Run.AllSteps step (fun c l _ => Timely c l) c₀ ls → Run.AllStates step Respected c₀ ls) ∧
      ∀ c l c', Run.run step c₀ ls = some c → step c l = some c' → ¬ Timely c l →
        ∃ ls' c'', Run.run step c' ls' = some c'' ∧ ¬ Respected c'' := by
  constructor
  · refine Run.allStates_of_steps (I := fun c => Calls c ∧ Trail c.shared) ?_ ?_ ls c₀
      ⟨h.calls, h.trail⟩
    · exact fun c l c' hc hs htime => ⟨calls_step hc.1 hs, trail_step hc.1 hc.2 hs htime⟩
    · exact fun c hc => hc.2.reports
  · exact fun c l c' hr hs hlate => late_write_reported (calls_of_run h hr) hs hlate

/-- A client and three threads of the host. -/
def host : Config := ⟨{}, [[], [], []]⟩

theorem fresh_host : Fresh host where
  initialized := rfl
  ring := rfl
  reports := rfl
  revokes := rfl
  threads := by
    intro p hp
    simp only [host, List.mem_cons, List.not_mem_nil, or_false, or_self] at hp
    exact hp

/-- Consent is revoked and granted again around one breadcrumb, then a bug is reported. -/
def regranted : List Label :=
  [.call 0 (.addBreadcrumb 1 (some (lit "before"))), .exec 0 {}, .exec 0 {},
    .call 1 (.setConsent false), .exec 1 {}, .exec 1 {},
    .call 1 (.setConsent true), .exec 1 {},
    .call 0 (.addBreadcrumb 1 (some (lit "after"))), .exec 0 {}, .exec 0 {},
    .call 2 (.reportBug (some (lit "bug"))), .exec 2 {}, .exec 2 {}]

theorem revoke_empties_trail_regranted : Run.AllStates step Respected host regranted :=
  (revoke_empties_trail fresh_host regranted).1 (by decide)

/-- The breadcrumb is checked before the revoke and written after it. -/
def overtaken : List Label :=
  [.call 0 (.addBreadcrumb 1 (some (lit "before"))), .exec 0 {},
    .call 1 (.setConsent false), .exec 1 {}, .exec 1 {},
    .exec 0 {},
    .call 1 (.setConsent true), .exec 1 {},
    .call 2 (.reportBug (some (lit "bug"))), .exec 2 {}, .exec 2 {}]

/-- **A breadcrumb from before a revoke is attached to a report after it.** -/
theorem late_breadcrumb :
    ¬ ∀ c₀ ls, Fresh c₀ → Run.AllStates step Respected c₀ ls := by
  intro hall
  have hlaw := hall host overtaken fresh_host
  have hbroken : ¬ Run.AllStates step Respected host overtaken := by decide
  exact hbroken hlaw

end Tombstone.RevokedTrail
