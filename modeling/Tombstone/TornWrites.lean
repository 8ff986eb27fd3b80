import Tombstone.Run
import Tombstone.SidecarQueue

/- Sidecar files whose writes may be cut short.

   `SidecarQueue::write` opens the file under its final name and writes in place; it looks at
   the stream after the open only. This file

   1. models a write with its fate (`writeWith`): the whole body reaches the file, or the
      stream fails part of the way, or the process dies there;
   2. says what restored sidecars should be (`Whole`), over any number of launches;
   3. proves that the runs whose sidecars are whole are exactly those none of whose writes
      leaves a part of its body behind (`sidecars_whole_iff`). -/
namespace Tombstone.TornWrites

/-! ## Writes with a fate -/

/-- How the write of an accepted body goes. -/
inductive Fate where
  | whole
  | openFails
  /-- The stream fails after `n` bytes (a full disk, a failed close); the call goes on. -/
  | cut (n : Nat)
  /-- The process dies when `n` bytes are in the file. -/
  | dies (n : Nat)
  deriving DecidableEq, Repr

/-- The queue takes the body and opens a file for it. -/
def accepts (q : SidecarQueue) (kind : SidecarKind) : Bool :=
  q.configured && decide (q.countFiles kind < SidecarQueue.maxFilesPerKind)

/-- `SidecarQueue::write`: the queue, and the path that is returned. -/
def writeWith (q : SidecarQueue) (kind : SidecarKind) (body : Bytes) (report : Nat)
    (name : FileName) (fate : Fate) : SidecarQueue × Option SidecarPath :=
  if !accepts q kind then (q, none)
  else
    match fate with
    | .openFails => (q, none)
    | .whole =>
      ({ q with files := q.files ++ [{ path := { kind, name }, body, report }] }, some { kind, name })
    | .cut n =>
      ({ q with files := q.files ++ [{ path := { kind, name }, body := body.take n, report }] },
        some { kind, name })
    | .dies n =>
      ({ q with files := q.files ++ [{ path := { kind, name }, body := body.take n, report }] }, none)

/-- A write that goes through is the write of the durability model. -/
theorem writeWith_whole (q : SidecarQueue) (kind : SidecarKind) (body : Bytes) (report : Nat)
    (name : FileName) : writeWith q kind body report name .whole = q.write kind body report name := by
  unfold writeWith SidecarQueue.write accepts
  cases q.configured with
  | false => rfl
  | true =>
    by_cases hfull : SidecarQueue.maxFilesPerKind ≤ q.countFiles kind
    · simp [hfull]
    · simp [hfull, Nat.lt_of_not_le hfull]

/-- What the file of a path holds. -/
def contentOf (q : SidecarQueue) (path : SidecarPath) : Option Bytes :=
  (q.files.find? fun r => r.path == path).map SidecarRecord.body

/-! ## Launches -/

structure State where
  queue : SidecarQueue := {}
  running : Bool := false
  /-- The records this launch restored, until they are delivered or rejected. -/
  jobs : List SidecarRecord := []
  /-- Proof-only: the bodies that were passed to a write; of every write that returned a path,
  what the file held then, and the body; and the restored bodies that were uploaded. -/
  passed : List (SidecarKind × Bytes) := []
  returned : List (Option Bytes × Bytes) := []
  uploaded : List (SidecarKind × Bytes) := []

inductive Label where
  /-- `tombstone_init`: the directories are usable or not; `drain_sidecars`. -/
  | launch (available : Bool)
  | write (kind : SidecarKind) (body : Bytes) (name : FileName) (fate : Fate)
  /-- A payload of this launch was delivered or rejected. -/
  | remove (path : SidecarPath)
  /-- The worker uploads the `i`-th restored record; it is settled if it was delivered or is
  poison. -/
  | upload (i : Nat) (settled : Bool)
  /-- The process ends, between two of its calls. -/
  | exit
  deriving DecidableEq, Repr

/-- The process does not survive the write. -/
def Fate.fatal : Fate → Bool
  | .dies _ => true
  | .whole | .openFails | .cut _ => false

def step (s : State) : Label → Option State
  | .launch available =>
    if s.running then none
    else
      let queue := { s.queue with configured := available }
      some { s with queue, running := true, jobs := queue.scan }
  | .write kind body name fate =>
    -- `unique_file_name` gives new names, and all end in `.json`
    if !s.running || s.queue.inUse { kind, name } || name.ext != lit ".json" then none
    else
      let (queue, path) := writeWith s.queue kind body s.passed.length name fate
      some { s with
        queue
        running := !fate.fatal
        passed := s.passed ++ [(kind, body)]
        returned := s.returned ++ path.toList.map fun p => (contentOf queue p, body) }
  | .remove path => if s.running then some { s with queue := s.queue.remove (some path) } else none
  | .upload i settled =>
    if !s.running then none
    else
      match s.jobs[i]? with
      | none => none
      | some r =>
        let uploaded := s.uploaded ++ [(r.path.kind, r.body)]
        if settled then
          some { s with uploaded, queue := s.queue.remove (some r.path), jobs := s.jobs.eraseIdx i }
        else some { s with uploaded }
  | .exit => if s.running then some { s with running := false } else none

/-- Everything that a step can do. -/
inductive Stepped (s : State) : Label → State → Prop where
  | launch (available : Bool) (ended : s.running = false) : Stepped s (.launch available)
      { s with
        queue := { s.queue with configured := available }
        running := true
        jobs := ({ s.queue with configured := available } : SidecarQueue).scan }
  | write (kind : SidecarKind) (body : Bytes) (name : FileName) (fate : Fate) (running : s.running = true)
      (fresh : s.queue.inUse { kind, name } = false) (ext : name.ext = lit ".json") :
      Stepped s (.write kind body name fate)
        { s with
          queue := (writeWith s.queue kind body s.passed.length name fate).1
          running := !fate.fatal
          passed := s.passed ++ [(kind, body)]
          returned := s.returned ++
            (writeWith s.queue kind body s.passed.length name fate).2.toList.map fun p =>
              (contentOf (writeWith s.queue kind body s.passed.length name fate).1 p, body) }
  | remove (path : SidecarPath) (running : s.running = true) :
      Stepped s (.remove path) { s with queue := s.queue.remove (some path) }
  | settled {i : Nat} {r : SidecarRecord} (running : s.running = true) (job : s.jobs[i]? = some r) :
      Stepped s (.upload i true)
        { s with
          uploaded := s.uploaded ++ [(r.path.kind, r.body)]
          queue := s.queue.remove (some r.path)
          jobs := s.jobs.eraseIdx i }
  | unsettled {i : Nat} {r : SidecarRecord} (running : s.running = true) (job : s.jobs[i]? = some r) :
      Stepped s (.upload i false) { s with uploaded := s.uploaded ++ [(r.path.kind, r.body)] }
  | exit (running : s.running = true) : Stepped s .exit { s with running := false }

theorem step_cases {s s' : State} {l : Label} (h : step s l = some s') : Stepped s l s' := by
  cases l with
  | launch available =>
    obtain ⟨hended, hs⟩ := Option.ite_none_left_eq_some.mp h
    obtain rfl := Option.some.inj hs
    exact .launch available (eq_false_of_ne_true hended)
  | write kind body name fate =>
    obtain ⟨hguard, hs⟩ := Option.ite_none_left_eq_some.mp h
    obtain rfl := Option.some.inj hs
    simp only [Bool.or_eq_true, Bool.not_eq_true', bne_iff_ne, not_or, Bool.not_eq_false,
      ne_eq, Decidable.not_not, Bool.not_eq_true] at hguard
    exact .write kind body name fate hguard.1.1 hguard.1.2 hguard.2
  | remove path =>
    obtain ⟨hrunning, hs⟩ := Option.ite_none_right_eq_some.mp h
    obtain rfl := Option.some.inj hs
    exact .remove path hrunning
  | upload i settled =>
    obtain ⟨hrunning, hs⟩ := Option.ite_none_left_eq_some.mp h
    have hrunning : s.running = true := by simpa using hrunning
    split at hs
    · cases hs
    · next r hr =>
      cases settled with
      | true =>
        obtain rfl := Option.some.inj hs
        exact .settled hrunning hr
      | false =>
        obtain rfl := Option.some.inj hs
        exact .unsettled hrunning hr
  | exit =>
    obtain ⟨hrunning, hs⟩ := Option.ite_none_right_eq_some.mp h
    obtain rfl := Option.some.inj hs
    exact .exit hrunning

/-- What a scan of the directories returns. -/
def State.scan (s : State) : List SidecarRecord := ({ s.queue with configured := true } : SidecarQueue).scan

/-- **Sidecars are whole**: what a scan returns, now or when this launch began, and what was
uploaded of it, was passed in full to a write of that kind; and a write that returned a path
left its body in the file. -/
structure Whole (s : State) : Prop where
  scanned : ∀ r ∈ s.scan, (r.path.kind, r.body) ∈ s.passed
  restored : ∀ r ∈ s.jobs, (r.path.kind, r.body) ∈ s.passed
  uploaded : ∀ u ∈ s.uploaded, u ∈ s.passed
  returned : ∀ w ∈ s.returned, w.1 = some w.2

instance (s : State) : Decidable (Whole s) :=
  decidable_of_iff ((∀ r ∈ s.scan, (r.path.kind, r.body) ∈ s.passed) ∧
      (∀ r ∈ s.jobs, (r.path.kind, r.body) ∈ s.passed) ∧ (∀ u ∈ s.uploaded, u ∈ s.passed) ∧
      ∀ w ∈ s.returned, w.1 = some w.2)
    ⟨fun h => ⟨h.1, h.2.1, h.2.2.1, h.2.2.2⟩, fun h => ⟨h.1, h.2, h.3, h.4⟩⟩

/-- No part of a body is left behind: an accepted write is not cut short, and a death in it
leaves nothing, or what is itself a body of that kind. -/
def Uncut (s : State) : Label → Prop
  | .write kind body _ (.cut n) => accepts s.queue kind = true → body.take n = body
  | .write kind body _ (.dies n) => accepts s.queue kind = true →
      body.take n = [] ∨ (kind, body.take n) ∈ s.passed ++ [(kind, body)]
  | _ => True

theorem mem_scan {s : State} {r : SidecarRecord} :
    r ∈ s.scan ↔ r ∈ s.queue.files ∧ r.path.name.ext = lit ".json" ∧ r.body ≠ [] := by
  unfold State.scan
  rw [SidecarQueue.mem_scan]
  exact and_iff_right rfl

/-! ## Which writes keep sidecars whole -/

section

variable {s : State} {kind : SidecarKind} {body content : Bytes} {name : FileName} {report : Nat}

theorem contentOf_new (hname : s.queue.inUse { kind, name } = false) :
    contentOf { s.queue with
      files := s.queue.files ++ [{ path := { kind, name }, body := content, report }] }
      { kind, name } = some content := by
  unfold contentOf
  have hnone : s.queue.files.find? (fun r => r.path == { kind, name }) = none := by
    rw [List.find?_eq_none]
    intro r hr hpath
    have hall := List.any_eq_false.mp hname r hr
    exact hall hpath
  rw [List.find?_append, hnone]
  simp

theorem whole_write {running : Bool} {returned : List (Option Bytes × Bytes)} (h : Whole s)
    (hext : name.ext = lit ".json") :
    Whole { s with
        queue := { s.queue with
          files := s.queue.files ++ [{ path := { kind, name }, body := content, report }] }
        running
        passed := s.passed ++ [(kind, body)]
        returned := s.returned ++ returned } ↔
      (content = [] ∨ (kind, content) ∈ s.passed ++ [(kind, body)]) ∧
        ∀ w ∈ returned, w.1 = some w.2 := by
  constructor
  · intro h'
    refine ⟨?_, fun w hw => h'.returned w (List.mem_append_right _ hw)⟩
    by_cases hempty : content = []
    · exact .inl hempty
    · have hnew := h'.scanned { path := { kind, name }, body := content, report }
        (mem_scan.mpr ⟨List.mem_append_right _ List.mem_cons_self, hext, hempty⟩)
      exact .inr hnew
  · rintro ⟨hcontent, hreturned⟩
    constructor
    · intro r hr
      obtain ⟨hfile, hjson, hbody⟩ := mem_scan.mp hr
      rcases List.mem_append.mp hfile with hold | hnew
      · exact List.mem_append_left _ (h.scanned r (mem_scan.mpr ⟨hold, hjson, hbody⟩))
      · obtain rfl := List.mem_singleton.mp hnew
        exact hcontent.resolve_left hbody
    · exact fun r hr => List.mem_append_left _ (h.restored r hr)
    · exact fun u hu => List.mem_append_left _ (h.uploaded u hu)
    · intro w hw
      exact (List.mem_append.mp hw).elim (h.returned w) (hreturned w)

theorem whole_refused {running : Bool} (h : Whole s) :
    Whole { s with running, passed := s.passed ++ [(kind, body)], returned := s.returned ++ [] } := by
  constructor
  · exact fun r hr => List.mem_append_left _ (h.scanned r hr)
  · exact fun r hr => List.mem_append_left _ (h.restored r hr)
  · exact fun u hu => List.mem_append_left _ (h.uploaded u hu)
  · exact fun w hw => h.returned w (by simpa using hw)

end

theorem Whole.remove {s : State} (h : Whole s) (path : SidecarPath) :
    Whole { s with queue := s.queue.remove (some path) } := by
  refine ⟨fun r hr => ?_, h.restored, h.uploaded, h.returned⟩
  obtain ⟨hfile, hjson, hbody⟩ := mem_scan.mp hr
  exact h.scanned r (mem_scan.mpr ⟨(SidecarQueue.mem_remove.mp hfile).1, hjson, hbody⟩)

theorem Whole.restored_uploaded {s : State} {i : Nat} {r : SidecarRecord} (h : Whole s)
    (hr : s.jobs[i]? = some r) : ∀ u ∈ s.uploaded ++ [(r.path.kind, r.body)], u ∈ s.passed := by
  intro u hu
  rcases List.mem_append.mp hu with hold | hnew
  · exact h.uploaded u hold
  · rw [List.mem_singleton.mp hnew]
    exact h.restored r (List.mem_of_getElem? hr)

/-- **One step**: sidecars that were whole stay whole just when the step leaves no part of a
body behind. -/
theorem whole_step {s s' : State} {l : Label} (h : Whole s) (hstep : step s l = some s') :
    Whole s' ↔ Uncut s l := by
  cases step_cases hstep with
  | launch available =>
    refine iff_of_true ⟨h.scanned, fun r hr => ?_, h.uploaded, h.returned⟩ trivial
    obtain ⟨-, hfile, hjson, hbody⟩ := SidecarQueue.mem_scan.mp hr
    exact h.scanned r (mem_scan.mpr ⟨hfile, hjson, hbody⟩)
  | write kind body name fate _ hname hext =>
    cases haccepts : accepts s.queue kind with
    | false =>
      -- the queue is unavailable or full: nothing is opened
      simp only [writeWith, haccepts, Bool.not_false, if_true, Option.toList_none, List.map_nil]
      refine iff_of_true (whole_refused h) ?_
      cases fate <;> simp [Uncut, haccepts]
    | true =>
      cases fate with
      | openFails =>
        simp only [writeWith, haccepts, Bool.not_true, Bool.false_eq_true, if_false,
          Option.toList_none, List.map_nil]
        exact iff_of_true (whole_refused h) trivial
      | whole =>
        simp only [writeWith, haccepts, Bool.not_true, Bool.false_eq_true, if_false,
          Option.toList_some, List.map_singleton]
        rw [whole_write h hext, contentOf_new hname]
        simp [Uncut]
      | cut n =>
        simp only [writeWith, haccepts, Bool.not_true, Bool.false_eq_true, if_false,
          Option.toList_some, List.map_singleton]
        rw [whole_write h hext, contentOf_new hname]
        simp only [List.mem_singleton, forall_eq, Option.some.injEq, Uncut, haccepts,
          forall_const]
        refine ⟨fun hw => hw.2, fun heq => ⟨.inr ?_, heq⟩⟩
        rw [heq]
        exact List.mem_append_right _ List.mem_cons_self
      | dies n =>
        simp only [writeWith, haccepts, Bool.not_true, Bool.false_eq_true, if_false,
          Option.toList_none, List.map_nil]
        rw [whole_write h hext]
        simp [Uncut, haccepts]
  | remove path => exact iff_of_true (h.remove path) trivial
  | @settled i r _ hr =>
    refine iff_of_true ⟨(h.remove r.path).scanned, fun j hj => ?_, h.restored_uploaded hr, h.returned⟩ trivial
    exact h.restored j (List.mem_of_mem_eraseIdx hj)
  | unsettled _ hr => exact iff_of_true ⟨h.scanned, h.restored, h.restored_uploaded hr, h.returned⟩ trivial
  | exit => exact iff_of_true ⟨h.scanned, h.restored, h.uploaded, h.returned⟩ trivial

/-- **Restored sidecars are whole** in every state of a run, over any number of launches,
exactly where no write leaves a part of its body behind. -/
theorem sidecars_whole_iff (ls : List Label) :
    Run.AllStates step Whole {} ls ↔ Run.AllSteps step (fun s l _ => Uncut s l) {} ls := by
  refine Run.allStates_iff_allSteps (I := fun _ => True) (fun _ _ _ _ _ => trivial) ?_ ls ({} : State) trivial ?_
  · exact fun s l s' _ hwhole hstep => whole_step hwhole hstep
  · refine ⟨fun r hr => ?_, nofun, nofun, nofun⟩
    obtain ⟨hfile, -⟩ := mem_scan.mp hr
    cases hfile

/-- A process that dies in a write leaves a part of a report; the next launch restores it,
uploads it, and deletes it when the server rejects it. -/
theorem tornReport_uploaded : ¬ ∀ ls : List Label, Run.AllStates step Whole {} ls := by
  intro hall
  have hfails : ¬ Run.AllStates step Whole {}
      [.launch true,
        .write .crash (lit "\x7b\"log\":true\x7d") ⟨lit "1-0", lit ".json"⟩ (.dies 4),
        .launch true, .upload 0 true] := by
    decide
  exact hfails (hall _)

end Tombstone.TornWrites
