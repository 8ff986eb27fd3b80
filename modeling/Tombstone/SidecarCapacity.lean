import Tombstone.TornWrites

/- Whether a full kind becomes writable again. `count_files` counts every regular file, and
   `scan` returns the files that have something in them; a write that leaves an empty file
   takes a place of its kind that no later launch gives back. -/
namespace Tombstone.TornWrites

variable {s s' : State} {kind : SidecarKind} {body : Bytes} {name : FileName} {report : Nat}

/-- What a write of that fate leaves in its file, where it opens one. -/
def Fate.leaves (body : Bytes) : Fate → Option Bytes
  | .whole => some body
  | .openFails => none
  | .cut n => some (body.take n)
  | .dies n => some (body.take n)

/-- The queue of the next launch, when what its scan returned is delivered or rejected, and
removed. -/
def State.drained (s : State) : SidecarQueue :=
  s.scan.foldl (fun q r => q.remove (some r.path)) { s.queue with configured := true }

/-- **The capacity is recoverable**: whatever counts as a file is returned by the next scan, and
when all of that is removed, a write of any kind is accepted. -/
structure Recoverable (s : State) : Prop where
  returned : ∀ r ∈ s.queue.files, r ∈ s.scan
  accepted : ∀ kind, accepts s.drained kind = true

/-- An accepted write leaves no empty file. -/
def LeavesBytes (s : State) : Label → Prop
  | .write kind body _ fate => accepts s.queue kind = true → ∀ content ∈ fate.leaves body, content ≠ []
  | _ => True

theorem writeWith_files (q : SidecarQueue) (fate : Fate) :
    (writeWith q kind body report name fate).1.files = q.files ++
      if accepts q kind then
        (fate.leaves body).toList.map fun content => { path := { kind, name }, body := content, report }
      else [] := by
  unfold writeWith
  cases haccepts : accepts q kind with
  | false => simp
  | true => cases fate <;> simp [Fate.leaves]

theorem drained_files (records : List SidecarRecord) (q : SidecarQueue) :
    (records.foldl (fun q r => q.remove (some r.path)) q).configured = q.configured ∧
      ∀ r, r ∈ (records.foldl (fun q r => q.remove (some r.path)) q).files ↔
        r ∈ q.files ∧ ∀ d ∈ records, d.path ≠ r.path := by
  induction records generalizing q with
  | nil => simp
  | cons d records ih =>
    obtain ⟨hconfigured, hfiles⟩ := ih (q.remove (some d.path))
    refine ⟨hconfigured, fun r => ?_⟩
    rw [List.foldl_cons, hfiles r, SidecarQueue.mem_remove, List.forall_mem_cons, and_assoc]
    simp

theorem accepts_of_no_files {q : SidecarQueue} (hconfigured : q.configured = true)
    (h : q.files = []) (kind : SidecarKind) : accepts q kind = true := by
  simp [accepts, hconfigured, SidecarQueue.countFiles, h, SidecarQueue.maxFilesPerKind]

theorem recoverable_iff : Recoverable s ↔
    ∀ r ∈ s.queue.files, r.path.name.ext = lit ".json" ∧ r.body ≠ [] := by
  constructor
  · intro h r hr
    exact (mem_scan.mp (h.returned r hr)).2
  · intro h
    have hscan : ∀ r ∈ s.queue.files, r ∈ s.scan := fun r hr => mem_scan.mpr ⟨hr, h r hr⟩
    obtain ⟨hconfigured, hfiles⟩ := drained_files s.scan { s.queue with configured := true }
    refine ⟨hscan, accepts_of_no_files hconfigured (List.eq_nil_iff_forall_not_mem.mpr ?_)⟩
    intro r hr
    obtain ⟨hold, hgone⟩ := (hfiles r).mp hr
    exact hgone r (hscan r hold) rfl

instance (s : State) : Decidable (Recoverable s) := decidable_of_iff _ recoverable_iff.symm

theorem Recoverable.subset (h : Recoverable s) (hfiles : ∀ r ∈ s'.queue.files, r ∈ s.queue.files) :
    Recoverable s' :=
  recoverable_iff.mpr fun r hr => recoverable_iff.mp h r (hfiles r hr)

theorem remove_subset (q : SidecarQueue) (path : Option SidecarPath) :
    ∀ r ∈ (q.remove path).files, r ∈ q.files := fun _ hr => (SidecarQueue.mem_remove.mp hr).1

/-- **One step** keeps the capacity recoverable just when it leaves no empty file. -/
theorem recoverable_step {l : Label} (h : Recoverable s) (hstep : step s l = some s') :
    Recoverable s' ↔ LeavesBytes s l := by
  cases step_cases hstep with
  | write kind body name fate _ _ hext =>
    rw [recoverable_iff]
    simp only [writeWith_files, List.mem_append]
    constructor
    · intro hall haccepts content hcontent
      refine (hall { path := { kind, name }, body := content, report := s.passed.length }
        (.inr ?_)).2
      rw [if_pos haccepts]
      exact List.mem_map_of_mem (Option.mem_toList.mpr hcontent)
    · intro hleaves r hr
      rcases hr with hold | hnew
      · exact recoverable_iff.mp h r hold
      · split at hnew
        · next haccepts =>
          obtain ⟨content, hcontent, rfl⟩ := List.mem_map.mp hnew
          exact ⟨hext, hleaves haccepts content (Option.mem_toList.mp hcontent)⟩
        · exact absurd hnew List.not_mem_nil
  -- no other step makes a file
  | launch available => exact iff_of_true (h.subset fun _ => id) trivial
  | remove path => exact iff_of_true (h.subset (remove_subset s.queue (some path))) trivial
  | @settled _ r => exact iff_of_true (h.subset (remove_subset s.queue (some r.path))) trivial
  | unsettled => exact iff_of_true (h.subset fun _ => id) trivial
  | exit => exact iff_of_true (h.subset fun _ => id) trivial

/-- **The capacity is recoverable** in every state of a run, over any number of launches,
exactly where no accepted write leaves an empty file. -/
theorem capacity_recoverable_iff (ls : List Label) :
    Run.AllStates step Recoverable {} ls ↔ Run.AllSteps step (fun s l _ => LeavesBytes s l) {} ls :=
  Run.allStates_iff_allSteps (I := fun _ => True) (fun _ _ _ _ _ => trivial)
    (fun _ _ _ _ => recoverable_step) ls {} trivial
    (recoverable_iff.mpr fun _ hr => absurd hr List.not_mem_nil)

/-- A process that dies before the first byte of a write leaves a file that takes a place of its
kind, and no scan returns it. -/
theorem emptyFile_stays : ¬ ∀ ls : List Label, Run.AllStates step Recoverable {} ls := by
  intro hall
  have hfails : ¬ Run.AllStates step Recoverable {}
      [.launch true, .write .crash (lit "\x7b\x7d") ⟨lit "1-0", lit ".json"⟩ (.dies 0)] := by
    decide
  exact hfails (hall _)

end Tombstone.TornWrites
