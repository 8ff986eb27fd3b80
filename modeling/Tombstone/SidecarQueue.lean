import Mathlib.Data.Multiset.Count
import Tombstone.Bytes

/- The offline durability queue (`sidecar_queue.h`, `sidecar_queue.cpp`): one file a pending
   payload, its content the raw ingest body, one directory a kind.

   Single file operations succeed; a name comes from `unique_file_name`, that is, from the
   environment, and the operations never invent one. Every file remembers which report it
   was written for (`report`), which no operation reads. -/
namespace Tombstone

inductive SidecarKind where
  | crash
  | bugReport
  | event
  deriving DecidableEq, Repr

/-- A file name, split as `path::extension` splits it. -/
structure FileName where
  stem : Bytes
  ext : Bytes := lit ".json"
  deriving DecidableEq, Repr

/-- A path below `pending/`: the kind's directory and the name. -/
structure SidecarPath where
  kind : SidecarKind
  name : FileName
  deriving DecidableEq, Repr

/-- A file below `pending/`, and what `scan` restores of it (`SidecarRecord`). -/
structure SidecarRecord where
  path : SidecarPath
  body : Bytes
  /-- The report the file was written for; proof-only. -/
  report : Nat
  deriving DecidableEq, Repr

structure SidecarQueue where
  configured : Bool := false
  /-- The regular files below `pending/`, in directory order. -/
  files : List SidecarRecord := []

namespace SidecarQueue

def maxFilesPerKind : Nat := 64

/-- `count_files`: every regular file of the kind's directory counts, whatever its name. -/
def countFiles (q : SidecarQueue) (kind : SidecarKind) : Nat :=
  (q.files.filter fun r => r.path.kind == kind).length

def inUse (q : SidecarQueue) (path : SidecarPath) : Bool :=
  q.files.any fun r => r.path == path

/-- `SidecarQueue::write` under the name `unique_file_name` gave: the backing path, or `none`
where the queue is unavailable or the kind's directory is full. -/
def write (q : SidecarQueue) (kind : SidecarKind) (body : Bytes) (report : Nat) (name : FileName) :
    SidecarQueue × Option SidecarPath :=
  if !q.configured then (q, none)
  else if maxFilesPerKind ≤ q.countFiles kind then (q, none)
  else ({ q with files := q.files ++ [{ path := { kind, name }, body, report }] }, some { kind, name })

/-- `SidecarQueue::remove`: the empty path is nobody's file. -/
def remove (q : SidecarQueue) : Option SidecarPath → SidecarQueue
  | none => q
  | some path => { q with files := q.files.filter fun r => r.path != path }

/-- What `scan` restores of one directory: the readable `.json` files with a body. -/
def scanKind (q : SidecarQueue) (kind : SidecarKind) : List SidecarRecord :=
  q.files.filter fun r => r.path.kind == kind && r.path.name.ext == lit ".json" && !r.body.isEmpty

/-- `SidecarQueue::scan`. -/
def scan (q : SidecarQueue) : List SidecarRecord :=
  if q.configured then q.scanKind .crash ++ q.scanKind .bugReport ++ q.scanKind .event else []

/-! ## What the operations do to one file -/

theorem mem_scan {q : SidecarQueue} {r : SidecarRecord} :
    r ∈ q.scan ↔ q.configured = true ∧ r ∈ q.files ∧ r.path.name.ext = lit ".json" ∧ r.body ≠ [] := by
  unfold scan
  cases hc : q.configured
  · simp
  · cases hk : r.path.kind <;> simp [scanKind, hk]

/-- `scan` restores a file at most once. -/
theorem scan_le (q : SidecarQueue) : (↑q.scan : Multiset SidecarRecord) ≤ ↑q.files := by
  rw [Multiset.le_iff_count]
  intro r
  rw [Multiset.coe_count, Multiset.coe_count]
  unfold scan
  split
  · have hkind : ∀ kind, (q.scanKind kind).count r ≤ if r.path.kind = kind then q.files.count r else 0 := by
      intro kind
      split
      · exact List.filter_sublist.count_le r
      · rename_i hk
        exact Nat.le_zero.mpr (List.count_eq_zero.mpr (by simp [scanKind, hk]))
    have hc := hkind .crash
    have hb := hkind .bugReport
    have he := hkind .event
    rw [List.count_append, List.count_append]
    cases hk : r.path.kind <;> simp [hk] at hc hb he <;> omega
  · exact Nat.zero_le _

theorem mem_remove {q : SidecarQueue} {path : Option SidecarPath} {r : SidecarRecord} :
    r ∈ (q.remove path).files ↔ r ∈ q.files ∧ path ≠ some r.path := by
  cases path with
  | none => simp [remove]
  | some p =>
    simp only [remove, List.mem_filter, bne_iff_ne, ne_eq, Option.some.injEq]
    constructor
    · exact fun h => ⟨h.1, fun he => h.2 he.symm⟩
    · exact fun h => ⟨h.1, fun he => h.2 he.symm⟩

/-- **What a write can do**: nothing, or add the one file it returns the path of. -/
theorem write_cases (q : SidecarQueue) (kind : SidecarKind) (body : Bytes) (report : Nat)
    (name : FileName) :
    q.write kind body report name = (q, none) ∨
    q.write kind body report name =
      ({ q with files := q.files ++ [{ path := { kind, name }, body, report }] }, some { kind, name }) := by
  unfold write
  split
  · exact .inl rfl
  · split
    · exact .inl rfl
    · exact .inr rfl

end SidecarQueue

end Tombstone
