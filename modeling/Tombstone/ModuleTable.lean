import Mathlib.Data.List.DropRight
import Mathlib.Data.List.Forall2
import Mathlib.Data.List.Infix
import Tombstone.NoteWalk

/- The module table that `install` captures (`phdr_callback` and `install` in
   `native_crash.cpp`), for any list of loaded objects and after any failed attempts.

   An entry is filled in place before it is known whether its object is kept. Name, base and end
   are written for every object that is kept; the build id only where one is found, so that
   what an object without segments, or an earlier attempt, left in the slot stays there. -/
namespace Tombstone.ModuleTable
open NativeDump NoteWalk

def maxModules : Nat := 512

/-- A program header, as far as it is read: a `PT_LOAD`, a `PT_NOTE`, or another one. -/
inductive Phdr
  | load (vaddr memsz : UInt64)
  | note (segment : Segment 64)
  | other

/-- What `dl_iterate_phdr` reports of an object. -/
structure LoadedObject where
  addr : UInt64
  name : CString
  headers : List Phdr

/-- What `read_build_id` copies out of a header's notes. -/
def Phdr.buildId : Phdr → Option Bytes
  | .note segment => segment.readBuildId.buildId
  | _ => none

/-- `copy_bounded`. -/
def copyBounded (src : Bytes) (cap : Nat) : Bytes := (src.takeWhile (· != 0)).take cap

/-- The name that is shown: an object without one is the program. -/
def LoadedObject.shownName (o : LoadedObject) : Bytes :=
  match o.name with
  | none => lit "main"
  | some name => if name.isEmpty then lit "main" else name

/-- The locals of `phdr_callback`, and the build id of the entry that is filled. -/
structure Scan where
  lo : UInt64 := 0
  hi : UInt64 := 0
  first : Bool := true
  buildId : Bytes
  buildId_le : buildId.length ≤ maxBuildIdBytes

/-- The loop over the program headers. -/
def Scan.visit (addr : UInt64) (s : Scan) : Phdr → Scan
  | .load vaddr memsz =>
    let segLo := addr + vaddr
    let segHi := segLo + memsz
    { s with
      lo := if s.first || segLo < s.lo then segLo else s.lo
      hi := if s.first || s.hi < segHi then segHi else s.hi
      first := false }
  | .note segment =>
    match h : segment.readBuildId.buildId with
    | some buildId => { s with buildId, buildId_le := segment.buildId_le h }
    | none => s
  | .other => s

/-- The table of the handler: its slots, and how many of them are in use. -/
structure Table where
  slots : List ModuleEntry
  count : Nat
  slots_length : slots.length = maxModules
  count_le : count ≤ maxModules

def blank : ModuleEntry where
  base := 0
  limit := 0
  name := []
  buildId := []
  name_le := Nat.zero_le _
  name_no_nul := List.not_mem_nil
  buildId_le := Nat.zero_le _

def Table.empty : Table where
  slots := List.replicate maxModules blank
  count := 0
  slots_length := List.length_replicate
  count_le := Nat.zero_le _

/-- `modules[module_count]`. -/
def Table.slot (t : Table) : ModuleEntry := t.slots.getD t.count blank

theorem copyBounded_le (src : Bytes) (cap : Nat) : (copyBounded src cap).length ≤ cap := by
  unfold copyBounded
  rw [List.length_take]
  omega

theorem copyBounded_no_nul (src : Bytes) (cap : Nat) : 0 ∉ copyBounded src cap := by
  intro h
  have hplain := List.mem_takeWhile_imp (List.mem_of_mem_take h)
  simp at hplain

/-- The loop's result for an object that comes to the slot. -/
def scan (entry : ModuleEntry) (o : LoadedObject) : Scan :=
  o.headers.foldl (Scan.visit o.addr) { buildId := entry.buildId, buildId_le := entry.buildId_le }

/-- What the slot holds when the loop is over. -/
def named (entry : ModuleEntry) (o : LoadedObject) : ModuleEntry :=
  { entry with
    name := copyBounded o.shownName maxNameLen
    buildId := (scan entry o).buildId
    name_le := copyBounded_le _ _
    name_no_nul := copyBounded_no_nul _ _
    buildId_le := (scan entry o).buildId_le }

/-- `phdr_callback`. -/
def phdrCallback (t : Table) (o : LoadedObject) : Table :=
  if hfull : maxModules ≤ t.count then t
  else
    let entry := named t.slot o
    if (scan t.slot o).first then
      { t with
        slots := t.slots.set t.count entry
        slots_length := by rw [List.length_set, t.slots_length] }
    else
      { t with
        slots := t.slots.set t.count
          { entry with base := (scan t.slot o).lo, limit := (scan t.slot o).hi }
        count := t.count + 1
        slots_length := by rw [List.length_set, t.slots_length]
        count_le := by omega }

/-- The handler's state, as far as `install` goes. -/
structure HandlerState where
  table : Table := .empty
  installed : Bool := false

/-- What an attempt meets: whether the dump file opens, the loaded objects, and whether
`sigaction` takes any of the signals. -/
structure Attempt where
  opens : Bool
  objects : List LoadedObject
  any : Bool

/-- `install`. -/
def install (s : HandlerState) (a : Attempt) : HandlerState × Bool :=
  if s.installed then (s, true)
  else if !a.opens then (s, false)
  else
    let table := a.objects.foldl phdrCallback { s.table with count := 0, count_le := Nat.zero_le _ }
    if !a.any then ({ s with table }, false) else ({ table, installed := true }, true)

/-- A process in which so many attempts were made. -/
def attempted (attempts : List Attempt) : HandlerState :=
  attempts.foldl (fun s a => (install s a).1) {}

/-! ## What is asked of the table -/

/-- Where a `PT_LOAD` begins and ends. -/
def Phdr.bounds (addr : UInt64) : Phdr → Option (UInt64 × UInt64)
  | .load vaddr memsz => some (addr + vaddr, addr + vaddr + memsz)
  | _ => none

def LoadedObject.loads (o : LoadedObject) : List (UInt64 × UInt64) :=
  o.headers.filterMap (Phdr.bounds o.addr)

def LoadedObject.hasLoad (o : LoadedObject) : Bool := !o.loads.isEmpty

/-- The build ids in the object's own notes. -/
def LoadedObject.ownIds (o : LoadedObject) : List Bytes := o.headers.filterMap Phdr.buildId

def Lowest (l : List UInt64) (x : UInt64) : Prop := x ∈ l ∧ ∀ y ∈ l, x ≤ y

def Highest (l : List UInt64) (x : UInt64) : Prop := x ∈ l ∧ ∀ y ∈ l, y ≤ x

/-- The entry is the object's. -/
structure Attributed (e : ModuleEntry) (o : LoadedObject) : Prop where
  name : e.name = copyBounded o.shownName maxNameLen
  lowest : Lowest (o.loads.map Prod.fst) e.base
  highest : Highest (o.loads.map Prod.snd) e.limit
  buildId : e.buildId = [] ∨ e.buildId ∈ o.ownIds

def Table.entries (t : Table) : List ModuleEntry := t.slots.take t.count

/-- The entries are the first objects with a `PT_LOAD`, in order. -/
def Table.Right (t : Table) (objects : List LoadedObject) : Prop :=
  List.Forall₂ Attributed t.entries ((objects.filter LoadedObject.hasLoad).take maxModules)

/-- What an object finds in its slot: the last build id of the objects that were skipped since
an object was kept, or else what the slot held before the attempt. -/
def leftover (slots : List ModuleEntry) (before : List LoadedObject) : Bytes :=
  ((before.rtakeWhile fun o => !o.hasLoad).flatMap LoadedObject.ownIds).getLast?.getD
    (slots.getD (before.filter LoadedObject.hasLoad).length blank).buildId

/-- Every kept object without a build id of its own comes to a slot without one. -/
def Clean (slots : List ModuleEntry) (objects : List LoadedObject) : Prop :=
  ∀ before o, before ++ [o] <+: objects → o.hasLoad = true →
    (before.filter LoadedObject.hasLoad).length < maxModules → o.ownIds = [] →
      leftover slots before = []

/-! ## One object -/

variable {s : Scan} {addr : UInt64} {e : ModuleEntry} {o : LoadedObject}

theorem visit_buildId (addr : UInt64) (s : Scan) (headers : List Phdr) :
    (headers.foldl (Scan.visit addr) s).buildId =
      (headers.filterMap Phdr.buildId).getLast?.getD s.buildId := by
  induction headers using List.reverseRecOn with
  | nil => rfl
  | append_singleton headers header ih =>
    rw [List.foldl_append, List.filterMap_append]
    cases header with
    | load vaddr memsz => simpa [Scan.visit, Phdr.buildId] using ih
    | note segment =>
      rw [List.foldl_cons, List.foldl_nil, Scan.visit]
      split
      · next buildId h => simp [Phdr.buildId, h]
      · next h => simpa [Phdr.buildId, h] using ih
    | other => simpa [Scan.visit, Phdr.buildId] using ih

theorem Lowest.concat {l : List UInt64} {x : UInt64} (h : Lowest l x) (y : UInt64) :
    Lowest (l ++ [y]) (if y < x then y else x) := by
  obtain ⟨hmem, hle⟩ := h
  unfold Lowest
  split
  · next hlt =>
    refine ⟨by simp, fun z hz => ?_⟩
    rcases List.mem_append.mp hz with hold | hnew
    · exact UInt64.le_trans (UInt64.le_of_lt hlt) (hle z hold)
    · exact List.mem_singleton.mp hnew ▸ UInt64.le_refl y
  · next hge =>
    refine ⟨List.mem_append_left _ hmem, fun z hz => ?_⟩
    rcases List.mem_append.mp hz with hold | hnew
    · exact hle z hold
    · exact List.mem_singleton.mp hnew ▸ UInt64.not_lt.mp hge

theorem Highest.concat {l : List UInt64} {x : UInt64} (h : Highest l x) (y : UInt64) :
    Highest (l ++ [y]) (if x < y then y else x) := by
  obtain ⟨hmem, hle⟩ := h
  unfold Highest
  split
  · next hlt =>
    refine ⟨by simp, fun z hz => ?_⟩
    rcases List.mem_append.mp hz with hold | hnew
    · exact UInt64.le_trans (hle z hold) (UInt64.le_of_lt hlt)
    · exact List.mem_singleton.mp hnew ▸ UInt64.le_refl y
  · next hge =>
    refine ⟨List.mem_append_left _ hmem, fun z hz => ?_⟩
    rcases List.mem_append.mp hz with hold | hnew
    · exact hle z hold
    · exact List.mem_singleton.mp hnew ▸ UInt64.not_lt.mp hge

/-- The bounds that the loop has found among the segments it has seen. -/
def Scan.Bounds (s : Scan) (loads : List (UInt64 × UInt64)) : Prop :=
  if s.first then loads = [] else Lowest (loads.map Prod.fst) s.lo ∧ Highest (loads.map Prod.snd) s.hi

theorem visit_bounds (addr : UInt64) (s : Scan) (hs : s.first = true) (headers : List Phdr) :
    (headers.foldl (Scan.visit addr) s).Bounds (headers.filterMap (Phdr.bounds addr)) := by
  induction headers using List.reverseRecOn with
  | nil => simp [Scan.Bounds, hs]
  | append_singleton headers header ih =>
    rw [List.foldl_append, List.filterMap_append]
    generalize headers.foldl (Scan.visit addr) s = r at ih ⊢
    cases header with
    | load vaddr memsz =>
      simp only [Scan.Bounds, Scan.visit, Phdr.bounds, List.foldl_cons, List.foldl_nil,
        List.filterMap_cons, List.filterMap_nil, List.map_append, List.map_cons, List.map_nil,
        Bool.false_eq_true, if_false]
      unfold Scan.Bounds at ih
      cases hfirst : r.first with
      | true =>
        rw [hfirst, if_pos rfl] at ih
        simp [ih, Lowest, Highest]
      | false =>
        rw [hfirst, if_neg Bool.false_ne_true] at ih
        simp only [Bool.false_or, decide_eq_true_eq]
        exact ⟨ih.1.concat _, ih.2.concat _⟩
    | note segment =>
      have hsame : (Scan.visit addr r (.note segment)).first = r.first ∧
          (Scan.visit addr r (.note segment)).lo = r.lo ∧
          (Scan.visit addr r (.note segment)).hi = r.hi := by
        rw [Scan.visit]
        split <;> exact ⟨rfl, rfl, rfl⟩
      have hnone : [Phdr.note segment].filterMap (Phdr.bounds addr) = [] := rfl
      rw [hnone, List.append_nil, List.foldl_cons, List.foldl_nil, Scan.Bounds, hsame.1, hsame.2.1,
        hsame.2.2]
      exact ih
    | other =>
      have hnone : [Phdr.other].filterMap (Phdr.bounds addr) = [] := rfl
      rw [hnone, List.append_nil]
      exact ih

/-- An object is skipped exactly when it has no `PT_LOAD`. -/
theorem scan_first (e : ModuleEntry) (o : LoadedObject) : (scan e o).first = !o.hasLoad := by
  have hbounds : (scan e o).Bounds o.loads := visit_bounds o.addr _ rfl o.headers
  unfold Scan.Bounds at hbounds
  unfold LoadedObject.hasLoad
  cases hfirst : (scan e o).first with
  | true =>
    rw [hfirst, if_pos rfl] at hbounds
    simp [hbounds]
  | false =>
    rw [hfirst, if_neg Bool.false_ne_true] at hbounds
    cases hloads : o.loads with
    | nil =>
      rw [hloads] at hbounds
      exact absurd hbounds.1.1 List.not_mem_nil
    | cons load loads => rfl

/-- A kept object's entry is its own, unless it keeps a build id that was there. -/
theorem attributed_iff (e : ModuleEntry) (o : LoadedObject) (hload : o.hasLoad = true) :
    Attributed { named e o with base := (scan e o).lo, limit := (scan e o).hi } o ↔
      (o.ownIds = [] → e.buildId = []) := by
  have hbounds : (scan e o).Bounds o.loads := visit_bounds o.addr _ rfl o.headers
  have hfirst : (scan e o).first = false := by rw [scan_first, hload, Bool.not_true]
  rw [Scan.Bounds, hfirst, if_neg Bool.false_ne_true] at hbounds
  have hid : (scan e o).buildId = o.ownIds.getLast?.getD e.buildId := visit_buildId o.addr _ o.headers
  have hown : (scan e o).buildId = [] ∨ (scan e o).buildId ∈ o.ownIds ↔
      (o.ownIds = [] → e.buildId = []) := by
    rw [hid]
    cases hlast : o.ownIds.getLast? with
    | none =>
      have hnone : o.ownIds = [] := List.getLast?_eq_none_iff.mp hlast
      simp [hnone]
    | some id =>
      have hmem : id ∈ o.ownIds := List.mem_of_getLast? hlast
      have hsome : o.ownIds ≠ [] := List.ne_nil_of_mem hmem
      simp [hmem, hsome]
  exact ⟨fun h => hown.mp h.buildId, fun h => ⟨rfl, hbounds.1, hbounds.2, hown.mpr h⟩⟩

/-! ## The list of objects -/

variable {slots : List ModuleEntry} {done : List LoadedObject} {t : Table}

theorem leftover_kept (hload : o.hasLoad = true) : leftover slots (done ++ [o]) =
    (slots.getD ((done.filter LoadedObject.hasLoad).length + 1) blank).buildId := by
  unfold leftover
  rw [List.rtakeWhile_concat_neg _ _ _ (by simp [hload]), List.filter_append]
  simp [hload]

theorem leftover_skipped (hload : o.hasLoad = false) :
    leftover slots (done ++ [o]) = o.ownIds.getLast?.getD (leftover slots done) := by
  unfold leftover
  rw [List.rtakeWhile_concat_pos _ _ _ (by simp [hload]), List.filter_append, List.flatMap_append,
    List.getLast?_append]
  cases hlast : o.ownIds.getLast? <;> simp [hload, hlast]

theorem callback_full (hfull : maxModules ≤ t.count) : phdrCallback t o = t := by
  rw [phdrCallback, dif_pos hfull]

theorem callback_skips (hroom : t.count < maxModules) (hload : o.hasLoad = false) :
    (phdrCallback t o).slots = t.slots.set t.count (named t.slot o) ∧
      (phdrCallback t o).count = t.count := by
  rw [phdrCallback, dif_neg (by omega)]
  simp [scan_first, hload]

theorem callback_keeps (hroom : t.count < maxModules) (hload : o.hasLoad = true) :
    (phdrCallback t o).slots = t.slots.set t.count
        { named t.slot o with base := (scan t.slot o).lo, limit := (scan t.slot o).hi } ∧
      (phdrCallback t o).count = t.count + 1 := by
  rw [phdrCallback, dif_neg (by omega)]
  simp [scan_first, hload]

/-- What holds when the callback has seen the objects `done`, from a table with these slots. -/
structure Entered (slots : List ModuleEntry) (done : List LoadedObject) (t : Table) : Prop where
  count : t.count = min maxModules (done.filter LoadedObject.hasLoad).length
  next : t.count < maxModules → t.slot.buildId = leftover slots done
  rest : ∀ k, t.count < k → t.slots.getD k blank = slots.getD k blank

theorem Entered.kept (h : Entered slots done t) (hroom : t.count < maxModules) :
    t.count = (done.filter LoadedObject.hasLoad).length := by
  have hcount := h.count
  omega

theorem getD_set_self {l : List ModuleEntry} {k : Nat} (h : k < l.length) (e : ModuleEntry) :
    (l.set k e).getD k blank = e := by
  rw [List.getD_eq_getElem?_getD, List.getElem?_set_self h, Option.getD_some]

theorem getD_set_ne {l : List ModuleEntry} {k n : Nat} (h : k ≠ n) (e : ModuleEntry) :
    (l.set k e).getD n blank = l.getD n blank := by
  rw [List.getD_eq_getElem?_getD, List.getElem?_set_ne h, List.getD_eq_getElem?_getD]

theorem Entered.step (h : Entered slots done t) (o : LoadedObject) :
    Entered slots (done ++ [o]) (phdrCallback t o) := by
  have hfilter : ((done ++ [o]).filter LoadedObject.hasLoad).length =
      (done.filter LoadedObject.hasLoad).length + if o.hasLoad then 1 else 0 := by
    rw [List.filter_append, List.length_append]
    cases hload : o.hasLoad <;> simp [hload]
  by_cases hfull : maxModules ≤ t.count
  · have hcount := h.count
    rw [callback_full hfull]
    refine ⟨?_, fun hroom => absurd hfull (by omega), h.rest⟩
    rw [hfilter]
    omega
  · have hroom : t.count < maxModules := Nat.not_le.mp hfull
    have hkept := h.kept hroom
    have hslot : t.count < t.slots.length := by rwa [t.slots_length]
    cases hload : o.hasLoad with
    | false =>
      obtain ⟨hslots, hcount⟩ := callback_skips hroom hload
      refine ⟨?_, fun _ => ?_, fun k hk => ?_⟩
      · rw [hcount, hfilter, hload, h.count]
        simp
      · rw [Table.slot, hslots, hcount, getD_set_self hslot, leftover_skipped hload, ← h.next hroom]
        exact visit_buildId o.addr _ o.headers
      · rw [hcount] at hk
        rw [hslots, getD_set_ne (by omega), h.rest k hk]
    | true =>
      obtain ⟨hslots, hcount⟩ := callback_keeps hroom hload
      refine ⟨?_, fun _ => ?_, fun k hk => ?_⟩
      · rw [hcount, hfilter, hload, if_pos rfl]
        omega
      · rw [Table.slot, hslots, hcount, getD_set_ne (by omega), h.rest _ (Nat.lt_succ_self _),
          leftover_kept hload, hkept]
      · rw [hcount] at hk
        rw [hslots, getD_set_ne (by omega), h.rest k (by omega)]

theorem entries_set {l : List ModuleEntry} {k : Nat} (h : k < l.length) (e : ModuleEntry) :
    (l.set k e).take k = l.take k ∧ (l.set k e).take (k + 1) = l.take k ++ [e] := by
  have hfront : (l.set k e).take k = l.take k := List.take_set_of_le (Nat.le_refl k)
  refine ⟨hfront, ?_⟩
  rw [List.take_add_one, hfront, List.getElem?_set_self h, Option.toList_some]

theorem forall₂_concat {α β : Type} {R : α → β → Prop} {l : List α} {m : List β} {a : α} {b : β} :
    List.Forall₂ R (l ++ [a]) (m ++ [b]) ↔ List.Forall₂ R l m ∧ R a b := by
  rw [← List.forall₂_reverse_iff, List.reverse_append, List.reverse_append, List.reverse_singleton,
    List.reverse_singleton, List.singleton_append, List.singleton_append, List.forall₂_cons,
    List.forall₂_reverse_iff, and_comm]

theorem clean_concat : Clean slots (done ++ [o]) ↔ Clean slots done ∧
    (o.hasLoad = true → (done.filter LoadedObject.hasLoad).length < maxModules →
      o.ownIds = [] → leftover slots done = []) := by
  unfold Clean
  constructor
  · intro h
    refine ⟨fun before o' hfront => h before o' (hfront.trans (List.prefix_append _ _)), ?_⟩
    exact h done o (List.prefix_refl _)
  · intro h before o' hfront
    rcases List.prefix_concat_iff.mp hfront with heq | hfront
    · obtain ⟨rfl, hlast⟩ := List.append_inj' heq rfl
      obtain rfl := List.singleton_inj.mp hlast
      exact h.2
    · exact h.1 before o' hfront

/-- **One more object** is attributed right exactly when its slot is clean, or it has a build
id. -/
theorem right_step (h : Entered slots done t) (o : LoadedObject) :
    (phdrCallback t o).Right (done ++ [o]) ↔ t.Right done ∧
      (o.hasLoad = true → (done.filter LoadedObject.hasLoad).length < maxModules →
        o.ownIds = [] → leftover slots done = []) := by
  unfold Table.Right Table.entries
  rw [List.filter_append]
  by_cases hfull : maxModules ≤ t.count
  · have hcount := h.count
    have hmany : maxModules ≤ (done.filter LoadedObject.hasLoad).length := by omega
    rw [callback_full hfull, List.take_append_of_le_length hmany]
    exact (and_iff_left fun _ hroom => absurd hmany (by omega)).symm
  · have hroom : t.count < maxModules := Nat.not_le.mp hfull
    have hkept := h.kept hroom
    have hslot : t.count < t.slots.length := by rwa [t.slots_length]
    cases hload : o.hasLoad with
    | false =>
      obtain ⟨hslots, hcount⟩ := callback_skips hroom hload
      rw [hslots, hcount, (entries_set hslot _).1]
      simp [hload]
    | true =>
      obtain ⟨hslots, hcount⟩ := callback_keeps hroom hload
      have hone : [o].filter LoadedObject.hasLoad = [o] := by simp [hload]
      have hold : (done.filter LoadedObject.hasLoad).length ≤ maxModules := by omega
      have hall : (done.filter LoadedObject.hasLoad ++ [o]).length ≤ maxModules := by
        rw [List.length_append, List.length_singleton]
        omega
      rw [hslots, hcount, (entries_set hslot _).2, hone, List.take_of_length_le hall,
        List.take_of_length_le hold, forall₂_concat, attributed_iff t.slot o hload, h.next hroom]
      apply and_congr_right
      intro _
      exact ⟨fun hclean _ _ => hclean, fun hclean => hclean rfl (by omega)⟩

/-- **The table is right exactly where every object without a build id finds a clean slot.** -/
theorem right_iff (t : Table) (hcount : t.count = 0) (objects : List LoadedObject) :
    Entered t.slots objects (objects.foldl phdrCallback t) ∧
      ((objects.foldl phdrCallback t).Right objects ↔ Clean t.slots objects) := by
  induction objects using List.reverseRecOn with
  | nil =>
    refine ⟨⟨by simp [hcount], fun _ => ?_, fun _ _ => rfl⟩, ?_⟩
    · simp [Table.slot, leftover, hcount]
    · simp [Table.Right, Table.entries, hcount, Clean]
  | append_singleton objects o ih =>
    obtain ⟨hentered, hright⟩ := ih
    rw [List.foldl_append]
    refine ⟨hentered.step o, ?_⟩
    exact (right_step hentered o).trans ((and_congr_left' hright).trans clean_concat.symm)

/-- **The captured table is right exactly where every kept object without a build id of its own
comes to a slot without one**, whatever attempts failed before. -/
theorem install_right_iff (earlier : List Attempt) (a : Attempt) (hopens : a.opens = true)
    (hfailed : (attempted earlier).installed = false) :
    (install (attempted earlier) a).1.table.Right a.objects ↔
      Clean (attempted earlier).table.slots a.objects := by
  have htable : (install (attempted earlier) a).1.table = a.objects.foldl phdrCallback
      { (attempted earlier).table with count := 0, count_le := Nat.zero_le _ } := by
    unfold install
    rw [hfailed, hopens]
    cases a.any <;> rfl
  rw [htable]
  exact (right_iff _ rfl a.objects).2

/-- A segment with the note of one build id. -/
def idNote : Segment 64 where
  start := 0x1000
  content := [4, 0, 0, 0, 2, 0, 0, 0, 3, 0, 0, 0, ch 'G', ch 'N', ch 'U', 0, 0xab, 0xcd, 0, 0]
  around := fun _ => 0
  fits := by decide

theorem idNote_buildId : idNote.readBuildId.buildId = some [0xab, 0xcd] := by
  have hturn : (idNote.turn idNote.start).outcome = .ended (some [0xab, 0xcd]) := by decide
  rw [Segment.readBuildId, idNote.walk_ended hturn]

/-- An object that has no segments, only a build id. -/
def noteOnly : LoadedObject := ⟨0, some (lit "linux-vdso.so.1"), [.note idNote]⟩

/-- A library without a build id. -/
def plainLibrary : LoadedObject := ⟨0x400000, some (lit "/usr/lib/libgame.so"), [.load 0 0x2000]⟩

/-- A library with one. -/
def taggedLibrary : LoadedObject := ⟨0x10000, some (lit "/usr/lib/libtagged.so"), [.load 0 0x1000, .note idNote]⟩

theorem taggedLibrary_ownIds : taggedLibrary.ownIds = [[0xab, 0xcd]] := by
  have hload : Phdr.buildId (.load 0 0x1000) = none := rfl
  have hnote : Phdr.buildId (.note idNote) = some [0xab, 0xcd] := idNote_buildId
  rw [LoadedObject.ownIds, taggedLibrary, List.filterMap_cons_none hload, List.filterMap_cons_some hnote,
    List.filterMap_nil]

/-- No handler could be set, so the table is there and nothing is installed. -/
def failedAttempt : Attempt := ⟨true, [taggedLibrary], false⟩

theorem attempted_slots : (attempted [failedAttempt]).table.slots = (phdrCallback .empty taggedLibrary).slots := rfl

/-- What that attempt leaves: a build id in the first slot, and the others as they were. -/
theorem failedAttempt_slots : ((attempted [failedAttempt]).table.slots.getD 0 blank).buildId = [0xab, 0xcd] ∧
    ∀ k, ((attempted [failedAttempt]).table.slots.getD (k + 1) blank).buildId = [] := by
  have hload : taggedLibrary.hasLoad = true := rfl
  have hroom : Table.empty.count < maxModules := by decide
  obtain ⟨hslots, -⟩ := callback_keeps hroom hload
  have hlength : Table.empty.count < Table.empty.slots.length := by rwa [Table.empty.slots_length]
  rw [attempted_slots, hslots]
  constructor
  · have hid : (scan Table.empty.slot taggedLibrary).buildId =
        taggedLibrary.ownIds.getLast?.getD Table.empty.slot.buildId :=
      visit_buildId taggedLibrary.addr _ taggedLibrary.headers
    rw [taggedLibrary_ownIds] at hid
    rw [show (0 : Nat) = Table.empty.count from rfl, getD_set_self hlength]
    exact hid
  · intro k
    have hblank : ∀ n, Table.empty.slots.getD n blank = blank := by
      intro n
      rw [Table.empty, List.getD_eq_getElem?_getD, List.getElem?_replicate]
      split <;> rfl
    have hother : Table.empty.count ≠ k + 1 := (Nat.succ_ne_zero k).symm
    rw [getD_set_ne hother, hblank]
    rfl

/-- After that attempt the libraries are entered right if the tagged one comes first again, and not if
another one takes its slot. -/
theorem install_right_retried :
    (install (attempted [failedAttempt]) ⟨true, [taggedLibrary, plainLibrary, plainLibrary], true⟩).1.table.Right
      [taggedLibrary, plainLibrary, plainLibrary] ∧
    ¬ (install (attempted [failedAttempt]) ⟨true, [plainLibrary, taggedLibrary], true⟩).1.table.Right
      [plainLibrary, taggedLibrary] := by
  obtain ⟨hfirst, hothers⟩ := failedAttempt_slots
  have hempty : Clean (attempted [failedAttempt]).table.slots [] := by
    intro before o hfront
    have hlength := hfront.length_le
    simp at hlength
  constructor
  · have hone : Clean (attempted [failedAttempt]).table.slots ([] ++ [taggedLibrary]) := by
      refine clean_concat.2 ⟨hempty, fun _ _ hnone => ?_⟩
      rw [taggedLibrary_ownIds] at hnone
      cases hnone
    have htwo : Clean (attempted [failedAttempt]).table.slots ([taggedLibrary] ++ [plainLibrary]) := by
      refine clean_concat.2 ⟨hone, fun _ _ _ => ?_⟩
      rw [← List.nil_append [taggedLibrary], leftover_kept rfl]
      exact hothers 0
    have hthree : Clean (attempted [failedAttempt]).table.slots
        (([taggedLibrary] ++ [plainLibrary]) ++ [plainLibrary]) := by
      refine clean_concat.2 ⟨htwo, fun _ _ _ => ?_⟩
      rw [leftover_kept rfl]
      exact hothers 1
    exact (install_right_iff [failedAttempt] ⟨true, [taggedLibrary, plainLibrary, plainLibrary], true⟩
      rfl rfl).2 hthree
  · intro hright
    have hclean := (install_right_iff [failedAttempt] ⟨true, [plainLibrary, taggedLibrary], true⟩ rfl rfl).1 hright
    have hnone : ((attempted [failedAttempt]).table.slots.getD 0 blank).buildId = [] :=
      hclean [] plainLibrary ⟨[taggedLibrary], rfl⟩ rfl (by decide) rfl
    rw [hfirst] at hnone
    cases hnone

/-- **A build id goes to another object**: the library is entered with the build id of the object
in front of it, which has no `PT_LOAD`. -/
theorem plainLibrary_mislabelled :
    ¬ ∀ (earlier : List Attempt) (a : Attempt), a.opens = true →
      (attempted earlier).installed = false →
        (install (attempted earlier) a).1.table.Right a.objects := by
  intro hall
  have hright := hall [] ⟨true, [noteOnly, plainLibrary], true⟩ rfl rfl
  have hclean := (right_iff .empty rfl [noteOnly, plainLibrary]).2.mp hright
  have hnone := hclean [noteOnly] plainLibrary (List.prefix_refl _) rfl (by decide) rfl
  have hids : noteOnly.ownIds = [[0xab, 0xcd]] := by
    simp [LoadedObject.ownIds, noteOnly, Phdr.buildId, idNote_buildId]
  have hskipped : [noteOnly].rtakeWhile (fun o => !o.hasLoad) = [noteOnly] := rfl
  rw [leftover, hskipped, List.flatMap_singleton, hids] at hnone
  exact absurd hnone (by decide)

end Tombstone.ModuleTable
