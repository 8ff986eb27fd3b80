import Tombstone.ModuleTable
import Tombstone.Interleave

/- The native crash handler of a running process (`tombstone_signal_handler` and `install` in
   `native_crash.cpp`), under faults on any threads at any time.

   A thread is interrupted by a signal: what the handler does is put in front of what the thread
   was doing, and a signal that is being handled on a thread is blocked there. `write` may be
   short, interrupted, or fail; another library's handler may return or end the process.

   1. The process and its steps (`perform`, `env`).
   2. What the installation and the handler keep (`Sound`, `ThreadAt`): only one install runs at a
      time, a signal is taken once, and what was saved for it is never our own handler.
   3. What any step can be (`Stepped`), for the results of `CrashDump`. -/
namespace Tombstone.CrashHandler
open NativeDump ModuleTable

/-- `kSignals`: SIGSEGV, SIGABRT, SIGBUS, SIGILL, SIGFPE, SIGTRAP. -/
def kSignals : List Int32 := [11, 6, 7, 4, 8, 5]

/-- A signal on a thread, with what the handler reads of its `siginfo_t` and its context. -/
structure Fault where
  thread : Nat
  signal : Int32
  code : Int32
  address : UInt64
  pc : UInt64
  lr : UInt64
  deriving DecidableEq

/-- What is installed for a signal: a null handler is the default. -/
inductive Disposition
  | default
  | ignore
  | foreign (siginfo : Bool) (handler : Nat)
  | ours
  deriving DecidableEq

inductive Ended
  | bySignal (signal : Int32)
  | byHandler (handler : Nat)
  deriving DecidableEq

structure State where
  -- `g_state` and `g_in_handler`
  table : Table := .empty
  dumpFd : Option Nat := none
  oldActions : Int32 → Disposition := fun _ => .default
  installed : Bool := false
  inHandler : Bool := false
  -- the process: what is installed for the signals, and what has been raised on which thread
  actions : Int32 → Disposition
  raised : List (Nat × Int32) := []
  ended : Option Ended := none
  /-- The thread whose `tombstone_init` holds the lock. -/
  initializing : Option Nat := none
  -- the disk: the file that the dump's name leads to in each data directory, and the files
  names : Nat → Option Nat := fun _ => none
  files : Nat → Bytes := fun _ => []
  nextFile : Nat := 0
  /-- Proof-only: the signals that `sigaction` has taken, the fault that came first, whether a
  write was given up, and what the file held when it was synced. -/
  taken : List Int32 := []
  first : Option Fault := none
  gaveUp : Bool := false
  synced : Option Bytes := none

inductive Act
  -- `tombstone_init`, with native crashes enabled and storage
  | takePrevious (dir : Nat)
  | openDump (dir : Nat) (objects : List LoadedObject)
  | capture (objects : List LoadedObject)
  | sigaction (signals : List Int32) (any : Bool)
  | endInit
  -- the handler
  | guard (f : Fault)
  | write (fd : Nat) (text : Bytes)
  | fsync (fd : Nat)
  | handOff (f : Fault)
  | chain (f : Fault)
  | foreign (handler : Nat)
  | reraise (f : Fault)
  | ret (f : Fault)

/-- What `write` returns. -/
inductive Wrote
  | bytes (n : Nat)
  | interrupted
  | failed

/-- What the system supplies to one action. -/
structure Input where
  /-- `open` or `sigaction` succeeds. -/
  ok : Bool := true
  wrote : Wrote := .failed
  /-- The other library's handler returns. -/
  returns : Bool := true

/-! ## The text of the dump -/

/-- The writes of `write_frame`. -/
def framePieces : CapturedFrame → List Bytes
  | .unresolved address => [lit "frame ", lit "?? ", hexTo address, lit " \n"]
  | .resolved m offset =>
    [lit "frame ", m.name, lit " ", hexTo offset, lit " ", buildIdText m.buildId, lit "\n"]

/-- The frame of a code address, where it is known. -/
def knownFrame (modules : List ModuleEntry) (address : UInt64) : List Bytes :=
  if address ≠ 0 then framePieces (resolveModule modules address) else []

/-- The writes of `tombstone_signal_handler`. -/
def dumpPieces (modules : List ModuleEntry) (f : Fault) : List Bytes :=
  [lit "tombstone-native-crash 1\n",
   lit "signal ", decTo f.signal.toInt, lit "\n",
   lit "code ", decTo f.code.toInt, lit "\n",
   lit "fault ", hexTo f.address, lit "\n"] ++
    knownFrame modules f.pc ++ knownFrame modules f.lr ++ [lit "end\n"]

/-- The dump of a fault. -/
def dumpOf (modules : List ModuleEntry) (f : Fault) : Bytes :=
  signalHandler modules f.signal f.code f.address f.pc f.lr

theorem framePieces_flatten (frame : CapturedFrame) : (framePieces frame).flatten = writeFrame frame := by
  have hgap : lit "?? " = lit "??" ++ lit " " := by decide
  have hend : lit " \n" = lit " " ++ [10] := by decide
  have hline : lit "\n" = [10] := by decide
  cases frame <;> simp [framePieces, writeFrame, frameText, hgap, hend, hline]

theorem dumpPieces_flatten (modules : List ModuleEntry) (f : Fault) :
    (dumpPieces modules f).flatten = dumpOf modules f := by
  have hheader : lit "tombstone-native-crash 1\n" = lit "tombstone-native-crash 1" ++ [10] := by decide
  have htail : lit "end\n" = lit "end" ++ [10] := by decide
  have hline : lit "\n" = [10] := by decide
  have hknown : ∀ address, (knownFrame modules address).flatten =
      (if address ≠ 0 then [resolveModule modules address] else []).flatMap writeFrame := by
    intro address
    unfold knownFrame
    split
    · rw [framePieces_flatten, List.flatMap_singleton]
    · rfl
  simp only [dumpPieces, dumpOf, signalHandler, writeDump, List.flatten_append, hknown, List.flatMap_append]
  simp [hheader, htail, hline]

/-! ## The steps -/

/-- `chain_old`: what was installed for the signal. -/
def chainOld (s : State) (f : Fault) : List Act :=
  if f.signal ∈ kSignals then
    match s.oldActions f.signal with
    | .default | .ignore => [.reraise f]
    | .foreign _ handler => [.foreign handler]
    | .ours => [.guard f]
  else [.reraise f]

/-- A signal arrives that is not blocked. -/
def arrive (s : State) (f : Fault) : State × List Act :=
  match s.actions f.signal with
  | .default => ({ s with ended := some (.bySignal f.signal) }, [])
  | .ignore => (s, [])
  | .foreign _ handler => (s, [.foreign handler, .ret f])
  | .ours => (s, [.guard f, .ret f])

/-- The branch of the handler that won the guard. -/
def handle (s : State) (f : Fault) : List Act :=
  (match s.dumpFd with
    | some fd => (dumpPieces s.table.entries f).map (.write fd) ++ [.fsync fd]
    | none => []) ++ [.handOff f, .reraise f]

/-- One turn of the loop in `write_all`. -/
def writeAll (s : State) (fd : Nat) (text : Bytes) (wrote : Wrote) : State × List Act :=
  if text.isEmpty then (s, [])
  else
    match wrote with
    | .interrupted => (s, [.write fd text])
    | .failed | .bytes 0 => ({ s with gaveUp := true }, [])
    | .bytes (n + 1) =>
      ({ s with files := Function.update s.files fd (s.files fd ++ text.take (n + 1)) },
        [.write fd (text.drop (n + 1))])

/-- `open` with `O_CREAT` and `O_TRUNC`. -/
def openDump (s : State) (dir : Nat) (objects : List LoadedObject) : State × List Act :=
  let file := (s.names dir).getD s.nextFile
  ({ s with
      dumpFd := some file
      names := Function.update s.names dir (some file)
      files := Function.update s.files file []
      nextFile := if (s.names dir).isSome then s.nextFile else s.nextFile + 1 },
    [.capture objects, .sigaction kSignals false])

/-- The loop over the signals in `install`, and what follows it. -/
def sigactions (s : State) (signals : List Int32) (any ok : Bool) : State × List Act :=
  match signals with
  | [] => (if any then { s with installed := true } else { s with dumpFd := none }, [])
  | signal :: rest =>
    if ok then
      ({ s with
          oldActions := Function.update s.oldActions signal (s.actions signal)
          actions := Function.update s.actions signal .ours
          taken := signal :: s.taken },
        [.sigaction rest true])
    else (s, [.sigaction rest any])

/-- One action of a live process. -/
def act (s : State) (a : Act) (i : Input) : State × List Act :=
  match a with
  -- a dump is read and deleted
  | .takePrevious dir => ({ s with names := Function.update s.names dir none }, [])
  | .openDump dir objects =>
    if s.installed then (s, [])
    else if i.ok then openDump s dir objects
    else ({ s with dumpFd := none }, [])
  | .capture objects =>
    ({ s with table := objects.foldl phdrCallback { s.table with count := 0, count_le := Nat.zero_le _ } }, [])
  | .sigaction signals any => sigactions s signals any i.ok
  | .endInit => ({ s with initializing := none }, [])
  | .guard f =>
    if s.inHandler then (s, [.chain f])
    else ({ s with inHandler := true, first := some f }, handle s f)
  | .write fd text => writeAll s fd text i.wrote
  | .fsync fd => ({ s with synced := some (s.files fd) }, [])
  | .handOff f | .chain f => (s, chainOld s f)
  | .foreign handler => if i.returns then (s, []) else ({ s with ended := some (.byHandler handler) }, [])
  | .reraise f =>
    ({ s with
        actions := Function.update s.actions f.signal .default
        raised := (f.thread, f.signal) :: s.raised }, [])
  -- what was raised meanwhile is not blocked any more
  | .ret f => if (f.thread, f.signal) ∈ s.raised then arrive s f else (s, [])

def perform (s : State) (a : Act) (i : Input) : Option (State × List Act) :=
  if s.ended.isSome then none else some (act s a i)

/-- `tombstone_init`, as far as the crash handler goes. -/
structure InitCall where
  dir : Nat
  objects : List LoadedObject

def call (s : State) (t : Nat) (k : InitCall) : Option (State × List Act) :=
  if s.ended.isSome || s.initializing.isSome then none
  else some ({ s with initializing := some t },
    [.takePrevious k.dir, .openDump k.dir k.objects, .endInit])

/-- A signal on the thread is blocked while it is being handled there. -/
def Act.handles (signal : Int32) : Act → Bool
  | .ret f => f.signal == signal
  | _ => false

/-- A thread faults. The system ends a process whose fault is blocked or ignored. -/
def env (c : State × List (List Act)) (f : Fault) : Option (State × List (List Act)) :=
  match c.2[f.thread]? with
  | none => none
  | some p =>
    if c.1.ended.isSome then none
    else if p.any (Act.handles f.signal) || c.1.actions f.signal == .ignore then
      some ({ c.1 with ended := some (.bySignal f.signal) }, c.2)
    else some ((arrive c.1 f).1, c.2.set f.thread ((arrive c.1 f).2 ++ p))

def machine : Interleave.Machine State Act Input InitCall Fault := { perform, call, env }

abbrev Config := Interleave.Config State Act
abbrev Label := Interleave.Label Input InitCall Fault

def step : Config → Label → Option Config := Interleave.step machine

/-- A process starts: other libraries may have installed their handlers. -/
structure Started (c : Config) : Prop where
  shared : ∃ actions names files nextFile, c.shared = { actions, names, files, nextFile }
  threads : ∀ p ∈ c.threads, p = []
  foreign : ∀ signal, c.shared.actions signal ≠ .ours
  names : ∀ dir file, c.shared.names dir = some file → file < c.shared.nextFile

abbrev Reachable (c : Config) : Prop := Run.Reachable step Started c

/-! ## The installation and the handler -/

/-- What the process keeps. -/
structure Sound (s : State) : Prop where
  guarded : s.inHandler = s.first.isSome
  /-- What was saved for a signal is never our own handler. -/
  old : ∀ signal, s.oldActions signal ≠ .ours
  ours : ∀ signal, s.actions signal = .ours → signal ∈ s.taken
  raised : ∀ r ∈ s.raised, r.2 ∈ s.taken ∧ s.actions r.2 = .default
  armed : s.taken ≠ [] → s.dumpFd.isSome = true
  settled : s.initializing = none → s.taken ≠ [] → s.installed = true
  first : ∀ f, s.first = some f → f.signal ∈ s.taken

/-- The action is one of the handler's, on this thread. -/
def Act.InHandler (s : State) (t : Nat) : Act → Prop
  | .guard f => f.thread = t ∧ f.signal ∈ s.taken
  | .write fd _ | .fsync fd => s.dumpFd = some fd ∧ ∃ f, s.first = some f ∧ f.thread = t
  | .handOff f => s.first = some f ∧ f.thread = t
  | .chain f | .reraise f => f.thread = t ∧ f.signal ∈ s.taken
  | .ret f => f.thread = t
  | .foreign _ => True
  | _ => False

/-- Where `tombstone_init` is on a thread. -/
inductive InitAt (s : State) (t : Nat) : List Act → Prop
  | idle : InitAt s t []
  | begun (dir dir' : Nat) (objects : List LoadedObject) (mine : s.initializing = some t)
      (settled : s.taken ≠ [] → s.installed = true) :
      InitAt s t [.takePrevious dir, .openDump dir' objects, .endInit]
  | opening (dir : Nat) (objects : List LoadedObject) (mine : s.initializing = some t)
      (settled : s.taken ≠ [] → s.installed = true) : InitAt s t [.openDump dir objects, .endInit]
  | capturing (objects : List LoadedObject) (mine : s.initializing = some t) (fresh : s.installed = false)
      (untaken : s.taken = []) (opened : s.dumpFd.isSome = true) :
      InitAt s t [.capture objects, .sigaction kSignals false, .endInit]
  | arming (signals : List Int32) (any : Bool) (mine : s.initializing = some t) (fresh : s.installed = false)
      (any_iff : any = true ↔ s.taken ≠ []) (opened : s.dumpFd.isSome = true)
      (distinct : signals.Nodup) (untaken : ∀ signal ∈ signals, signal ∉ s.taken) :
      InitAt s t [.sigaction signals any, .endInit]
  | ending (mine : s.initializing = some t) (settled : s.taken ≠ [] → s.installed = true) :
      InitAt s t [.endInit]

/-- What a thread has still to do: the handlers that interrupted it, and its `tombstone_init`. -/
def ThreadAt (s : State) (t : Nat) (p : List Act) : Prop :=
  ∃ handlers rest, p = handlers ++ rest ∧ (∀ a ∈ handlers, a.InHandler s t) ∧ InitAt s t rest

/-- The handler changes nothing of the installation. -/
structure SameSetup (s s' : State) : Prop where
  table : s'.table = s.table
  dumpFd : s'.dumpFd = s.dumpFd
  oldActions : s'.oldActions = s.oldActions
  installed : s'.installed = s.installed
  initializing : s'.initializing = s.initializing
  taken : s'.taken = s.taken
  names : s'.names = s.names

theorem SameSetup.rfl {s : State} : SameSetup s s := ⟨.refl _, .refl _, .refl _, .refl _, .refl _, .refl _, .refl _⟩

variable {s s' : State} {t u : Nat} {a : Act} {p q new : List Act}

theorem InitAt.congr (h : InitAt s t p) (hsame : SameSetup s s') : InitAt s' t p := by
  obtain ⟨-, hfd, -, hinstalled, hinit, htaken, -⟩ := hsame
  cases h with
  | idle => exact .idle
  | begun dir dir' objects mine settled =>
    exact .begun dir dir' objects (hinit.trans mine) (by rwa [htaken, hinstalled])
  | opening dir objects mine settled =>
    exact .opening dir objects (hinit.trans mine) (by rwa [htaken, hinstalled])
  | capturing objects mine fresh untaken opened =>
    exact .capturing objects (hinit.trans mine) (hinstalled.trans fresh) (htaken.trans untaken) (by rwa [hfd])
  | arming signals any mine fresh any_iff opened distinct untaken =>
    exact .arming signals any (hinit.trans mine) (hinstalled.trans fresh) (by rwa [htaken]) (by rwa [hfd])
      distinct (by rwa [htaken])
  | ending mine settled => exact .ending (hinit.trans mine) (by rwa [htaken, hinstalled])

/-- Only the thread that holds the lock is in `tombstone_init`. -/
theorem InitAt.idle_of (h : InitAt s t p) (hother : s.initializing ≠ some t) : p = [] := by
  cases h with
  | idle => rfl
  | begun _ _ _ mine _ => exact absurd mine hother
  | opening _ _ mine _ => exact absurd mine hother
  | capturing _ mine _ _ _ => exact absurd mine hother
  | arming _ _ mine _ _ _ _ _ => exact absurd mine hother
  | ending mine _ => exact absurd mine hother

/-- An action of the handler stays one while the installation goes on: what is taken stays taken,
and nothing is written before a signal is taken. -/
theorem Act.InHandler.mono (h : a.InHandler s t) (hfirst : ∀ f, s.first = some f → s'.first = some f)
    (hfd : (∃ f, s.first = some f) → s'.dumpFd = s.dumpFd) (htaken : s.taken ⊆ s'.taken) :
    a.InHandler s' t := by
  cases a with
  | guard f => exact ⟨h.1, htaken h.2⟩
  | write fd text =>
    obtain ⟨hopen, f, hf, ht⟩ := h
    exact ⟨(hfd ⟨f, hf⟩).trans hopen, f, hfirst f hf, ht⟩
  | fsync fd =>
    obtain ⟨hopen, f, hf, ht⟩ := h
    exact ⟨(hfd ⟨f, hf⟩).trans hopen, f, hfirst f hf, ht⟩
  | handOff f => exact ⟨hfirst f h.1, h.2⟩
  | chain f => exact ⟨h.1, htaken h.2⟩
  | reraise f => exact ⟨h.1, htaken h.2⟩
  | ret f => exact h
  | foreign handler => trivial
  | takePrevious dir => exact h.elim
  | openDump dir objects => exact h.elim
  | capture objects => exact h.elim
  | sigaction signals any => exact h.elim
  | endInit => exact h.elim

/-- What a step of the handler does: it keeps the installation, follows up with its own actions, and
never forgets the first fault. -/
structure Handled (s s' : State) (t : Nat) (new : List Act) : Prop where
  setup : SameSetup s s'
  sound : Sound s'
  first : ∀ f, s.first = some f → s'.first = some f
  new : ∀ b ∈ new, b.InHandler s' t

/-- What was installed before us is another library's. -/
theorem chainOld_inHandler (hs : Sound s) {f : Fault} (ht : f.thread = t) (htaken : f.signal ∈ s.taken) :
    ∀ b ∈ chainOld s f, b.InHandler s t := by
  have hre : (Act.reraise f).InHandler s t := ⟨ht, htaken⟩
  unfold chainOld
  split
  · split
    · simpa using hre
    · simpa using hre
    · exact fun b hb => by rw [List.mem_singleton.1 hb]; trivial
    · rename_i hours
      exact absurd hours (hs.old _)
  · simpa using hre

theorem Sound.congr (hs : Sound s) (hsame : SameSetup s s') (hguard : s'.inHandler = s.inHandler)
    (hfirst : s'.first = s.first) (hactions : s'.actions = s.actions) (hraised : s'.raised = s.raised) :
    Sound s' := by
  obtain ⟨htable, hfd, hold, hinstalled, hinit, htaken, -⟩ := hsame
  refine ⟨by rw [hguard, hfirst, hs.guarded], by rw [hold]; exact hs.old, ?_, ?_, ?_, ?_, ?_⟩
  · rw [hactions, htaken]; exact hs.ours
  · rw [hraised, hactions, htaken]; exact hs.raised
  · rw [hfd, htaken]; exact hs.armed
  · rw [hinit, htaken, hinstalled]; exact hs.settled
  · rw [hfirst, htaken]; exact hs.first

/-- A step that leaves the guard and the signals as they are. -/
theorem Handled.quiet (hs : Sound s) (hsame : SameSetup s s') (hguard : s'.inHandler = s.inHandler)
    (hfirst : s'.first = s.first) (hactions : s'.actions = s.actions) (hraised : s'.raised = s.raised)
    (hnew : ∀ b ∈ new, b.InHandler s t) : Handled s s' t new := by
  refine ⟨hsame, hs.congr hsame hguard hfirst hactions hraised, fun f hf => hfirst.trans hf, fun b hb => ?_⟩
  refine (hnew b hb).mono (fun f hf => hfirst.trans hf) (fun _ => hsame.dumpFd) ?_
  exact hsame.taken ▸ List.Subset.refl _

/-- **What the handler does.** -/
theorem act_handled (hs : Sound s) (ha : a.InHandler s t) (i : Input) :
    Handled s (act s a i).1 t (act s a i).2 := by
  have hkeep : ∀ {new : List Act}, (∀ b ∈ new, b.InHandler s t) → Handled s s t new :=
    fun hnew => .quiet hs .rfl rfl rfl rfl rfl hnew
  have hnone : ∀ b ∈ ([] : List Act), b.InHandler s t := fun b hb => absurd hb List.not_mem_nil
  cases a with
  | guard f =>
    obtain ⟨ht, htaken⟩ := ha
    simp only [act]
    split
    · exact hkeep fun b hb => by rw [List.mem_singleton.1 hb]; exact ⟨ht, htaken⟩
    · rename_i hfree
      have hfirst : s.first = none := by
        rw [hs.guarded] at hfree
        simpa using hfree
      have hwins : ∀ b ∈ handle s f, b.InHandler { s with inHandler := true, first := some f } t := by
        intro b hb
        simp only [handle, List.mem_append, List.mem_cons, List.not_mem_nil, or_false] at hb
        rcases hb with hb | rfl | rfl
        · split at hb
          · rename_i fd hfd
            rcases List.mem_append.1 hb with hb | hb
            · obtain ⟨text, -, rfl⟩ := List.mem_map.1 hb
              exact ⟨hfd, f, rfl, ht⟩
            · rw [List.mem_singleton.1 hb]
              exact ⟨hfd, f, rfl, ht⟩
          · cases hb
        · exact ⟨rfl, ht⟩
        · exact ⟨ht, htaken⟩
      refine ⟨⟨rfl, rfl, rfl, rfl, rfl, rfl, rfl⟩, ⟨rfl, hs.old, hs.ours, hs.raised, hs.armed, hs.settled, ?_⟩, fun g hg => ?_, hwins⟩
      · intro g hg
        rwa [← Option.some.inj hg]
      · rw [hfirst] at hg
        cases hg
  | write fd text =>
    simp only [act, writeAll]
    split
    · exact hkeep hnone
    · split
      · exact hkeep fun b hb => by rw [List.mem_singleton.1 hb]; exact ha
      · exact .quiet hs ⟨rfl, rfl, rfl, rfl, rfl, rfl, rfl⟩ rfl rfl rfl rfl hnone
      · exact .quiet hs ⟨rfl, rfl, rfl, rfl, rfl, rfl, rfl⟩ rfl rfl rfl rfl hnone
      · refine .quiet hs ⟨rfl, rfl, rfl, rfl, rfl, rfl, rfl⟩ rfl rfl rfl rfl fun b hb => ?_
        rw [List.mem_singleton.1 hb]
        exact ha
  | fsync fd => exact .quiet hs ⟨rfl, rfl, rfl, rfl, rfl, rfl, rfl⟩ rfl rfl rfl rfl hnone
  | handOff f => exact hkeep (chainOld_inHandler hs ha.2 (hs.first f ha.1))
  | chain f => exact hkeep (chainOld_inHandler hs ha.1 ha.2)
  | foreign handler =>
    simp only [act]
    split
    · exact hkeep hnone
    · exact .quiet hs ⟨rfl, rfl, rfl, rfl, rfl, rfl, rfl⟩ rfl rfl rfl rfl hnone
  | reraise f =>
    obtain ⟨ht, htaken⟩ := ha
    refine ⟨⟨rfl, rfl, rfl, rfl, rfl, rfl, rfl⟩,
      ⟨hs.guarded, hs.old, fun signal hours => ?_, fun r hr => ?_, hs.armed, hs.settled, hs.first⟩,
      fun _ h => h, fun b hb => absurd hb List.not_mem_nil⟩
    · by_cases hsame : signal = f.signal
      · rwa [hsame]
      · have hours : Function.update s.actions f.signal .default signal = .ours := hours
        rw [Function.update_of_ne hsame] at hours
        exact hs.ours signal hours
    · rcases List.mem_cons.1 hr with rfl | hr
      · exact ⟨htaken, Function.update_self ..⟩
      · refine ⟨(hs.raised r hr).1, ?_⟩
        show Function.update s.actions f.signal .default r.2 = .default
        by_cases hsame : r.2 = f.signal
        · rw [hsame, Function.update_self]
        · rw [Function.update_of_ne hsame]
          exact (hs.raised r hr).2
  | ret f =>
    simp only [act]
    split
    · rename_i hraised
      -- what was raised is at its default by now
      simp only [arrive, (hs.raised _ hraised).2]
      exact .quiet hs ⟨rfl, rfl, rfl, rfl, rfl, rfl, rfl⟩ rfl rfl rfl rfl hnone
    · exact hkeep hnone
  | takePrevious dir => exact ha.elim
  | openDump dir objects => exact ha.elim
  | capture objects => exact ha.elim
  | sigaction signals any => exact ha.elim
  | endInit => exact ha.elim

/-! ## The installation -/

/-- What a step of `tombstone_init` keeps for the handlers of other threads. -/
structure Installed (s s' : State) : Prop where
  sound : Sound s'
  first : s'.first = s.first
  dumpFd : s.taken ≠ [] → s'.dumpFd = s.dumpFd
  table : s.taken ≠ [] → s'.table = s.table
  files : s.taken ≠ [] → s'.files = s.files
  taken : s.taken ⊆ s'.taken
  raised : s'.raised = s.raised
  gaveUp : s'.gaveUp = s.gaveUp
  synced : s'.synced = s.synced
  ended : s'.ended = s.ended

/-- Before a signal is taken, nothing has been handled. -/
theorem Sound.untaken (hs : Sound s) (h : s.taken = []) : s.first = none ∧ s.raised = [] := by
  constructor
  · cases hf : s.first with
    | none => rfl
    | some f => exact absurd (hs.first f hf) (h ▸ List.not_mem_nil)
  · cases hr : s.raised with
    | nil => rfl
    | cons r rest => exact absurd (hs.raised r (hr ▸ List.mem_cons_self)).1 (h ▸ List.not_mem_nil)

/-- **What a step of the installation does.** -/
theorem act_installs (hs : Sound s) (h : InitAt s t (a :: q)) (i : Input) :
    Installed s (act s a i).1 ∧ InitAt (act s a i).1 t ((act s a i).2 ++ q) := by
  cases h with
  | begun dir dir' objects mine settled =>
    refine ⟨⟨?_, rfl, fun _ => rfl, fun _ => rfl, fun _ => rfl, List.Subset.refl _, rfl, rfl, rfl, rfl⟩, ?_⟩
    · exact ⟨hs.guarded, hs.old, hs.ours, hs.raised, hs.armed, hs.settled, hs.first⟩
    · exact .opening dir' objects mine settled
  | opening dir objects mine settled =>
    simp only [act]
    split
    · exact ⟨⟨hs, rfl, fun _ => rfl, fun _ => rfl, fun _ => rfl, List.Subset.refl _, rfl, rfl, rfl, rfl⟩,
        .ending mine settled⟩
    · rename_i hfree
      have huntaken : s.taken = [] := by
        by_contra htaken
        exact hfree (settled htaken)
      split
      · refine ⟨⟨?_, rfl, fun h => absurd huntaken h, fun _ => rfl, fun h => absurd huntaken h,
          List.Subset.refl _, rfl, rfl, rfl, rfl⟩, ?_⟩
        · exact ⟨hs.guarded, hs.old, hs.ours, hs.raised, fun _ => rfl, hs.settled, hs.first⟩
        · exact .capturing objects mine (Bool.eq_false_of_not_eq_true hfree) huntaken rfl
      · refine ⟨⟨?_, rfl, fun h => absurd huntaken h, fun _ => rfl, fun _ => rfl,
          List.Subset.refl _, rfl, rfl, rfl, rfl⟩, ?_⟩
        · exact ⟨hs.guarded, hs.old, hs.ours, hs.raised, fun h => absurd huntaken h, hs.settled, hs.first⟩
        · exact .ending mine settled
  | capturing objects mine fresh untaken opened =>
    refine ⟨⟨?_, rfl, fun _ => rfl, fun h => absurd untaken h, fun _ => rfl, List.Subset.refl _,
      rfl, rfl, rfl, rfl⟩, ?_⟩
    · exact ⟨hs.guarded, hs.old, hs.ours, hs.raised, hs.armed, hs.settled, hs.first⟩
    · refine .arming kSignals false mine fresh ?_ opened (by decide) ?_
      · exact iff_of_false Bool.noConfusion (not_not.2 untaken)
      · exact fun signal _ => untaken ▸ List.not_mem_nil
  | arming signals any mine fresh any_iff opened distinct untaken =>
    simp only [act]
    cases signals with
    | nil =>
      simp only [sigactions]
      split
      · rename_i hany
        refine ⟨⟨?_, rfl, fun _ => rfl, fun _ => rfl, fun _ => rfl, List.Subset.refl _, rfl, rfl, rfl, rfl⟩,
          .ending mine fun _ => rfl⟩
        exact ⟨hs.guarded, hs.old, hs.ours, hs.raised, hs.armed, fun _ _ => rfl, hs.first⟩
      · rename_i hany
        have hnone : s.taken = [] := by
          by_contra htaken
          exact hany (any_iff.2 htaken)
        refine ⟨⟨?_, rfl, fun h => absurd hnone h, fun _ => rfl, fun _ => rfl, List.Subset.refl _,
          rfl, rfl, rfl, rfl⟩, .ending mine fun h => absurd hnone h⟩
        exact ⟨hs.guarded, hs.old, hs.ours, hs.raised, fun h => absurd hnone h, hs.settled, hs.first⟩
    | cons signal rest =>
      have hfresh := untaken signal List.mem_cons_self
      obtain ⟨hnotin, hrest⟩ := List.nodup_cons.1 distinct
      simp only [sigactions]
      split
      · refine ⟨⟨⟨hs.guarded, fun sig => ?_, fun sig hours => ?_, fun r hr => ?_, fun _ => opened, ?_, ?_⟩,
          rfl, fun _ => rfl, fun _ => rfl, fun _ => rfl, List.subset_cons_self _ _, rfl, rfl, rfl, rfl⟩, ?_⟩
        · by_cases hsame : sig = signal
          · rw [hsame]
            show Function.update _ _ _ _ ≠ _
            rw [Function.update_self]
            exact fun hours => hfresh (hs.ours _ hours)
          · show Function.update _ _ _ _ ≠ _
            rw [Function.update_of_ne hsame]
            exact hs.old sig
        · by_cases hsame : sig = signal
          · exact hsame ▸ List.mem_cons_self
          · have hours : Function.update s.actions signal .ours sig = .ours := hours
            rw [Function.update_of_ne hsame] at hours
            exact List.mem_cons_of_mem _ (hs.ours sig hours)
        · obtain ⟨htaken, hdefault⟩ := hs.raised r hr
          refine ⟨List.mem_cons_of_mem _ htaken, ?_⟩
          have hother : r.2 ≠ signal := fun hsame => hfresh (hsame ▸ htaken)
          show Function.update _ _ _ _ = _
          rwa [Function.update_of_ne hother]
        · intro hnone
          rw [show s.initializing = some t from mine] at hnone
          cases hnone
        · exact fun f hf => List.mem_cons_of_mem _ (hs.first f hf)
        · refine .arming rest true mine fresh (iff_of_true rfl (List.cons_ne_nil _ _)) opened hrest ?_
          intro sig hsig hmem
          rcases List.mem_cons.1 hmem with rfl | hmem
          · exact hnotin hsig
          · exact untaken sig (List.mem_cons_of_mem _ hsig) hmem
      · refine ⟨⟨hs, rfl, fun _ => rfl, fun _ => rfl, fun _ => rfl, List.Subset.refl _, rfl, rfl, rfl, rfl⟩, ?_⟩
        exact .arming rest any mine fresh any_iff opened hrest fun sig hsig => untaken sig (List.mem_cons_of_mem _ hsig)
  | ending mine settled =>
    refine ⟨⟨?_, rfl, fun _ => rfl, fun _ => rfl, fun _ => rfl, List.Subset.refl _, rfl, rfl, rfl, rfl⟩, .idle⟩
    exact ⟨hs.guarded, hs.old, hs.ours, hs.raised, hs.armed, fun _ => settled, hs.first⟩

/-! ## Every run -/

theorem InitAt.mine (h : InitAt s t (a :: q)) : s.initializing = some t := by
  cases h <;> assumption

theorem ThreadAt.idle (s : State) (t : Nat) : ThreadAt s t [] :=
  ⟨[], [], rfl, fun _ h => absurd h List.not_mem_nil, .idle⟩

theorem ThreadAt.head (h : ThreadAt s t (a :: p)) :
    (a.InHandler s t ∧ ThreadAt s t p) ∨ InitAt s t (a :: p) := by
  obtain ⟨handlers, rest, heq, hhandlers, hrest⟩ := h
  cases handlers with
  | nil =>
    rw [List.nil_append] at heq
    exact .inr (heq ▸ hrest)
  | cons b bs =>
    obtain ⟨rfl, rfl⟩ := List.cons.inj heq
    exact .inl ⟨hhandlers _ List.mem_cons_self, bs, rest, rfl,
      fun c hc => hhandlers c (List.mem_cons_of_mem _ hc), hrest⟩

theorem ThreadAt.interrupt (h : ThreadAt s t p) (hnew : ∀ b ∈ new, b.InHandler s t) :
    ThreadAt s t (new ++ p) := by
  obtain ⟨handlers, rest, rfl, hhandlers, hrest⟩ := h
  exact ⟨new ++ handlers, rest, (List.append_assoc ..).symm,
    List.forall_mem_append.2 ⟨hnew, hhandlers⟩, hrest⟩

theorem ThreadAt.handled (h : ThreadAt s u q) (hstep : Handled s s' t new) : ThreadAt s' u q := by
  obtain ⟨handlers, rest, rfl, hhandlers, hrest⟩ := h
  refine ⟨handlers, rest, rfl, fun a ha => ?_, hrest.congr hstep.setup⟩
  refine (hhandlers a ha).mono hstep.first (fun _ => hstep.setup.dumpFd) ?_
  exact hstep.setup.taken ▸ List.Subset.refl _

theorem ThreadAt.installed (h : ThreadAt s u q) (hs : Sound s) (hstep : Installed s s')
    (hother : s.initializing ≠ some u) : ThreadAt s' u q := by
  obtain ⟨handlers, rest, rfl, hhandlers, hrest⟩ := h
  rw [hrest.idle_of hother]
  refine ⟨handlers, [], rfl, fun a ha => ?_, .idle⟩
  refine (hhandlers a ha).mono (fun f hf => hstep.first.trans hf) ?_ hstep.taken
  rintro ⟨f, hf⟩
  exact hstep.dumpFd (List.ne_nil_of_mem (hs.first f hf))

/-- A signal that arrives is handled by us, by another library, or by the system. -/
theorem arrive_handled (hs : Sound s) {f : Fault} : Handled s (arrive s f).1 f.thread (arrive s f).2 := by
  have hnone : ∀ b ∈ ([] : List Act), b.InHandler s f.thread := fun b hb => absurd hb List.not_mem_nil
  unfold arrive
  split
  · exact .quiet hs ⟨rfl, rfl, rfl, rfl, rfl, rfl, rfl⟩ rfl rfl rfl rfl hnone
  · exact .quiet hs .rfl rfl rfl rfl rfl hnone
  · refine .quiet hs .rfl rfl rfl rfl rfl fun b hb => ?_
    rcases List.mem_cons.1 hb with rfl | hb
    · trivial
    · rw [List.mem_singleton.1 hb]
      exact rfl
  · rename_i hours
    refine .quiet hs .rfl rfl rfl rfl rfl fun b hb => ?_
    rcases List.mem_cons.1 hb with rfl | hb
    · exact ⟨rfl, hs.ours _ hours⟩
    · rw [List.mem_singleton.1 hb]
      exact rfl

variable {c c' : Config} {l : Label}

/-- **What an alive process does in one step.** -/
inductive Stepped (c : Config) : Label → Config → Prop
  | handler {t : Nat} {a : Act} {rest : List Act} (i : Input) (at_head : c.threads[t]? = some (a :: rest))
      (handles : a.InHandler c.shared t) (alive : c.shared.ended = none) :
      Stepped c (.exec t i) ⟨(act c.shared a i).1, c.threads.set t ((act c.shared a i).2 ++ rest)⟩
  | init {t : Nat} {a : Act} {rest : List Act} (i : Input) (at_head : c.threads[t]? = some (a :: rest))
      (at_init : InitAt c.shared t (a :: rest)) (alive : c.shared.ended = none) :
      Stepped c (.exec t i) ⟨(act c.shared a i).1, c.threads.set t ((act c.shared a i).2 ++ rest)⟩
  | call {t : Nat} (k : InitCall) (idle : c.threads[t]? = some []) (free : c.shared.initializing = none)
      (alive : c.shared.ended = none) :
      Stepped c (.call t k) ⟨{ c.shared with initializing := some t },
        c.threads.set t [.takePrevious k.dir, .openDump k.dir k.objects, .endInit]⟩
  | forced {f : Fault} {p : List Act} (running : c.threads[f.thread]? = some p) (alive : c.shared.ended = none) :
      Stepped c (.env f) ⟨{ c.shared with ended := some (.bySignal f.signal) }, c.threads⟩
  | arrives {f : Fault} {p : List Act} (running : c.threads[f.thread]? = some p)
      (alive : c.shared.ended = none) (free : p.any (Act.handles f.signal) = false) :
      Stepped c (.env f) ⟨(arrive c.shared f).1, c.threads.set f.thread ((arrive c.shared f).2 ++ p)⟩

theorem step_stepped (hc : Interleave.Inv Sound ThreadAt c) (h : step c l = some c') : Stepped c l c' := by
  rcases Interleave.step_cases h with ⟨t, i, a, rest, s', new, rfl, ht, hp, rfl⟩ |
    ⟨t, k, s', new, rfl, ht, hk, rfl⟩ | ⟨f, rfl, he⟩
  · simp only [machine, perform] at hp
    split at hp
    · cases hp
    · rename_i halive
      have halive : c.shared.ended = none := by simpa using halive
      obtain ⟨rfl, rfl⟩ := Prod.mk.inj (Option.some.inj hp)
      rcases (hc.threads t _ ht).head with ⟨hhandles, -⟩ | hinit
      · exact .handler i ht hhandles halive
      · exact .init i ht hinit halive
  · simp only [machine, call] at hk
    split at hk
    · cases hk
    · rename_i hfree
      simp only [Bool.or_eq_true, not_or, Bool.not_eq_true, Option.isSome_eq_false_iff, Option.isNone_iff_eq_none] at hfree
      obtain ⟨rfl, rfl⟩ := Prod.mk.inj (Option.some.inj hk)
      exact .call k ht hfree.2 hfree.1
  · simp only [machine, env] at he
    split at he
    · cases he
    · rename_i p hp
      split at he
      · cases he
      · rename_i halive
        have halive : c.shared.ended = none := by simpa using halive
        obtain ⟨s', ps'⟩ := c'
        split at he <;> rename_i hblocked <;> obtain ⟨rfl, rfl⟩ := Prod.mk.inj (Option.some.inj he)
        · exact .forced hp halive
        · refine .arrives hp halive ?_
          rw [Bool.or_eq_true, not_or] at hblocked
          simpa using hblocked.1

/-- A thread that was set is the one that was set, or another one as it was. -/
theorem set_threads {P : Nat → List Act → Prop} {ps : List (List Act)} (hset : P t p)
    (hother : ∀ v q, v ≠ t → ps[v]? = some q → P v q) : ∀ v q, (ps.set t p)[v]? = some q → P v q := by
  intro v q hq
  rw [List.getElem?_set] at hq
  split at hq
  · rename_i hsame
    split at hq
    · obtain rfl := Option.some.inj hq
      exact hsame ▸ hset
    · cases hq
  · rename_i hne
    exact hother v q (Ne.symm hne) hq

theorem inv_step (hc : Interleave.Inv Sound ThreadAt c) (h : step c l = some c') :
    Interleave.Inv Sound ThreadAt c' := by
  cases step_stepped hc h with
  | handler i ht hhandles halive =>
    have hstep := act_handled hc.shared hhandles i
    refine ⟨hstep.sound, set_threads ?_ fun v q _ hq => (hc.threads v q hq).handled hstep⟩
    rcases (hc.threads _ _ ht).head with ⟨-, hrest⟩ | hinit
    · exact (hrest.handled hstep).interrupt hstep.new
    · exact absurd hhandles (by cases hinit <;> exact id)
  | init i ht hinit halive =>
    obtain ⟨hstep, hat⟩ := act_installs hc.shared hinit i
    refine ⟨hstep.sound, set_threads ⟨[], _, rfl, fun _ h => absurd h List.not_mem_nil, hat⟩
      fun v q hne hq => (hc.threads v q hq).installed hc.shared hstep ?_⟩
    rw [hinit.mine]
    exact fun hsame => hne (Option.some.inj hsame).symm
  | call k hidle hfree halive =>
    have hs := hc.shared
    refine ⟨⟨hs.guarded, hs.old, hs.ours, hs.raised, hs.armed, fun h => (Option.some_ne_none _ h).elim, hs.first⟩,
      set_threads ?_ fun v q hne hq => ?_⟩
    · exact ⟨[], _, rfl, fun _ h => absurd h List.not_mem_nil, .begun _ _ _ rfl (hs.settled hfree)⟩
    · obtain ⟨handlers, rest, rfl, hhandlers, hrest⟩ := hc.threads v q hq
      rw [hrest.idle_of (by rw [hfree]; exact (Option.some_ne_none v).symm)]
      exact ⟨handlers, [], rfl, fun a ha => (hhandlers a ha).mono (fun _ h => h) (fun _ => rfl)
        (List.Subset.refl _), .idle⟩
  | @forced f p hp halive =>
    have hstep : Handled c.shared { c.shared with ended := some (.bySignal f.signal) } 0 [] :=
      .quiet hc.shared ⟨rfl, rfl, rfl, rfl, rfl, rfl, rfl⟩ rfl rfl rfl rfl
        fun b hb => absurd hb List.not_mem_nil
    exact ⟨hstep.sound, fun v q hq => (hc.threads v q hq).handled hstep⟩
  | @arrives f p hp halive hfree =>
    have hstep := arrive_handled hc.shared (f := f)
    refine ⟨hstep.sound, set_threads ?_ fun v q _ hq => (hc.threads v q hq).handled hstep⟩
    exact ((hc.threads _ _ hp).handled hstep).interrupt hstep.new

theorem reachable_inv (h : Reachable c) : Interleave.Inv Sound ThreadAt c := by
  obtain ⟨c₀, labels, hstart, hrun⟩ := h
  refine Run.run_inv (fun _ _ _ hc hs => inv_step hc hs) ?_ hrun
  obtain ⟨actions, names, files, nextFile, hshared⟩ := hstart.shared
  refine ⟨?_, fun t p hp => ?_⟩
  · have hforeign := hstart.foreign
    rw [hshared] at hforeign ⊢
    exact ⟨rfl, fun _ => Disposition.noConfusion, fun signal hours => absurd hours (hforeign signal),
      fun r hr => absurd hr List.not_mem_nil, fun h => absurd rfl h, fun _ h => absurd rfl h,
      fun f hf => (Option.some_ne_none f hf.symm).elim⟩
  · rw [hstart.threads p (List.mem_of_getElem? hp)]
    exact .idle _ _

end Tombstone.CrashHandler
