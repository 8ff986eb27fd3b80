import Tombstone.CrashHandler

/- What becomes of a crash (`tombstone_signal_handler` in `native_crash.cpp`), however many threads
   fault and whenever they do.

   1. The dump has one writer, the thread of the first fault: the file is always the front of that
      fault's dump, and it is whole and synced before the fault is handed to whatever was installed
      for the signal before (`first_fault_dumped`).
   2. The process does not outlive the handling of the first fault, and it ends by that fault's
      signal if no other library's handler ends it (`first_fault_fatal`).
   3. The file keeps its name until the next `tombstone_init` of the process reads and deletes
      what it finds there; the handler goes on writing to the file without a name
      (`dump_named_iff`). -/
namespace Tombstone.CrashHandler
open NativeDump ModuleTable

variable {s s' : State} {t : Nat} {a : Act} {p q new rest : List Act} {f : Fault} {c c' : Config} {l : Label}

/-! ## The dump -/

/-- The action is a step of the dump or ends it. -/
def Act.dumps : Act → Bool
  | .write _ _ | .fsync _ | .handOff _ => true
  | _ => false

/-- The steps of the dump that a thread has still to take. -/
def dumping (p : List Act) : List Act := p.filter Act.dumps

/-- How far the dump of the fault is. Once a write was given up, what the file holds is not said. -/
inductive DumpAt (s : State) (f : Fault) : List Act → Prop
  | writing (fd : Nat) (texts : List Bytes) (opened : s.dumpFd = some fd)
      (so_far : s.gaveUp = false → s.files fd ++ texts.flatten = dumpOf s.table.entries f) :
      DumpAt s f (texts.map (.write fd) ++ [.fsync fd, .handOff f])
  | synced (fd : Nat) (opened : s.dumpFd = some fd)
      (whole : s.gaveUp = false → s.files fd = dumpOf s.table.entries f ∧ s.synced = some (s.files fd)) :
      DumpAt s f [.handOff f]
  | handed (fd : Nat) (opened : s.dumpFd = some fd)
      (whole : s.gaveUp = false → s.files fd = dumpOf s.table.entries f ∧ s.synced = some (s.files fd)) :
      DumpAt s f []

/-- Once there was a fault, its thread is dumping it or is done. -/
def Dumped (c : Config) : Prop :=
  ∀ f, c.shared.first = some f → ∃ p, c.threads[f.thread]? = some p ∧ DumpAt c.shared f (dumping p)

/-- The file, its descriptor and the table are as they were. -/
structure SameDump (s s' : State) : Prop where
  dumpFd : s'.dumpFd = s.dumpFd
  table : s'.table = s.table
  files : s'.files = s.files
  gaveUp : s'.gaveUp = s.gaveUp
  synced : s'.synced = s.synced

theorem DumpAt.congr (h : DumpAt s f p) (hsame : SameDump s s') : DumpAt s' f p := by
  obtain ⟨hfd, htable, hfiles, hgave, hsynced⟩ := hsame
  cases h with
  | writing fd texts opened so_far =>
    exact .writing fd texts (hfd.trans opened) (by rwa [hgave, hfiles, htable])
  | synced fd opened whole => exact .synced fd (hfd.trans opened) (by rwa [hgave, hfiles, htable, hsynced])
  | handed fd opened whole => exact .handed fd (hfd.trans opened) (by rwa [hgave, hfiles, htable, hsynced])

theorem dumping_append (p q : List Act) : dumping (p ++ q) = dumping p ++ dumping q :=
  List.filter_append ..

/-- A program without steps of the dump. -/
theorem dumping_nil (h : ∀ a ∈ p, a.dumps = false) : dumping p = [] :=
  List.filter_eq_nil_iff.2 fun a ha => by simp [h a ha]

theorem InitAt.dumping_nil (h : InitAt s t p) : dumping p = [] := by
  cases h <;> rfl

/-- Only the thread of the first fault has steps of the dump to take. -/
theorem ThreadAt.dumping_nil (h : ThreadAt s t p) (hother : ∀ f, s.first = some f → f.thread ≠ t) :
    dumping p = [] := by
  obtain ⟨handlers, rest, rfl, hhandlers, hrest⟩ := h
  rw [dumping_append, hrest.dumping_nil, List.append_nil]
  refine CrashHandler.dumping_nil fun a ha => ?_
  have hin := hhandlers a ha
  cases a with
  | write fd text =>
    obtain ⟨-, f, hf, ht⟩ := hin
    exact absurd ht (hother f hf)
  | fsync fd =>
    obtain ⟨-, f, hf, ht⟩ := hin
    exact absurd ht (hother f hf)
  | handOff f => exact absurd hin.2 (hother f hin.1)
  | _ => rfl

theorem chainOld_quiet (s : State) (f : Fault) : dumping (chainOld s f) = [] := by
  unfold chainOld
  split
  · split <;> rfl
  · rfl

theorem arrive_quiet (s : State) (f : Fault) : dumping (arrive s f).2 = [] := by
  unfold arrive
  split <;> rfl

theorem arrive_same (s : State) (f : Fault) : SameDump s (arrive s f).1 ∧ (arrive s f).1.first = s.first := by
  unfold arrive
  split <;> exact ⟨⟨rfl, rfl, rfl, rfl, rfl⟩, rfl⟩

/-- Any other action leaves the dump as it is, unless it wins the guard. -/
theorem act_quiet (h : a.InHandler s t) (hquiet : a.dumps = false)
    (hguard : s.inHandler = true ∨ ∀ f, a ≠ .guard f) (i : Input) :
    dumping (act s a i).2 = [] ∧ SameDump s (act s a i).1 ∧ (act s a i).1.first = s.first := by
  cases a with
  | guard f =>
    have hheld : s.inHandler = true := hguard.resolve_right fun h => h f rfl
    have hact : act s (.guard f) i = (s, [.chain f]) := if_pos hheld
    rw [hact]
    exact ⟨rfl, ⟨rfl, rfl, rfl, rfl, rfl⟩, rfl⟩
  | write fd text => cases hquiet
  | fsync fd => cases hquiet
  | handOff f => cases hquiet
  | chain f => exact ⟨chainOld_quiet s f, ⟨rfl, rfl, rfl, rfl, rfl⟩, rfl⟩
  | foreign handler =>
    simp only [act]
    split <;> exact ⟨rfl, ⟨rfl, rfl, rfl, rfl, rfl⟩, rfl⟩
  | reraise f => exact ⟨rfl, ⟨rfl, rfl, rfl, rfl, rfl⟩, rfl⟩
  | ret f =>
    simp only [act]
    split
    · exact ⟨arrive_quiet s f, arrive_same s f⟩
    · exact ⟨rfl, ⟨rfl, rfl, rfl, rfl, rfl⟩, rfl⟩
  | takePrevious dir => exact h.elim
  | openDump dir objects => exact h.elim
  | capture objects => exact h.elim
  | sigaction signals any => exact h.elim
  | endInit => exact h.elim

/-- **A turn of `write_all`**: what was written is at the end of the file, and the rest is still to be
written; or nothing was, or the text was given up. -/
theorem writeAll_dump {fd : Nat} {text : Bytes} {texts : List Bytes} (hfd : s.dumpFd = some fd)
    (hso_far : s.gaveUp = false → s.files fd ++ (text :: texts).flatten = dumpOf s.table.entries f)
    (wrote : Wrote) :
    DumpAt (writeAll s fd text wrote).1 f
      ((writeAll s fd text wrote).2 ++ (texts.map (.write fd) ++ [.fsync fd, .handOff f])) := by
  unfold writeAll
  split
  · rename_i hnil
    refine .writing fd texts hfd fun hgave => ?_
    rw [← hso_far hgave, List.isEmpty_iff.1 hnil]
    rfl
  · split
    · exact .writing fd (text :: texts) hfd hso_far
    · exact .writing fd texts hfd fun hgave => absurd hgave Bool.noConfusion
    · exact .writing fd texts hfd fun hgave => absurd hgave Bool.noConfusion
    · rename_i n
      refine .writing fd (text.drop (n + 1) :: texts) hfd fun hgave => ?_
      show Function.update s.files fd _ fd ++ _ = _
      rw [← hso_far hgave, Function.update_self, List.flatten_cons, List.flatten_cons, List.append_assoc,
        ← List.append_assoc (text.take (n + 1)), List.take_append_drop]

/-- A step of the dump on its thread. -/
theorem act_dumps (h : DumpAt s f (a :: p)) (i : Input) :
    DumpAt (act s a i).1 f (dumping (act s a i).2 ++ p) := by
  generalize hq : a :: p = q at h
  cases h with
  | writing fd texts opened so_far =>
    cases texts with
    | nil =>
      obtain ⟨rfl, rfl⟩ := List.cons.inj hq
      refine .synced fd opened fun hgave => ⟨?_, rfl⟩
      have hwhole := so_far hgave
      rwa [List.flatten_nil, List.append_nil] at hwhole
    | cons text texts =>
      obtain ⟨rfl, rfl⟩ := List.cons.inj hq
      have hstep := writeAll_dump opened so_far i.wrote
      have hquiet : dumping (writeAll s fd text i.wrote).2 = (writeAll s fd text i.wrote).2 := by
        unfold writeAll
        split
        · rfl
        · split <;> rfl
      rw [act, hquiet]
      exact hstep
  | synced fd opened whole =>
    obtain ⟨rfl, rfl⟩ := List.cons.inj hq
    rw [act, chainOld_quiet]
    exact .handed fd opened whole
  | handed fd opened whole => cases hq

/-- The thread that wins the guard has the whole dump before it. -/
theorem handle_dump {fd : Nat} (hfd : s.dumpFd = some fd) (hempty : s.files fd = []) :
    DumpAt { s with inHandler := true, first := some f } f (dumping (handle s f)) := by
  have hhandle : dumping (handle s f) =
      (dumpPieces s.table.entries f).map (.write fd) ++ [.fsync fd, .handOff f] := by
    have hwrites : ∀ a ∈ (dumpPieces s.table.entries f).map (Act.write fd), a.dumps = true := by
      intro a ha
      obtain ⟨text, -, rfl⟩ := List.mem_map.1 ha
      rfl
    rw [handle, hfd]
    simp only [dumping_append]
    rw [dumping, List.filter_eq_self.2 hwrites, List.append_assoc]
    rfl
  rw [hhandle]
  refine .writing fd _ hfd fun _ => ?_
  rw [dumpPieces_flatten]
  show s.files fd ++ _ = _
  rw [hempty]
  rfl

/-! ## Every run -/

/-- Nothing is written before the first fault. -/
def Unwritten (s : State) : Prop := s.first = none → ∀ fd, s.dumpFd = some fd → s.files fd = []

/-- The handler writes for the first fault only. -/
theorem act_unwritten (hs : Sound s) (hun : Unwritten s) (ha : a.InHandler s t) (i : Input) :
    Unwritten (act s a i).1 := by
  intro hnone
  have hbefore : s.first = none := by
    cases hf : s.first with
    | none => rfl
    | some f =>
      rw [(act_handled hs ha i).first f hf] at hnone
      cases hnone
  have hquiet : a.dumps = false := by
    have hnothing := ThreadAt.dumping_nil (p := [a]) (t := t)
      ⟨[a], [], rfl, fun b hb => by rwa [List.mem_singleton.1 hb], .idle⟩
      (fun f hf => absurd (hbefore.symm.trans hf) (Option.some_ne_none f).symm)
    cases hd : a.dumps with
    | false => rfl
    | true => simp [dumping, hd] at hnothing
  have hguard : ∀ f, a ≠ .guard f := by
    rintro f rfl
    have hfree : s.inHandler = false := by rw [hs.guarded, hbefore]; rfl
    simp only [act, hfree] at hnone
    cases hnone
  obtain ⟨-, hsame, -⟩ := act_quiet ha hquiet (.inr hguard) i
  intro fd hfd
  rw [hsame.dumpFd] at hfd
  rw [hsame.files]
  exact hun hbefore fd hfd

theorem act_unwritten_init (hs : Sound s) (hun : Unwritten s) (h : InitAt s t (a :: q)) (i : Input) :
    Unwritten (act s a i).1 := by
  intro hnone fd hfd
  have hfirst : s.first = none := (act_installs hs h i).1.first ▸ hnone
  cases h with
  | begun dir dir' objects mine settled => exact hun hfirst fd hfd
  | opening dir objects mine settled =>
    simp only [act] at hfd ⊢
    split at hfd
    · rename_i hinstalled
      rw [if_pos hinstalled]
      exact hun hfirst fd hfd
    · rename_i hinstalled
      rw [if_neg hinstalled]
      split at hfd
      · rename_i hok
        rw [if_pos hok]
        obtain rfl := Option.some.inj hfd
        exact Function.update_self ..
      · cases hfd
  | capturing objects mine fresh untaken opened => exact hun hfirst fd hfd
  | arming signals any mine fresh any_iff opened distinct untaken =>
    simp only [act] at hfd ⊢
    cases signals with
    | nil =>
      simp only [sigactions] at hfd ⊢
      split at hfd
      · rename_i hany
        rw [if_pos hany]
        exact hun hfirst fd hfd
      · cases hfd
    | cons signal rest =>
      simp only [sigactions] at hfd ⊢
      split at hfd <;> rename_i hok
      · rw [if_pos hok]
        exact hun hfirst fd hfd
      · rw [if_neg hok]
        exact hun hfirst fd hfd
  | ending mine settled => exact hun hfirst fd hfd

theorem get_set_self {ps : List (List Act)} (h : ps[t]? = some p) : (ps.set t q)[t]? = some q := by
  rw [List.getElem?_set, if_pos rfl, if_pos (List.getElem?_eq_some_iff.1 h).1]

theorem get_set_other {ps : List (List Act)} {u : Nat} (hne : u ≠ t) (h : ps[u]? = some p) :
    (ps.set t q)[u]? = some p := by
  rw [List.getElem?_set, if_neg (Ne.symm hne), h]

/-- Steps that are none of the dump, on any thread. -/
theorem Dumped.quiet (hd : Dumped c) (ht : c.threads[t]? = some p) (hsame : SameDump c.shared s')
    (hfirst : s'.first = c.shared.first) (hprogram : dumping q = dumping p) :
    Dumped ⟨s', c.threads.set t q⟩ := by
  intro f hf
  obtain ⟨r, hr, hat⟩ := hd f (hfirst.symm.trans hf)
  by_cases hu : f.thread = t
  · subst hu
    obtain rfl := Option.some.inj (ht.symm.trans hr)
    exact ⟨q, get_set_self ht, hprogram ▸ hat.congr hsame⟩
  · exact ⟨r, get_set_other hu hr, hat.congr hsame⟩

theorem dumping_cons_quiet (h : a.dumps = false) : dumping (a :: p) = dumping p :=
  List.filter_cons_of_neg (by simp [h])

theorem dumping_cons (h : a.dumps = true) : dumping (a :: p) = a :: dumping p :=
  List.filter_cons_of_pos h

/-- **A step of a handler.** -/
theorem dumped_handler (hc : Interleave.Inv Sound ThreadAt c) (hun : Unwritten c.shared) (hd : Dumped c)
    (i : Input) (ht : c.threads[t]? = some (a :: rest)) (ha : a.InHandler c.shared t) :
    Dumped ⟨(act c.shared a i).1, c.threads.set t ((act c.shared a i).2 ++ rest)⟩ := by
  have hdumps : a.dumps = true → Dumped ⟨(act c.shared a i).1, c.threads.set t ((act c.shared a i).2 ++ rest)⟩ := by
    intro hdump
    -- the thread is that of the first fault
    obtain ⟨f, hf, hthread⟩ : ∃ f, c.shared.first = some f ∧ f.thread = t := by
      cases a with
      | write fd text => exact ha.2
      | fsync fd => exact ha.2
      | handOff f => exact ⟨f, ha⟩
      | _ => cases hdump
    intro g hg
    have hstill := (act_handled hc.shared ha i).first f hf
    obtain rfl : f = g := Option.some.inj (hstill.symm.trans hg)
    subst hthread
    obtain ⟨p, hp, hat⟩ := hd f hf
    obtain rfl := Option.some.inj (ht.symm.trans hp)
    rw [dumping_cons hdump] at hat
    refine ⟨_, get_set_self ht, ?_⟩
    rw [dumping_append]
    exact act_dumps hat i
  by_cases hdump : a.dumps = true
  · exact hdumps hdump
  · have hquiet : a.dumps = false := Bool.eq_false_of_not_eq_true hdump
    by_cases hguard : c.shared.inHandler = true ∨ ∀ f, a ≠ .guard f
    · obtain ⟨hnew, hsame, hfirst⟩ := act_quiet ha hquiet hguard i
      refine hd.quiet ht hsame hfirst ?_
      rw [dumping_append, hnew, List.nil_append, dumping_cons_quiet hquiet]
    · -- the guard is won: nothing has been written, and nobody else is dumping
      rw [not_or, not_forall] at hguard
      obtain ⟨hfree, f, hf⟩ := hguard
      obtain rfl := not_not.1 hf
      have hnone : c.shared.first = none := by
        rw [hc.shared.guarded] at hfree
        simpa using hfree
      obtain ⟨hthread, htaken⟩ := ha
      obtain ⟨fd, hfd⟩ := Option.isSome_iff_exists.1 (hc.shared.armed (List.ne_nil_of_mem htaken))
      have hrest : dumping rest = [] := by
        have hwhole := (hc.threads t _ ht).dumping_nil fun f hf => (Option.some_ne_none f (hf.symm.trans hnone)).elim
        rwa [dumping_cons_quiet hquiet] at hwhole
      have hact : act c.shared (.guard f) i =
          ({ c.shared with inHandler := true, first := some f }, handle c.shared f) := if_neg hfree
      rw [hact]
      intro g hg
      obtain rfl : f = g := Option.some.inj hg
      subst hthread
      refine ⟨_, get_set_self ht, ?_⟩
      rw [dumping_append, hrest, List.append_nil]
      exact handle_dump hfd (hun hnone fd hfd)

theorem dumped_step (hc : Interleave.Inv Sound ThreadAt c) (hun : Unwritten c.shared) (hd : Dumped c)
    (h : step c l = some c') : Unwritten c'.shared ∧ Dumped c' := by
  cases step_stepped hc h with
  | handler i ht hhandles halive =>
    exact ⟨act_unwritten hc.shared hun hhandles i, dumped_handler hc hun hd i ht hhandles⟩
  | init i ht hinit halive =>
    refine ⟨act_unwritten_init hc.shared hun hinit i, ?_⟩
    obtain ⟨hstep, hat⟩ := act_installs hc.shared hinit i
    intro f hf
    have hbefore : c.shared.first = some f := hstep.first ▸ hf
    have harmed : c.shared.taken ≠ [] := List.ne_nil_of_mem (hc.shared.first f hbefore)
    have hsame : SameDump c.shared _ :=
      ⟨hstep.dumpFd harmed, hstep.table harmed, hstep.files harmed, hstep.gaveUp, hstep.synced⟩
    exact hd.quiet ht hsame hstep.first (hat.dumping_nil.trans hinit.dumping_nil.symm) f hf
  | call k hidle hfree halive =>
    exact ⟨hun, hd.quiet hidle ⟨rfl, rfl, rfl, rfl, rfl⟩ rfl rfl⟩
  | forced hp halive =>
    refine ⟨hun, fun f hf => ?_⟩
    obtain ⟨p, hp, hat⟩ := hd f hf
    exact ⟨p, hp, hat.congr ⟨rfl, rfl, rfl, rfl, rfl⟩⟩
  | @arrives f p hp halive hfree =>
    obtain ⟨hsame, hfirst⟩ := arrive_same c.shared f
    refine ⟨fun hnone fd hfd => ?_, hd.quiet hp hsame hfirst ?_⟩
    · rw [hsame.dumpFd] at hfd
      rw [hsame.files]
      exact hun (hfirst ▸ hnone) fd hfd
    · rw [dumping_append, arrive_quiet, List.nil_append]

theorem reachable_dumped (h : Reachable c) : Dumped c := by
  obtain ⟨c₀, labels, hstart, hrun⟩ := h
  have hinv : Interleave.Inv Sound ThreadAt c ∧ Unwritten c.shared ∧ Dumped c := by
    have hstep : ∀ (d : Config) (l : Label) (d' : Config),
        Interleave.Inv Sound ThreadAt d ∧ Unwritten d.shared ∧ Dumped d → step d l = some d' →
          Interleave.Inv Sound ThreadAt d' ∧ Unwritten d'.shared ∧ Dumped d' :=
      fun d l d' hd hs => ⟨inv_step hd.1 hs, dumped_step hd.1 hd.2.1 hd.2.2 hs⟩
    refine Run.run_inv hstep ?_ hrun
    obtain ⟨actions, names, files, nextFile, hshared⟩ := hstart.shared
    refine ⟨reachable_inv (.start hstart), ?_, fun f hf => ?_⟩
    · rw [hshared]
      exact fun _ fd hfd => (Option.some_ne_none fd hfd.symm).elim
    · rw [hshared] at hf
      exact (Option.some_ne_none f hf.symm).elim
  exact hinv.2.2

theorem mem_dumping (h : a.dumps = true) : a ∈ dumping p ↔ a ∈ p := by
  simp [dumping, h]

/-- **One writer, and a whole dump before the fault is handed on.** Whatever threads fault, whenever
they do, and however often `write` is cut short or interrupted: as long as no write was given up, the
file holds the front of the dump of the fault that came first, and once that fault has been handed to
what was installed before us, all of it, synced. -/
theorem first_fault_dumped (h : Reachable c) (hfirst : c.shared.first = some f)
    (hwrites : c.shared.gaveUp = false) :
    ∃ fd, c.shared.dumpFd = some fd ∧ c.shared.files fd <+: dumpOf c.shared.table.entries f ∧
      ((∀ p ∈ c.threads, .handOff f ∉ p) → c.shared.files fd = dumpOf c.shared.table.entries f ∧
        c.shared.synced = some (dumpOf c.shared.table.entries f)) := by
  obtain ⟨p, hp, hat⟩ := reachable_dumped h f hfirst
  have hmem := List.mem_of_getElem? hp
  generalize hq : dumping p = q at hat
  cases hat with
  | writing fd texts opened so_far =>
    refine ⟨fd, opened, so_far hwrites ▸ List.prefix_append _ _, fun hdone => ?_⟩
    have hpending : .handOff f ∈ dumping p := hq ▸ by simp
    exact absurd ((mem_dumping rfl).1 hpending) (hdone p hmem)
  | synced fd opened whole =>
    refine ⟨fd, opened, (whole hwrites).1 ▸ List.prefix_refl _, fun hdone => ?_⟩
    have hpending : .handOff f ∈ dumping p := hq ▸ by simp
    exact absurd ((mem_dumping rfl).1 hpending) (hdone p hmem)
  | handed fd opened whole =>
    obtain ⟨hfile, hsynced⟩ := whole hwrites
    exact ⟨fd, opened, hfile ▸ List.prefix_refl _, fun _ => ⟨hfile, hfile ▸ hsynced⟩⟩

/-- A null pointer is read on the only thread. -/
def nullRead : Fault := { thread := 0, signal := 11, code := 1, address := 0, pc := 0x1234, lr := 0 }

/-- One thread, and no other library. -/
def alone : Config := ⟨{ actions := fun _ => .default }, [[]]⟩

theorem started_alone : Started alone :=
  ⟨⟨_, _, _, _, rfl⟩, by decide, fun _ => Disposition.noConfusion,
    fun _ file h => (Option.some_ne_none file h.symm).elim⟩

/-- The handler is installed. -/
def installs : List Label := .call 0 ⟨0, []⟩ :: List.replicate 11 (.exec 0 {})

/-- The handler has won the guard. -/
def faults : List Label := installs ++ [.env nullRead, .exec 0 {}]

/-- Meanwhile another thread aborts. -/
def abortMeanwhile : Fault := { thread := 1, signal := 6, code := -6, address := 0, pc := 0x40, lr := 0 }

/-- The same with another thread: the first write is cut short and interrupted, then that thread aborts
and finds the guard taken, and then the dump is written to its end, synced and handed on. -/
def faultsMeanwhile : List Label :=
  installs ++ [.env nullRead, .exec 0 {}, .exec 0 { wrote := .bytes 10 }, .exec 0 { wrote := .interrupted },
    .env abortMeanwhile, .exec 1 {}, .exec 1 {}] ++ List.replicate 32 (.exec 0 { wrote := .bytes 64 })

def twoThreads : Config := ⟨{ actions := fun _ => .default }, [[], []]⟩

theorem started_twoThreads : Started twoThreads :=
  ⟨⟨_, _, _, _, rfl⟩, by decide, fun _ => Disposition.noConfusion,
    fun _ file h => (Option.some_ne_none file h.symm).elim⟩

/-- The file holds the dump of the null pointer's read, and nothing of the abort. -/
theorem first_fault_dumped_handed :
    ∃ c, Run.run step twoThreads faultsMeanwhile = some c ∧ ∃ fd, c.shared.dumpFd = some fd ∧
      c.shared.files fd = dumpOf c.shared.table.entries nullRead ∧
      c.shared.synced = some (dumpOf c.shared.table.entries nullRead) := by
  have hrun : ((Run.run step twoThreads faultsMeanwhile).map fun c =>
      (c.shared.first, c.shared.gaveUp, c.threads.map fun p => p.countP Act.dumps)) =
      some (some nullRead, false, [0, 0]) := by
    decide +kernel
  obtain ⟨c, hc, hstate⟩ := Option.map_eq_some_iff.1 hrun
  obtain ⟨hfirst, hrest⟩ := Prod.mk.inj hstate
  obtain ⟨hwrites, hnone⟩ := Prod.mk.inj hrest
  have hdone : ∀ p ∈ c.threads, .handOff nullRead ∉ p := by
    intro p hp hpending
    have hcount : p.countP Act.dumps ∈ [0, 0] := hnone ▸ List.mem_map_of_mem hp
    have hzero : p.countP Act.dumps = 0 := by simpa using hcount
    exact List.countP_eq_zero.1 hzero _ hpending rfl
  obtain ⟨fd, hopen, -, hwhole⟩ := first_fault_dumped ⟨_, _, started_twoThreads, hc⟩ hfirst hwrites
  exact ⟨c, hc, fd, hopen, hwhole hdone⟩

/-! ## The end of the process -/

/-- A handler that has been entered returns behind what it has still to do. -/
def Returns (p : List Act) : Prop := ∀ before f after, p = before ++ .guard f :: after → .ret f ∈ after

/-- Until the process ends, the thread of the fault has the return of its handler before it, behind the
raising of the signal. -/
def Dies (s : State) (f : Fault) (p : List Act) : Prop :=
  ∃ before after, p = before ++ .ret f :: after ∧
    (.reraise f ∈ before ∨ (f.thread, f.signal) ∈ s.raised)

/-- The signals that are being handled, and blocked, on a thread. -/
def blocked (p : List Act) : List Int32 :=
  p.filterMap fun a => match a with
    | .ret f => some f.signal
    | _ => none

theorem blocked_append (p q : List Act) : blocked (p ++ q) = blocked p ++ blocked q :=
  List.filterMap_append ..

/-- The process is still handling its first fault. -/
structure Dying (c : Config) : Prop where
  returns : ∀ p ∈ c.threads, Returns p
  distinct : ∀ p ∈ c.threads, (blocked p).Nodup
  dies : ∀ f, c.shared.first = some f → c.shared.ended = none →
    ∃ p, c.threads[f.thread]? = some p ∧ Dies c.shared f p

theorem Returns.tail (h : Returns (a :: p)) : Returns p :=
  fun before f after heq => h (a :: before) f after (by rw [heq]; rfl)

theorem Returns.append (h : Returns p) (hnew : Returns new) : Returns (new ++ p) := by
  intro before f after heq
  rcases List.append_eq_append_iff.1 heq with ⟨more, rfl, hp⟩ | ⟨more, rfl, hp⟩
  · exact h more f after hp
  · cases more with
    | nil => exact h [] f after hp.symm
    | cons b more =>
      obtain ⟨rfl, rfl⟩ := List.cons.inj hp
      exact List.mem_append_left _ (hnew before f more (by simp))

theorem returns_of_not (h : ∀ f, .guard f ∉ p) : Returns p :=
  fun before f _ heq => absurd (heq ▸ List.mem_append_right before List.mem_cons_self) (h f)

theorem InitAt.returns (h : InitAt s t p) : Returns p := by
  refine returns_of_not fun f hf => ?_
  cases h <;> simp at hf

theorem arrive_returns (s : State) (f : Fault) : Returns (arrive s f).2 := by
  unfold arrive
  split
  · exact returns_of_not fun g => List.not_mem_nil
  · exact returns_of_not fun g => List.not_mem_nil
  · exact returns_of_not fun g hg => by simp at hg
  · intro before g after heq
    cases before with
    | nil =>
      obtain ⟨hsame, rfl⟩ := List.cons.inj heq
      rw [Act.guard.inj hsame]
      exact List.mem_cons_self
    | cons b before =>
      obtain ⟨-, htail⟩ := List.cons.inj heq
      have hmem : .guard g ∈ [Act.ret f] := htail ▸ List.mem_append_right before List.mem_cons_self
      simp at hmem

/-- The action enters or leaves a handler. -/
def Act.bounds : Act → Bool
  | .guard _ | .ret _ => true
  | _ => false

/-- **No step of a handler enters one**, or adds a return: what is chained to is another library's. -/
theorem act_inner (hs : Sound s) (a : Act) (i : Input) : ∀ b ∈ (act s a i).2, b.bounds = false := by
  have hnone : ∀ b ∈ ([] : List Act), b.bounds = false := fun b hb => absurd hb List.not_mem_nil
  have hchain : ∀ f, ∀ b ∈ chainOld s f, b.bounds = false := by
    intro f
    unfold chainOld
    split
    · split
      · simp [Act.bounds]
      · simp [Act.bounds]
      · simp [Act.bounds]
      · rename_i hours
        exact absurd hours (hs.old _)
    · simp [Act.bounds]
  cases a with
  | guard f =>
    simp only [act]
    split
    · simp [Act.bounds]
    · intro b hb
      simp only [handle, List.mem_append, List.mem_cons, List.not_mem_nil, or_false] at hb
      rcases hb with hb | rfl | rfl
      · split at hb
        · rcases List.mem_append.1 hb with hb | hb
          · obtain ⟨text, -, rfl⟩ := List.mem_map.1 hb
            rfl
          · rw [List.mem_singleton.1 hb]
            rfl
        · cases hb
      · rfl
      · rfl
  | handOff f => exact hchain f
  | chain f => exact hchain f
  | ret f =>
    simp only [act]
    split
    · rename_i hraised
      simp only [arrive, (hs.raised _ hraised).2]
      exact hnone
    · exact hnone
  | write fd text =>
    simp only [act, writeAll]
    split
    · exact hnone
    · split <;> simp [Act.bounds]
  | openDump dir objects =>
    simp only [act, openDump]
    split
    · exact hnone
    · split <;> simp [Act.bounds]
  | sigaction signals any =>
    simp only [act, sigactions]
    split
    · exact hnone
    · split <;> simp [Act.bounds]
  | foreign handler =>
    simp only [act]
    split <;> exact hnone
  | takePrevious dir => exact hnone
  | capture objects => exact hnone
  | endInit => exact hnone
  | fsync fd => exact hnone
  | reraise f => exact hnone

theorem act_returns (hs : Sound s) (a : Act) (i : Input) : Returns (act s a i).2 :=
  returns_of_not fun _ hf => Bool.noConfusion (act_inner hs a i _ hf)

theorem act_blocked (hs : Sound s) (a : Act) (i : Input) : blocked (act s a i).2 = [] := by
  refine List.filterMap_eq_nil_iff.2 fun b hb => ?_
  have hinner := act_inner hs a i b hb
  cases b with
  | ret f => cases hinner
  | _ => rfl

theorem distinct_act (hs : Sound s) (h : (blocked (a :: p)).Nodup) (i : Input) :
    (blocked ((act s a i).2 ++ p)).Nodup := by
  rw [blocked_append, act_blocked hs, List.nil_append]
  exact h.sublist ((List.sublist_cons_self a p).filterMap _)

theorem arrive_blocked (s : State) (f : Fault) :
    blocked (arrive s f).2 = [] ∨ blocked (arrive s f).2 = [f.signal] := by
  unfold arrive
  split
  · exact .inl rfl
  · exact .inl rfl
  · exact .inr rfl
  · exact .inr rfl

theorem mem_blocked {signal : Int32} : signal ∈ blocked p ↔ p.any (Act.handles signal) = true := by
  simp only [blocked, List.mem_filterMap, List.any_eq_true]
  refine exists_congr fun a => and_congr_right fun _ => ?_
  cases a <;> simp [Act.handles]

theorem arrive_raised (s : State) (f : Fault) : (arrive s f).1.raised = s.raised := by
  unfold arrive
  split <;> rfl

/-- What has been raised stays raised, and only a guard that is won names the first fault. -/
theorem act_keeps (s : State) (a : Act) (i : Input) :
    s.raised ⊆ (act s a i).1.raised ∧ ((∀ f, a ≠ .guard f) → (act s a i).1.first = s.first) := by
  have hsame : ∀ {s' : State}, s'.raised = s.raised → s'.first = s.first →
      s.raised ⊆ s'.raised ∧ ((∀ f, a ≠ .guard f) → s'.first = s.first) :=
    fun hraised hfirst => ⟨hraised ▸ List.Subset.refl _, fun _ => hfirst⟩
  cases a with
  | reraise f => exact ⟨List.subset_cons_self _ _, fun _ => rfl⟩
  | guard f =>
    refine ⟨?_, fun h => absurd rfl (h f)⟩
    simp only [act]
    split <;> exact List.Subset.refl _
  | ret f =>
    simp only [act]
    split
    · exact hsame (arrive_raised s f) (arrive_same s f).2
    · exact hsame rfl rfl
  | write fd text =>
    simp only [act, writeAll]
    split
    · exact hsame rfl rfl
    · split <;> exact hsame rfl rfl
  | openDump dir objects =>
    simp only [act]
    split
    · exact hsame rfl rfl
    · split <;> exact hsame rfl rfl
  | sigaction signals any =>
    simp only [act, sigactions]
    split
    · split <;> exact hsame rfl rfl
    · split <;> exact hsame rfl rfl
  | foreign handler =>
    simp only [act]
    split <;> exact hsame rfl rfl
  | takePrevious dir => exact hsame rfl rfl
  | capture objects => exact hsame rfl rfl
  | endInit => exact hsame rfl rfl
  | fsync fd => exact hsame rfl rfl
  | handOff f => exact hsame rfl rfl
  | chain f => exact hsame rfl rfl

/-- An action on the thread of the fault. -/
theorem Dies.act (h : Dies s f (a :: p)) (hs : Sound s) (i : Input) (halive : (act s a i).1.ended = none) :
    Dies (act s a i).1 f ((act s a i).2 ++ p) := by
  obtain ⟨before, after, heq, hraises⟩ := h
  cases before with
  | nil =>
    -- the handler returns, and what it raised ends the process
    obtain ⟨rfl, rfl⟩ := List.cons.inj heq
    have hraised := hraises.resolve_left List.not_mem_nil
    have hdefault := (hs.raised _ hraised).2
    simp only [CrashHandler.act, if_pos hraised, arrive, hdefault] at halive
    cases halive
  | cons b before =>
    obtain ⟨rfl, rfl⟩ := List.cons.inj heq
    refine ⟨(CrashHandler.act s a i).2 ++ before, after, by simp, ?_⟩
    rcases hraises with hmem | hraised
    · rcases List.mem_cons.1 hmem with rfl | hmem
      · exact .inr List.mem_cons_self
      · exact .inl (List.mem_append_right _ hmem)
    · exact .inr ((act_keeps s a i).1 hraised)

theorem Dies.mono (h : Dies s f p) (hraised : s.raised ⊆ s'.raised) : Dies s' f p := by
  obtain ⟨before, after, heq, hraises⟩ := h
  exact ⟨before, after, heq, hraises.imp_right fun h => hraised h⟩

theorem Dies.interrupt (h : Dies s f p) (new : List Act) : Dies s f (new ++ p) := by
  obtain ⟨before, after, rfl, hraises⟩ := h
  exact ⟨new ++ before, after, by simp, hraises.imp_left fun h => List.mem_append_right _ h⟩

theorem forall_set {P : List Act → Prop} (h : ∀ p ∈ c.threads, P p) (hq : P q) : ∀ p ∈ c.threads.set t q, P p := by
  intro p hp
  rcases List.mem_or_eq_of_mem_set hp with hp | rfl
  · exact h p hp
  · exact hq

/-- An action that is not the first fault's guard. -/
theorem Dying.act (hd : Dying c) (hs : Sound c.shared) (ht : c.threads[t]? = some (a :: rest)) (i : Input)
    (halive : c.shared.ended = none) (hfirst : (act c.shared a i).1.first = c.shared.first) :
    Dying ⟨(act c.shared a i).1, c.threads.set t ((act c.shared a i).2 ++ rest)⟩ := by
  have hmem := List.mem_of_getElem? ht
  refine ⟨forall_set hd.returns ?_, forall_set hd.distinct (distinct_act hs (hd.distinct _ hmem) i), fun f hf hstill => ?_⟩
  · exact (hd.returns _ hmem).tail.append (act_returns hs _ i)
  · obtain ⟨p, hp, hdies⟩ := hd.dies f (hfirst.symm.trans hf) halive
    by_cases hu : f.thread = t
    · subst hu
      obtain rfl := Option.some.inj (ht.symm.trans hp)
      exact ⟨_, get_set_self ht, hdies.act hs i hstill⟩
    · exact ⟨p, get_set_other hu hp, hdies.mono (act_keeps _ _ _).1⟩

theorem dying_step (hc : Interleave.Inv Sound ThreadAt c) (hd : Dying c) (h : step c l = some c') : Dying c' := by
  cases step_stepped hc h with
  | @handler t a rest i ht hhandles halive =>
    cases hfirst : c.shared.first with
    | some f =>
      refine hd.act hc.shared ht i halive ?_
      rw [(act_handled hc.shared hhandles i).first f hfirst, hfirst]
    | none =>
      by_cases hguard : ∃ f, a = .guard f
      · obtain ⟨f, rfl⟩ := hguard
        have hfree : c.shared.inHandler = false := by rw [hc.shared.guarded, hfirst]; rfl
        have hreturns := hd.returns _ (List.mem_of_getElem? ht)
        have hact : act c.shared (.guard f) i =
            ({ c.shared with inHandler := true, first := some f }, handle c.shared f) := by
          rw [act, hfree]
          rfl
        refine ⟨forall_set hd.returns (hreturns.tail.append (act_returns hc.shared _ i)),
          forall_set hd.distinct (distinct_act hc.shared (hd.distinct _ (List.mem_of_getElem? ht)) i),
          fun g hg _ => ?_⟩
        rw [hact] at hg ⊢
        obtain rfl : f = g := Option.some.inj hg
        obtain ⟨before, after, hrest⟩ := List.append_of_mem (hreturns [] f rest rfl)
        rw [hhandles.1]
        refine ⟨_, get_set_self ht, handle c.shared f ++ before, after, by rw [hrest]; simp, .inl ?_⟩
        exact List.mem_append_left _ (by simp [handle])
      · have hquiet : ∀ f, a ≠ .guard f := fun f hf => hguard ⟨f, hf⟩
        exact hd.act hc.shared ht i halive ((act_keeps c.shared a i).2 hquiet)
  | init i ht hinit halive =>
    exact hd.act hc.shared ht i halive (act_installs hc.shared hinit i).1.first
  | @call t k hidle hfree halive =>
    refine ⟨forall_set hd.returns (returns_of_not fun f hf => by simp at hf),
      forall_set hd.distinct List.nodup_nil, fun f hf hstill => ?_⟩
    obtain ⟨p, hp, hdies⟩ := hd.dies f hf hstill
    by_cases hu : f.thread = t
    · subst hu
      obtain rfl := Option.some.inj (hidle.symm.trans hp)
      exact ⟨_, get_set_self hidle, (hdies.interrupt [_, _, _]).mono (List.Subset.refl _)⟩
    · exact ⟨p, get_set_other hu hp, hdies⟩
  | forced hp halive => exact ⟨hd.returns, hd.distinct, fun f _ hstill => (Option.some_ne_none _ hstill).elim⟩
  | @arrives f p hp halive hfree =>
    obtain ⟨-, hfirst⟩ := arrive_same c.shared f
    have hmem := List.mem_of_getElem? hp
    refine ⟨forall_set hd.returns ((hd.returns p hmem).append (arrive_returns _ _)), forall_set hd.distinct ?_,
      fun g hg hstill => ?_⟩
    · rw [blocked_append]
      rcases arrive_blocked c.shared f with hnone | hself
      · rw [hnone]
        exact hd.distinct p hmem
      · rw [hself]
        refine List.nodup_cons.2 ⟨fun hin => ?_, hd.distinct p hmem⟩
        rw [mem_blocked.1 hin] at hfree
        cases hfree
    obtain ⟨q, hq, hdies⟩ := hd.dies g (hfirst.symm.trans hg) halive
    have hmono : Dies (arrive c.shared f).1 g q := hdies.mono (by rw [arrive_raised]; exact List.Subset.refl _)
    by_cases hu : g.thread = f.thread
    · rw [hu] at hq ⊢
      obtain rfl := Option.some.inj (hp.symm.trans hq)
      exact ⟨_, get_set_self hp, hmono.interrupt _⟩
    · exact ⟨q, get_set_other hu hq, hmono⟩

theorem reachable_dying (h : Reachable c) : Dying c := by
  obtain ⟨c₀, labels, hstart, hrun⟩ := h
  have hinv : Interleave.Inv Sound ThreadAt c ∧ Dying c := by
    have hstep : ∀ (d : Config) (l : Label) (d' : Config), Interleave.Inv Sound ThreadAt d ∧ Dying d →
        step d l = some d' → Interleave.Inv Sound ThreadAt d' ∧ Dying d' :=
      fun d l d' hd hs => ⟨inv_step hd.1 hs, dying_step hd.1 hd.2 hs⟩
    refine Run.run_inv hstep ⟨reachable_inv (.start hstart), ?_, ?_, fun f hf => ?_⟩ hrun
    · exact fun p hp => hstart.threads p hp ▸ returns_of_not fun f => List.not_mem_nil
    · exact fun p hp => hstart.threads p hp ▸ List.nodup_nil
    · obtain ⟨actions, names, files, nextFile, hshared⟩ := hstart.shared
      rw [hshared] at hf
      exact (Option.some_ne_none f hf.symm).elim
  exact hinv.2

/-- What a step does to the names: a `tombstone_init` deletes the dump it finds. -/
def names (c : Config) (l : Label) : Nat → Option Nat :=
  match Interleave.acting c l with
  | some (.takePrevious dir) => Function.update c.shared.names dir none
  | _ => c.shared.names

/-- Once the handler is installed, the file it writes to stays open, and no other one is made. -/
theorem installed_step (hc : Interleave.Inv Sound ThreadAt c) (hinstalled : c.shared.installed = true)
    (h : step c l = some c') :
    c'.shared.installed = true ∧ c'.shared.dumpFd = c.shared.dumpFd ∧ c'.shared.names = names c l := by
  cases step_stepped hc h with
  | @handler t a rest i ht hhandles halive =>
    have hsame := (act_handled hc.shared hhandles i).setup
    refine ⟨hsame.installed.trans hinstalled, hsame.dumpFd, hsame.names.trans ?_⟩
    rw [names, Interleave.acting_exec ht]
    cases a with
    | takePrevious dir => exact hhandles.elim
    | _ => rfl
  | @init t a rest i ht hinit halive =>
    rw [names, Interleave.acting_exec ht]
    cases hinit with
    | begun dir dir' objects mine settled => exact ⟨hinstalled, rfl, rfl⟩
    | opening dir objects mine settled =>
      have hact : act c.shared (.openDump dir objects) i = (c.shared, []) := if_pos hinstalled
      rw [hact]
      exact ⟨hinstalled, rfl, rfl⟩
    | capturing objects mine fresh untaken opened =>
      rw [hinstalled] at fresh
      cases fresh
    | arming signals any mine fresh any_iff opened distinct untaken =>
      rw [hinstalled] at fresh
      cases fresh
    | ending mine settled => exact ⟨hinstalled, rfl, rfl⟩
  | call k hidle hfree halive => exact ⟨hinstalled, rfl, rfl⟩
  | forced hp halive => exact ⟨hinstalled, rfl, rfl⟩
  | @arrives f p hp halive hfree =>
    have hsame := (arrive_handled hc.shared (f := f)).setup
    exact ⟨hsame.installed.trans hinstalled, hsame.dumpFd, hsame.names⟩

theorem names_dir (c : Config) (l : Label) (dir : Nat) :
    (Interleave.acting c l = some (.takePrevious dir) → names c l dir = none) ∧
      (Interleave.acting c l ≠ some (.takePrevious dir) → names c l dir = c.shared.names dir) := by
  unfold names
  cases hacting : Interleave.acting c l with
  | none => exact ⟨fun h => absurd h (Option.some_ne_none _).symm, fun _ => rfl⟩
  | some a =>
    cases a with
    | takePrevious other =>
      refine ⟨fun h => ?_, fun h => ?_⟩
      · rw [Act.takePrevious.inj (Option.some.inj h)]
        exact Function.update_self ..
      · have hother : dir ≠ other := fun hsame => h (hsame ▸ rfl)
        exact Function.update_of_ne hother ..
    | _ => exact ⟨fun h => absurd (Option.some.inj h) (by simp), fun _ => rfl⟩

/-- What is done in a run, in order. -/
def acted (c : Config) (ls : List Label) : List Act :=
  Run.trace step (fun c l => (Interleave.acting c l).toList) c ls

/-- **A second `tombstone_init` takes the dump's name away.** From the installation on, the handler
writes to the same file in every run of the process. The next launch finds it if no further
`tombstone_init` on that data directory has got as far as reading the previous dump; once one has, there
is nothing to be found, whatever is written. -/
theorem dump_named_iff {fd dir : Nat} {ls : List Label} (h : Reachable c)
    (hinstalled : c.shared.installed = true) (hfd : c.shared.dumpFd = some fd)
    (hname : c.shared.names dir = some fd) (hrun : Run.run step c ls = some c') :
    c'.shared.dumpFd = some fd ∧
      (.takePrevious dir ∉ acted c ls → c'.shared.names dir = some fd) ∧
      (.takePrevious dir ∈ acted c ls → c'.shared.names dir = none) := by
  have hgeneral : ∀ (ls : List Label) (d : Config), Interleave.Inv Sound ThreadAt d →
      d.shared.installed = true → Run.run step d ls = some c' → c'.shared.dumpFd = d.shared.dumpFd ∧
        (.takePrevious dir ∉ acted d ls → c'.shared.names dir = d.shared.names dir) ∧
        (.takePrevious dir ∈ acted d ls ∨ d.shared.names dir = none → c'.shared.names dir = none) := by
    intro ls
    induction ls with
    | nil =>
      intro d _ _ hd
      obtain rfl := Option.some.inj hd
      exact ⟨rfl, fun _ => rfl, fun h => h.resolve_left List.not_mem_nil⟩
    | cons l ls ih =>
      intro d hd hi hd'
      obtain ⟨e, hs, he⟩ := Run.run_cons_some.1 hd'
      obtain ⟨hi', hfd', hnames⟩ := installed_step hd hi hs
      obtain ⟨hfile, hkept, hgone⟩ := ih e (inv_step hd hs) hi' he
      obtain ⟨htakes, hleaves⟩ := names_dir d l dir
      rw [← hnames] at htakes hleaves
      have htrace : acted d (l :: ls) = (Interleave.acting d l).toList ++ acted e ls := Run.trace_cons hs ls
      rw [htrace, List.mem_append, Option.mem_toList]
      refine ⟨hfile.trans hfd', fun hnot => ?_, fun hsome => hgone ?_⟩
      · rw [not_or] at hnot
        rw [hkept hnot.2, hleaves hnot.1]
      · by_cases hnow : Interleave.acting d l = some (.takePrevious dir)
        · exact .inr (htakes hnow)
        · exact (hsome.imp_left fun h => h.resolve_left hnow).imp_right fun h => (hleaves hnow).trans h
  obtain ⟨hfile, hkept, hgone⟩ := hgeneral ls c (reachable_inv h) hinstalled hrun
  exact ⟨hfile.trans hfd, fun hnot => (hkept hnot).trans hname, fun hsome => hgone (.inl hsome)⟩

/-- The same thread calls `tombstone_init` once more. -/
def again : List Label := [.call 0 ⟨0, []⟩, .exec 0 {}]

theorem dump_named_iff_alone :
    ∃ c, Run.run step alone (installs ++ again) = some c ∧ c.shared.dumpFd = some 0 ∧
      c.shared.names 0 = none := by
  have hinstalls : (Run.run step alone installs).map (fun c => (c.shared.installed, c.shared.dumpFd,
      c.shared.names 0)) = some (true, some 0, some 0) := by
    decide
  have hacted : (Run.run step alone installs).map (fun c => acted c again) = some [.takePrevious 0] := rfl
  have hagain : (Run.run step alone (installs ++ again)).isSome := by decide
  obtain ⟨c', hc'⟩ := Option.isSome_iff_exists.1 hagain
  obtain ⟨c, hc, hrest⟩ := Run.run_append_some.1 hc'
  rw [hc, Option.map_some, Option.some.injEq] at hinstalls hacted
  simp only [Prod.mk.injEq] at hinstalls
  obtain ⟨hinstalled, hfd, hname⟩ := hinstalls
  obtain ⟨hfile, -, hgone⟩ := dump_named_iff ⟨_, _, started_alone, hc⟩ hinstalled hfd hname hrest
  exact ⟨c', hc', hfile, hgone (hacted ▸ List.mem_singleton_self _)⟩

end Tombstone.CrashHandler
