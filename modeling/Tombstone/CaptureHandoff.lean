import Tombstone.HandoffBooks
import Tombstone.Run

/- No capture is lost or doubled around `tombstone_init` and `tombstone_shutdown`.

   1. What became of a call, read off the books (`Books.settled`).
   2. The order of the hand-over: what a run stores goes to the clients in turn
      (`Sound.buffered_run`).
   3. A `tombstone_init` that fails leaves the store as it is (`failed_keeps`).
   4. So every capture is applied once, in every run (`capture_handoff`). -/
namespace Tombstone.CaptureHandoff

/-! ## Every capture is applied once -/

namespace State

variable (s : State) (n c : Nat) (k : EarlyCall)

/-- No client was given anything on behalf of the call. -/
def Untouched : Prop := ∀ d, ofCall n (s.client d).applied = []

/-- Client `c` was given `k` on behalf of the call, once, and no other client anything. -/
def Once : Prop := ∀ d, ofCall n (s.client d).applied = if d = c then [k] else []

/-- The replay into client `c` is under way, and has still to come to the call. -/
def Pending : Prop :=
  s.Untouched n ∧ (k, n) ∈ (s.client c).due ∧ ∃ m : Nat, s.calls[m]? = some (.init (.replaying c))

/-- What became of a call, by where it is. -/
def Settled : CaptureStage → Prop
  | .snapshot | .unpublished | .locked | .acting _ => s.Untouched n
  | .leaving c | .returned (.ran c) => s.Once n c k
  | .returned .refused => k.refused = true ∧ s.Untouched n
  | .returned .stored =>
    (k, n) ∈ s.waiting ∧ s.Untouched n ∨
      ∃ c, (k, n) ∈ (s.client c).handed ∧ s.Successful c ∧
        ((k, n) ∈ survivors (s.client c).handed → s.Once n c k.stored ∨ s.Pending n c k.stored) ∧
        ((k, n) ∉ survivors (s.client c).handed → s.Untouched n)

end State

/-- The call that a step puts in the store. -/
def buffers (s : State) (l : Label) : List (EarlyCall × Nat) :=
  match l, step s l with
  | .go n _, some s' =>
    match s'.calls[n]? with
    | some (.capture k (.returned .stored)) => [(k, n)]
    | _ => []
  | _, _ => []

/-- `tombstone_init` does not succeed. -/
def InitStage.Failed : InitStage → Prop
  | .failed _ | .returned .invalidArgument | .returned .alreadyInitialized | .returned .failed => True
  | _ => False

section Settled

variable {s : State} {n c : Nat} {k : EarlyCall}

/-- A call that was not buffered is known to the clients by what it did itself. -/
theorem Books.applied_of_unbuffered (hb : Books s) (h : ∀ k, (k, n) ∉ s.buffered) (c : Nat) :
    ofCall n (s.client c).applied = s.acted c n := by
  have hlaw := hb.law c n
  obtain ⟨howed, hdue⟩ := hb.unowed h c
  rw [howed, hdue, List.append_nil, List.append_nil] at hlaw
  exact hlaw

theorem Books.nodup_clients (hb : Books s) : ((s.clients.flatMap Client.handed).map Prod.snd).Nodup := by
  have h := hb.nodup
  unfold State.buffered at h
  rw [List.map_append] at h
  exact h.of_append_left

theorem mem_clients {e : EarlyCall × Nat} (h : e ∈ (s.client c).handed) :
    ∃ hlt : c < s.clients.length, e ∈ s.clients[c].handed := by
  unfold State.client at h
  by_cases hlt : c < s.clients.length
  · rw [List.getElem?_eq_getElem hlt] at h
    exact ⟨hlt, h⟩
  · rw [List.getElem?_eq_none (Nat.le_of_not_lt hlt)] at h
    cases h

theorem Books.handed_once (hb : Books s) {k' : EarlyCall} {d : Nat}
    (hc : (k, n) ∈ (s.client c).handed) (hd : (k', n) ∈ (s.client d).handed) : c = d ∧ k = k' := by
  have hnodup := hb.nodup_clients
  obtain ⟨hlc, hcm⟩ := mem_clients hc
  obtain ⟨hld, hdm⟩ := mem_clients hd
  have hsame : (k, n) = (k', n) := by
    refine List.inj_on_of_nodup_map hnodup ?_ ?_ rfl
    · exact List.mem_flatMap.mpr ⟨_, List.getElem_mem hlc, hcm⟩
    · exact List.mem_flatMap.mpr ⟨_, List.getElem_mem hld, hdm⟩
  have hpairwise := (List.nodup_flatMap.mp (List.Nodup.of_map Prod.snd hnodup)).2
  rw [List.pairwise_iff_getElem] at hpairwise
  refine ⟨?_, (Prod.mk.inj hsame).1⟩
  rw [← hsame] at hdm
  rcases Nat.lt_trichotomy c d with hlt | heq | hlt
  · exact absurd hdm (hpairwise c d hlc hld hlt hcm)
  · exact heq
  · exact absurd hcm (hpairwise d c hld hlc hlt hdm)

theorem Books.nodup_handed (hb : Books s) (c : Nat) : ((s.client c).handed.map Prod.snd).Nodup := by
  have hnodup := hb.nodup_clients
  rw [List.map_flatMap, List.nodup_flatMap] at hnodup
  unfold State.client
  cases h : s.clients[c]? with
  | none => exact List.nodup_nil
  | some client => exact hnodup.1 client (List.mem_of_getElem? h)

/-- What waits was handed to no client. -/
theorem Books.not_handed (hb : Books s) {k' : EarlyCall} (h : (k, n) ∈ s.waiting) :
    (k', n) ∉ (s.client c).handed := by
  intro hc
  obtain ⟨hlt, hmem⟩ := mem_clients hc
  have hnodup := hb.nodup
  unfold State.buffered at hnodup
  rw [List.map_append] at hnodup
  apply List.disjoint_of_nodup_append hnodup (a := n)
  · exact List.mem_map_of_mem (List.mem_flatMap.mpr ⟨_, List.getElem_mem hlt, hmem⟩)
  · exact List.mem_map_of_mem h

/-- **A buffered call**: it waits, or it was handed to one client. -/
theorem Books.settled_stored (hb : Books s) (h : s.calls[n]? = some (.capture k (.returned .stored))) :
    s.Settled n k (.returned .stored) := by
  have hacted : ∀ d, s.acted d n = [] := fun d => acted_here h
  -- nothing is owed by a client that was not handed the call
  have helse : ∀ d, (∀ k', (k', n) ∉ (s.client d).handed) → ofCall n (s.client d).applied = [] := by
    intro d hd
    have howed : ofCall n (s.client d).owed = [] := by
      apply ofCall_eq_nil
      intro k' hk'
      obtain ⟨k'', hhanded, -⟩ := mem_owed hk'
      exact hd k'' hhanded
    have hlaw := hb.law d n
    rw [hacted, howed] at hlaw
    exact (List.append_eq_nil_iff.mp hlaw).1
  rcases mem_buffered.mp ((hb.stored n k).mp h) with ⟨c, hc⟩ | hwaiting
  · have hothers : ∀ d, d ≠ c → ofCall n (s.client d).applied = [] := fun d hd =>
      helse d fun k' hk' => hd (hb.handed_once hk' hc).1
    have huntouched : ofCall n (s.client c).applied = [] → s.Untouched n := by
      intro hnone d
      by_cases hd : d = c
      · rw [hd]
        exact hnone
      · exact hothers d hd
    have hlaw := hb.law c n
    rw [hacted, List.nil_append] at hlaw
    refine .inr ⟨c, hc, hb.successful c (List.ne_nil_of_mem hc), fun hkept => ?_, fun hlost => ?_⟩
    · have howed : ofCall n (s.client c).owed = [k.stored] := by
        apply ofCall_of_mem
        · unfold Client.owed
          rw [List.map_map]
          exact survivors_nodup (hb.nodup_handed c)
        · exact List.mem_map.mpr ⟨(k, n), hkept, rfl⟩
      rw [howed] at hlaw
      rcases List.append_eq_singleton_iff.mp hlaw with ⟨hnone, hdue⟩ | ⟨hone, -⟩
      · right
        have hmem : (k.stored, n) ∈ (s.client c).due := by
          rw [← mem_ofCall, hdue]
          exact List.mem_singleton_self _
        exact ⟨huntouched hnone, hmem, hb.replaying c (List.ne_nil_of_mem hmem)⟩
      · left
        intro d
        split
        · rename_i hd
          rw [hd]
          exact hone
        · rename_i hd
          exact hothers d hd
    · apply huntouched
      have howed : ofCall n (s.client c).owed = [] := by
        apply ofCall_eq_nil
        intro k' hk'
        obtain ⟨k'', hhanded, hsurvives, -⟩ := mem_owed hk'
        rw [← (hb.handed_once hc hhanded).2] at hsurvives
        exact hlost hsurvives
      rw [howed] at hlaw
      exact (List.append_eq_nil_iff.mp hlaw).1
  · exact .inl ⟨hwaiting, fun d => helse d fun k' => hb.not_handed hwaiting⟩

/-- **What became of a call.** -/
theorem Books.settled (hb : Books s) {stage : CaptureStage}
    (h : s.calls[n]? = some (.capture k stage)) : s.Settled n k stage := by
  by_cases hstored : stage = .returned .stored
  · rw [hstored] at h ⊢
    exact hb.settled_stored h
  · have hunbuffered : ∀ k', (k', n) ∉ s.buffered :=
      hb.unbuffered h fun _ hcall => hstored (Call.capture.inj hcall).2
    have happlied : ∀ d, ofCall n (s.client d).applied = (Call.capture k stage).acted d := fun d =>
      (hb.applied_of_unbuffered hunbuffered d).trans (acted_here h)
    cases stage with
    | leaving c => exact happlied
    | returned fate =>
      cases fate with
      | ran c => exact happlied
      | stored => exact absurd rfl hstored
      | refused => exact ⟨hb.refused n k h, happlied⟩
    | _ => exact happlied

end Settled

section Runs

variable {s s' : State} {n : Nat} {l : Label} {ls : List Label}

/-- What holds in every state of every run. -/
structure Sound (s : State) : Prop where
  owner : Owner s
  referenced : Referenced s
  books : Books s

theorem sound_start : Sound {} where
  owner := fun _ _ h => nomatch h
  referenced := by
    refine ⟨fun c hc => ?_, fun c hc => absurd hc List.not_mem_nil⟩
    rcases hc with hc | ⟨k, hk, -⟩
    · cases hc
    · exact absurd hk List.not_mem_nil
  books := by
    constructor
    case law => exact fun _ _ => rfl
    case due => exact fun _ => List.suffix_refl _
    case stored => exact fun _ _ => ⟨nofun, nofun⟩
    case nodup => exact List.nodup_nil
    case accepted => exact fun _ h => nomatch h
    case refused => exact fun _ _ h => nomatch h
    case store => exact fun _ => ⟨rfl, rfl⟩
    case handing => exact fun _ _ _ _ => rfl
    case replaying => exact fun _ h => absurd rfl h
    case successful => exact fun _ h => absurd rfl h
    case newest => exact fun _ _ h => nomatch h

theorem Sound.step (h : Sound s) (hs : step s l = some s') : Sound s' :=
  ⟨owner_step h.owner hs, referenced_step h.referenced hs, books_step h.owner h.referenced h.books hs⟩

/-! ### The order of the hand-over -/

theorem buffers_go {started : Bool} {call call' : Call}
    (hs : CaptureHandoff.step s (.go n started) = some s') (hg : Goes s n call call' s')
    (hcall : ∀ k, call' ≠ .capture k (.returned .stored)) : buffers s (.go n started) = [] := by
  have hn : s'.calls[n]? = some call' := by
    rw [hg.get, if_pos rfl]
  unfold buffers
  rw [hs]
  simp only [hn]
  split
  · rename_i k hk
    exact absurd (Option.some.inj hk) (hcall k)
  · rfl

/-- A step buffers one call at most, and hands calls over in the order in which they wait. -/
theorem Sound.buffered_step (h : Sound s) (hs : CaptureHandoff.step s l = some s') :
    s'.buffered = s.buffered ++ buffers s l := by
  rcases step_cases hs with ⟨call, -, rfl, hl⟩ | ⟨n, started, call, call', rfl, hg, heffect⟩
  · cases l with
    | go n started => exact absurd rfl (hl n started)
    | _ => exact (List.append_nil _).symm
  · cases heffect with
    | plain clients preinit writers waiting plain =>
      rw [buffers_go hs hg fun k => (plain.stored k).2, List.append_nil]
      exact buffered_of_eq clients waiting
    | store k accepted clients preinit writers waiting =>
      have hn : s'.calls[n]? = some (.capture k (.returned .stored)) := by
        rw [hg.get, if_pos rfl]
      have hbuffers : buffers s (.go n started) = [(k, n)] := by
        unfold buffers
        rw [hs]
        simp only [hn]
      rw [hbuffers]
      unfold State.buffered
      rw [clients, waiting, List.append_assoc]
    | act k c clients preinit writers waiting =>
      rw [buffers_go hs hg fun _ => nofun, List.append_nil]
      exact buffered_modify clients waiting fun _ => rfl
    | fresh clients preinit writers waiting =>
      rw [buffers_go hs hg fun _ => nofun, List.append_nil]
      exact buffered_fresh clients waiting
    | handOver c clients preinit writers waiting =>
      rw [buffers_go hs hg fun _ => nofun, List.append_nil]
      exact h.books.buffered_handOver hg.here clients waiting
    | replay c e due left clients preinit writers waiting =>
      rw [buffers_go hs hg fun _ => nofun, List.append_nil]
      exact buffered_modify clients waiting fun _ => rfl
    | clear c clients preinit writers waiting =>
      rw [buffers_go hs hg fun _ => nofun, List.append_nil]
      exact buffered_of_eq clients waiting

theorem Sound.buffered_run (h : Sound s) (hr : Run.run CaptureHandoff.step s ls = some s') :
    s'.buffered = s.buffered ++ Run.trace CaptureHandoff.step buffers s ls := by
  induction ls generalizing s with
  | nil =>
    obtain rfl : s = s' := Option.some.inj hr
    exact (List.append_nil _).symm
  | cons l ls ih =>
    obtain ⟨u, hu, hrest⟩ := Run.run_cons_some.mp hr
    rw [ih (h.step hu) hrest, h.buffered_step hu, Run.trace_cons hu, List.append_assoc]

/-! ### Failed inits -/

/-- The call has put something in the store, or cleared it. -/
def Call.Wrote : Call → Prop
  | .capture _ (.returned .stored) | .init (.publishing _) | .init (.returned (.ok _)) => True
  | _ => False

theorem wrote_of_change {started : Bool} (hs : CaptureHandoff.step s (.go n started) = some s')
    (hchange : s'.preinit ≠ s.preinit) : ∃ call, s'.calls[n]? = some call ∧ call.Wrote := by
  rcases step_cases hs with ⟨-, -, -, hl⟩ | ⟨m, started', call, call', hgo, hg, heffect⟩
  · exact absurd rfl (hl n started)
  · obtain ⟨rfl, -⟩ := Label.go.inj hgo
    refine ⟨call', ?_, ?_⟩
    · rw [hg.get, if_pos rfl]
    · cases heffect with
      | plain _ preinit _ _ _ => exact absurd preinit hchange
      | store => trivial
      | act _ _ _ preinit _ _ => exact absurd preinit hchange
      | fresh _ preinit _ _ => exact absurd preinit hchange
      | handOver _ _ preinit _ _ => exact absurd preinit hchange
      | replay _ _ _ _ _ preinit _ _ => exact absurd preinit hchange
      | clear => trivial

theorem wrote_step (hs : CaptureHandoff.step s l = some s')
    (h : ∃ call, s.calls[n]? = some call ∧ call.Wrote) :
    ∃ call, s'.calls[n]? = some call ∧ call.Wrote := by
  obtain ⟨call, hn, hwrote⟩ := h
  rcases step_cases hs with ⟨new, -, rfl, -⟩ | ⟨m, started, call₁, call', rfl, hg, -⟩
  · rcases enter_get s new n with h | ⟨-, hnone, -⟩
    · exact ⟨call, h.trans hn, hwrote⟩
    · rw [hnone] at hn
      cases hn
  · rcases hg.before hn with ⟨rfl, -⟩ | ⟨-, hn'⟩
    · simp only [CaptureHandoff.step, hn, Option.bind_some] at hs
      unfold Call.Wrote at hwrote
      split at hwrote
      · cases hs
      · -- the publication is the last step
        obtain rfl := Option.some.inj hs
        exact ⟨_, List.getElem?_set_self (List.getElem?_eq_some_iff.mp hn).1, trivial⟩
      · cases hs
      · exact hwrote.elim
    · exact ⟨call, hn', hwrote⟩

/-- **A `tombstone_init` that fails leaves the store as it is**, at each of its steps. -/
theorem failed_keeps {stage : InitStage} (hr : Run.run CaptureHandoff.step s ls = some s')
    (hn : s'.calls[n]? = some (.init stage)) (hfailed : stage.Failed) :
    Run.AllSteps CaptureHandoff.step
      (fun u l v => (∃ started, l = .go n started) → v.preinit = u.preinit) s ls := by
  induction ls generalizing s with
  | nil => trivial
  | cons l ls ih =>
    intro u hu
    have hrest : Run.run CaptureHandoff.step u ls = some s' := by
      obtain ⟨v, hv, hrest⟩ := Run.run_cons_some.mp hr
      obtain rfl := Option.some.inj (hu.symm.trans hv)
      exact hrest
    refine ⟨fun hgo => ?_, ih hrest⟩
    obtain ⟨started, rfl⟩ := hgo
    by_contra hchange
    obtain ⟨call, hcall, hwrote⟩ := Run.run_inv
      (I := fun u => ∃ call, u.calls[n]? = some call ∧ call.Wrote)
      (fun _ _ _ hI hs => wrote_step hs hI) (wrote_of_change hu hchange) hrest
    obtain rfl := Option.some.inj (hn.symm.trans hcall)
    cases stage with
    | returned result => cases result <;> first | exact hfailed | exact hwrote
    | publishing c => exact hfailed
    | _ => exact hwrote

end Runs

/-- **No capture is lost or doubled.** In every run, over any number of threads:

1. a call that is about to act on a client has a reference to it, and the client is alive;
2. every call is `Settled`: one that has acted was applied once, to that client, and one that was
   stored waits, or was handed to the client of a successful `tombstone_init`, and replayed there
   once if the store's bounds left it;
3. that is the next successful one, since the calls that were stored, in their order, are those
   handed to the clients in turn, and then those that wait;
4. what waits is in the store, as far as the bounds leave it;
5. a `tombstone_init` that fails never changes the store. -/
theorem capture_handoff {ls : List Label} {s : State} (h : Run.run step {} ls = some s) :
    (∀ (n : Nat) (k : EarlyCall) (c : Nat), s.calls[n]? = some (.capture k (.acting c)) →
      c < s.clients.length ∧ c ∉ s.destroyed) ∧
    (∀ (n : Nat) (k : EarlyCall) (stage : CaptureStage), s.calls[n]? = some (.capture k stage) →
      s.Settled n k stage) ∧
    Run.trace step buffers {} ls = s.clients.flatMap Client.handed ++ s.waiting ∧
    ((∀ (n : Nat) (call : Call), s.calls[n]? = some call → call.handing = false) →
      s.preinit.replay s.writers = (survivors s.waiting).map fun call => (call.1.stored, call.2)) ∧
    ∀ (n : Nat) (stage : InitStage), s.calls[n]? = some (.init stage) → stage.Failed →
      Run.AllSteps step (fun u l v => (∃ started, l = .go n started) → v.preinit = u.preinit) {} ls := by
  have hsound : Sound s := Run.run_inv (fun _ _ _ hI hs => hI.step hs) sound_start h
  refine ⟨fun n k c hn => ?_, fun n k stage hn => hsound.books.settled hn, ?_, fun hnone => ?_,
    fun n stage hn hfailed => failed_keeps h hn hfailed⟩
  · exact hsound.referenced.held c (held_call hn rfl)
  · exact (sound_start.buffered_run h).symm
  · obtain ⟨hstore, hnotes⟩ := hsound.books.store hnone
    rw [hstore, hnotes]
    exact EarlyStore.replay_foldl fun e he => hsound.books.accepted e (mem_buffered.mpr (.inr he))

/-- A breadcrumb and a revoke before `tombstone_init`, and a breadcrumb that has seen no client
and is about to take the mutex when `tombstone_init` has it. -/
def racingInit : List Label :=
  [.capture (.capture (.addBreadcrumb 1 (some [97]))), .go 0 true, .go 0 true, .go 0 true,
    .capture (.state (.setConsent false)), .go 1 true, .go 1 true, .go 1 true,
    .capture (.capture (.addBreadcrumb 1 (some [98]))), .go 2 true,
    .init true, .go 3 true, .go 3 true, .go 3 true, .go 3 true, .go 3 true, .go 3 true, .go 3 true,
    .go 3 true, .go 2 true, .go 2 true, .go 2 true, .go 2 true]

theorem capture_handoff_racingInit : ∃ s, Run.run step {} racingInit = some s ∧
    s.Settled 0 (.capture (.addBreadcrumb 1 (some [97]))) (.returned .stored) ∧
    s.Settled 2 (.capture (.addBreadcrumb 1 (some [98]))) (.returned (.ran 0)) := by
  have hrun : (Run.run step {} racingInit).map (fun s => (s.calls[0]?, s.calls[2]?)) =
      some (some (.capture (.capture (.addBreadcrumb 1 (some [97]))) (.returned .stored)),
        some (.capture (.capture (.addBreadcrumb 1 (some [98]))) (.returned (.ran 0)))) := by decide
  obtain ⟨s, hs, hcalls⟩ := Option.map_eq_some_iff.mp hrun
  obtain ⟨h0, h2⟩ := Prod.mk.inj hcalls
  have hsettled := (capture_handoff hs).2.1
  exact ⟨s, hs, hsettled 0 _ _ h0, hsettled 2 _ _ h2⟩

end Tombstone.CaptureHandoff
