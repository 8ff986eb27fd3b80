import Tombstone.InitHandoff

/- What the clients were given, against what the calls did and what the store has kept.

   For every client and every call, what the client was given on behalf of the call, and what its
   replay has still to give it, is what the call did to it directly and what the store's bounds
   have left of the call (`Books.law`). Every step keeps that (`books_step`): a call that is
   buffered has the mutex, so no store is being handed over. -/
namespace Tombstone.CaptureHandoff

/-! ## The books -/

/-- What is there on behalf of call `n`. -/
def ofCall (n : Nat) (l : List (EarlyCall × Nat)) : List EarlyCall :=
  (l.filter fun e => e.2 = n).map Prod.fst

/-- What the bounds leave of the calls that were handed over. -/
def Client.owed (client : Client) : List (EarlyCall × Nat) :=
  (survivors client.handed).map fun call => (call.1.stored, call.2)

/-- What call `n` has done to client `c` itself. -/
def State.acted (s : State) (c n : Nat) : List EarlyCall := (s.calls[n]?.map (Call.acted c)).getD []

/-- Every call that was ever buffered. -/
def State.buffered (s : State) : List (EarlyCall × Nat) :=
  s.clients.flatMap Client.handed ++ s.waiting

/-- The client is that of a `tombstone_init` that succeeds. -/
def State.Successful (s : State) (c : Nat) : Prop :=
  ∃ (n : Nat) (call : Call), s.calls[n]? = some call ∧ call.delivers = some c

/-- The clients and the store against the calls. -/
structure Books (s : State) : Prop where
  law : ∀ c n, ofCall n (s.client c).applied ++ ofCall n (s.client c).due =
    s.acted c n ++ ofCall n (s.client c).owed
  due : ∀ c, (s.client c).due <:+ (s.client c).owed
  stored : ∀ (n : Nat) (k : EarlyCall),
    s.calls[n]? = some (.capture k (.returned .stored)) ↔ (k, n) ∈ s.buffered
  nodup : (s.buffered.map Prod.snd).Nodup
  accepted : ∀ e ∈ s.buffered, e.1.refused = false
  refused : ∀ (n : Nat) (k : EarlyCall),
    s.calls[n]? = some (.capture k (.returned .refused)) → k.refused = true
  /-- While no store is handed over, the store is what the waiting calls have left. -/
  store : (∀ (n : Nat) (call : Call), s.calls[n]? = some call → call.handing = false) →
    s.preinit = s.waiting.foldl EarlyStore.apply {} ∧ s.writers = s.waiting.foldl Writers.note {}
  handing : ∀ (n : Nat) (call : Call),
    s.calls[n]? = some call → call.handing = true → s.waiting = []
  replaying : ∀ c, (s.client c).due ≠ [] → ∃ n : Nat, s.calls[n]? = some (.init (.replaying c))
  successful : ∀ c, (s.client c).handed ≠ [] → s.Successful c
  newest : ∀ (n c : Nat), s.calls[n]? = some (.init (.starting c)) →
    c + 1 = s.clients.length ∧ (s.client c).handed = []

section OfCall

variable {n : Nat} {l l' : List (EarlyCall × Nat)}

@[simp] theorem ofCall_nil : ofCall n [] = [] := rfl

@[simp] theorem ofCall_append : ofCall n (l ++ l') = ofCall n l ++ ofCall n l' := by
  simp [ofCall]

@[simp] theorem ofCall_cons (e : EarlyCall × Nat) :
    ofCall n (e :: l) = (if e.2 = n then [e.1] else []) ++ ofCall n l := by
  by_cases h : e.2 = n <;> simp [ofCall, h]

theorem mem_ofCall {k : EarlyCall} : k ∈ ofCall n l ↔ (k, n) ∈ l := by
  simp [ofCall]

theorem ofCall_eq_nil (h : ∀ k, (k, n) ∉ l) : ofCall n l = [] :=
  List.eq_nil_iff_forall_not_mem.mpr fun k hk => h k (mem_ofCall.mp hk)

theorem length_ofCall_le (h : (l.map Prod.snd).Nodup) : (ofCall n l).length ≤ 1 := by
  induction l with
  | nil => exact Nat.zero_le _
  | cons e l ih =>
    rw [List.map_cons, List.nodup_cons] at h
    rw [ofCall_cons]
    by_cases he : e.2 = n
    · have hnone : ofCall n l = [] := by
        apply ofCall_eq_nil
        intro k hk
        have hmem : n ∈ l.map Prod.snd := List.mem_map_of_mem hk
        exact h.1 (he ▸ hmem)
      rw [if_pos he, hnone]
      exact Nat.le_refl 1
    · rw [if_neg he]
      exact ih h.2

theorem ofCall_of_mem {k : EarlyCall} (h : (l.map Prod.snd).Nodup) (hk : (k, n) ∈ l) :
    ofCall n l = [k] := by
  have hmem := mem_ofCall.mpr hk
  have hlength := length_ofCall_le (n := n) h
  match hl : ofCall n l with
  | [] =>
    rw [hl] at hmem
    cases hmem
  | [k'] =>
    rw [hl] at hmem
    rw [List.mem_singleton.mp hmem]
  | _ :: _ :: _ =>
    rw [hl] at hlength
    simp at hlength

end OfCall

section Clients

variable {s s' : State} {c : Nat} {f : Client → Client}

theorem client_of_eq (h : s'.clients = s.clients) (c : Nat) : s'.client c = s.client c := by
  unfold State.client
  rw [h]

theorem client_modify (h : s'.clients = s.clients.modify c f) (hc : c < s.clients.length) (d : Nat) :
    s'.client d = if d = c then f (s.client c) else s.client d := by
  unfold State.client
  rw [h, List.getElem?_modify]
  by_cases hd : d = c
  · rw [hd, if_pos rfl, List.getElem?_eq_getElem hc]
    simp
  · have hcd : c ≠ d := fun h => hd h.symm
    rw [if_neg hd]
    simp [hcd]

/-- A client was handed what it was handed, whatever else it hears. -/
theorem handed_modify (h : s'.clients = s.clients.modify c f) (hc : c < s.clients.length)
    (hf : ∀ client : Client, (f client).handed = client.handed) (d : Nat) :
    (s'.client d).handed = (s.client d).handed := by
  rw [client_modify h hc]
  split
  · rename_i hd
    rw [hf, hd]
  · rfl

theorem owed_of_handed {d : Nat} (h : (s'.client d).handed = (s.client d).handed) :
    (s'.client d).owed = (s.client d).owed := by
  unfold Client.owed
  rw [h]

theorem client_append (h : s'.clients = s.clients ++ [({} : Client)]) (d : Nat) :
    s'.client d = s.client d := by
  unfold State.client
  rw [h]
  by_cases hd : d < s.clients.length
  · rw [List.getElem?_append_left hd]
  · rw [List.getElem?_eq_none (Nat.le_of_not_lt hd)]
    by_cases hlast : d = s.clients.length
    · rw [hlast, List.getElem?_concat_length]
      rfl
    · have hlength : (s.clients ++ [({} : Client)]).length ≤ d := by
        rw [List.length_append, List.length_singleton]
        omega
      rw [List.getElem?_eq_none hlength]

theorem mem_buffered {e : EarlyCall × Nat} :
    e ∈ s.buffered ↔ (∃ c, e ∈ (s.client c).handed) ∨ e ∈ s.waiting := by
  unfold State.buffered State.client
  rw [List.mem_append, List.mem_flatMap]
  constructor
  · rintro (⟨client, hmem, he⟩ | he)
    · obtain ⟨c, hc⟩ := List.mem_iff_getElem?.mp hmem
      refine .inl ⟨c, ?_⟩
      rw [hc]
      exact he
    · exact .inr he
  · rintro (⟨c, he⟩ | he)
    · cases hc : s.clients[c]? with
      | none =>
        rw [hc] at he
        cases he
      | some client =>
        rw [hc] at he
        exact .inl ⟨client, List.mem_of_getElem? hc, he⟩
    · exact .inr he

end Clients

/-! ### A call that goes on -/

section Going

variable {s s' : State} {n m : Nat} {call call' k : Call}

theorem Goes.before (h : Goes s n call call' s') (hk : s.calls[m]? = some k) :
    m = n ∧ k = call ∨ m ≠ n ∧ s'.calls[m]? = some k := by
  by_cases hm : m = n
  · rw [hm, h.here] at hk
    exact .inl ⟨hm, (Option.some.inj hk).symm⟩
  · refine .inr ⟨hm, ?_⟩
    rw [h.get, if_neg hm]
    exact hk

theorem Goes.after (h : Goes s n call call' s') (hk : s'.calls[m]? = some k) :
    m = n ∧ k = call' ∨ m ≠ n ∧ s.calls[m]? = some k := by
  rw [h.get] at hk
  split at hk
  · rename_i hm
    exact .inl ⟨hm, (Option.some.inj hk).symm⟩
  · rename_i hm
    exact .inr ⟨hm, hk⟩

/-- A stage that the call neither leaves nor reaches. -/
theorem Goes.same (h : Goes s n call call' s') (hk : call ≠ k) (hk' : call' ≠ k) :
    s'.calls[m]? = some k ↔ s.calls[m]? = some k := by
  constructor
  · intro hm
    rcases h.after hm with ⟨-, rfl⟩ | ⟨-, hm⟩
    · exact absurd rfl hk'
    · exact hm
  · intro hm
    rcases h.before hm with ⟨-, rfl⟩ | ⟨-, hm⟩
    · exact absurd rfl hk
    · exact hm

theorem Goes.acted (h : Goes s n call call' s') (c : Nat) :
    s'.acted c m = if m = n then call'.acted c else s.acted c m := by
  unfold State.acted
  rw [h.get]
  split <;> rfl

theorem acted_here {c : Nat} (h : s.calls[n]? = some call) : s.acted c n = call.acted c := by
  unfold State.acted
  rw [h]
  rfl

/-- The calls have done the same after a step in which the call has done the same. -/
theorem Goes.acted_same {c : Nat} (h : Goes s n call call' s') (hacted : call'.acted c = call.acted c) :
    s'.acted c m = s.acted c m := by
  rw [h.acted]
  split
  · rename_i hm
    rw [hm, acted_here h.here, hacted]
  · rfl

theorem Goes.successful {c : Nat} (h : Goes s n call call' s')
    (hdelivers : ∀ c, call.delivers = some c → call'.delivers = some c) (hc : s.Successful c) :
    s'.Successful c := by
  obtain ⟨m, k, hm, hk⟩ := hc
  rcases h.before hm with ⟨-, rfl⟩ | ⟨-, hm⟩
  · refine ⟨n, call', ?_, hdelivers c hk⟩
    rw [h.get, if_pos rfl]
  · exact ⟨m, k, hm, hk⟩

/-- No store is handed over before the step, where none is after it. -/
theorem Goes.unhanded (h : Goes s n call call' s') (hsame : call'.handing = call.handing)
    (hnone : ∀ (m : Nat) (k : Call), s'.calls[m]? = some k → k.handing = false) (hk : s.calls[m]? = some k) :
    k.handing = false := by
  rcases h.before hk with ⟨-, rfl⟩ | ⟨-, hk⟩
  · rw [← hsame]
    apply hnone n
    rw [h.get, if_pos rfl]
  · exact hnone m k hk

/-- A store that is handed over after the step was so before it. -/
theorem Goes.handed (h : Goes s n call call' s') (hsame : call'.handing = call.handing)
    (hk : s'.calls[m]? = some k) (hhanding : k.handing = true) :
    ∃ (m : Nat) (k : Call), s.calls[m]? = some k ∧ k.handing = true := by
  rcases h.after hk with ⟨-, rfl⟩ | ⟨-, hk⟩
  · exact ⟨n, call, h.here, hsame ▸ hhanding⟩
  · exact ⟨m, k, hk, hhanding⟩

theorem Call.locks_of_handing (h : k.handing = true) : k.locks = true := by
  unfold Call.handing at h
  split at h
  · rfl
  · rfl
  · cases h

/-- **While a call has the mutex, no other one hands a store over.** -/
theorem Owner.unhanded (ho : Owner s) (h : s.calls[n]? = some call) (hlocks : call.locks = true)
    (hcall : call.handing = false) (hk : s.calls[m]? = some k) : k.handing = false := by
  cases hh : k.handing with
  | false => rfl
  | true =>
    obtain rfl := ho.only h hlocks hk (Call.locks_of_handing hh)
    rw [h] at hk
    obtain rfl := Option.some.inj hk
    rw [hcall] at hh
    cases hh

end Going

/-! ### The books of one step -/

section Account

variable {s s' : State} {n : Nat} {call call' : Call}

theorem mem_owed {client : Client} {k : EarlyCall} {m : Nat} (h : (k, m) ∈ client.owed) :
    ∃ k', (k', m) ∈ client.handed ∧ (k', m) ∈ survivors client.handed ∧ k = k'.stored := by
  obtain ⟨⟨k', m'⟩, hmem, heq⟩ := List.mem_map.mp h
  obtain ⟨rfl, rfl⟩ := Prod.mk.inj heq
  exact ⟨k', survivors_subset hmem, hmem, rfl⟩

/-- Nothing is owed on behalf of a call that was not buffered. -/
theorem Books.unowed (hb : Books s) {m : Nat} (h : ∀ k, (k, m) ∉ s.buffered) (c : Nat) :
    ofCall m (s.client c).owed = [] ∧ ofCall m (s.client c).due = [] := by
  have howed : ∀ k, (k, m) ∉ (s.client c).owed := by
    intro k hk
    obtain ⟨k', hhanded, -⟩ := mem_owed hk
    exact h k' (mem_buffered.mpr (.inl ⟨c, hhanded⟩))
  exact ⟨ofCall_eq_nil howed, ofCall_eq_nil fun k hk => howed k ((hb.due c).subset hk)⟩

theorem Books.unbuffered (hb : Books s) (h : s.calls[n]? = some call)
    (hcall : ∀ k, call ≠ .capture k (.returned .stored)) (k : EarlyCall) : (k, n) ∉ s.buffered := by
  intro hk
  have hstored := (hb.stored n k).mpr hk
  rw [h] at hstored
  exact hcall k (Option.some.inj hstored)

theorem buffered_of_eq (hclients : s'.clients = s.clients) (hwaiting : s'.waiting = s.waiting) :
    s'.buffered = s.buffered := by
  unfold State.buffered
  rw [hclients, hwaiting]

/-- What a client was handed is the same after a step that hands nothing over. -/
theorem buffered_modify {c : Nat} {f : Client → Client}
    (hclients : s'.clients = s.clients.modify c f) (hwaiting : s'.waiting = s.waiting)
    (hf : ∀ client : Client, (f client).handed = client.handed) : s'.buffered = s.buffered := by
  have hmap : ∀ (l : List Client) (c : Nat), (l.modify c f).flatMap Client.handed =
      l.flatMap Client.handed := by
    intro l
    induction l with
    | nil => exact fun c => by rw [List.modify_nil]
    | cons client l ih =>
      intro c
      cases c with
      | zero => rw [List.modify_zero_cons, List.flatMap_cons, List.flatMap_cons, hf]
      | succ c => rw [List.modify_succ_cons, List.flatMap_cons, List.flatMap_cons, ih]
  unfold State.buffered
  rw [hclients, hwaiting, hmap]

/-- A step that buffers nothing. -/
theorem Books.frame (hb : Books s) (hg : Goes s n call call' s') (hbuffered : s'.buffered = s.buffered)
    (hstored : ∀ k, call ≠ .capture k (.returned .stored) ∧ call' ≠ .capture k (.returned .stored))
    (hrefused : ∀ k, call' = .capture k (.returned .refused) → k.refused = true)
    (hdelivers : ∀ c, call.delivers = some c → call'.delivers = some c)
    (hhanded : ∀ c, (s'.client c).handed ≠ [] →
      (s.client c).handed ≠ [] ∨ call'.delivers = some c)
    (hdue : ∀ c, (s'.client c).due ≠ [] →
      call' = .init (.replaying c) ∨ (s.client c).due ≠ [] ∧ call ≠ .init (.replaying c))
    (law : ∀ c m, ofCall m (s'.client c).applied ++ ofCall m (s'.client c).due =
      s'.acted c m ++ ofCall m (s'.client c).owed)
    (due : ∀ c, (s'.client c).due <:+ (s'.client c).owed)
    (store : (∀ (m : Nat) (k : Call), s'.calls[m]? = some k → k.handing = false) →
      s'.preinit = s'.waiting.foldl EarlyStore.apply {} ∧
        s'.writers = s'.waiting.foldl Writers.note {})
    (handing : ∀ (m : Nat) (k : Call), s'.calls[m]? = some k → k.handing = true → s'.waiting = [])
    (newest : ∀ (m c : Nat), s'.calls[m]? = some (.init (.starting c)) →
      c + 1 = s'.clients.length ∧ (s'.client c).handed = []) : Books s' where
  law := law
  due := due
  stored := by
    intro m k
    rw [hg.same (hstored k).1 (hstored k).2, hbuffered]
    exact hb.stored m k
  nodup := by
    rw [hbuffered]
    exact hb.nodup
  accepted := by
    rw [hbuffered]
    exact hb.accepted
  refused := by
    intro m k hm
    rcases hg.after hm with ⟨-, hcall⟩ | ⟨-, hm⟩
    · exact hrefused k hcall.symm
    · exact hb.refused m k hm
  store := store
  handing := handing
  replaying := by
    intro c hc
    rcases hdue c hc with hcall | ⟨hold, hcall⟩
    · refine ⟨n, ?_⟩
      rw [hg.get, if_pos rfl, hcall]
    · obtain ⟨m, hm⟩ := hb.replaying c hold
      rcases hg.before hm with ⟨-, hk⟩ | ⟨-, hm⟩
      · exact absurd hk.symm hcall
      · exact ⟨m, hm⟩
  successful := by
    intro c hc
    rcases hhanded c hc with hold | hcall
    · exact hg.successful hdelivers (hb.successful c hold)
    · refine ⟨n, call', ?_, hcall⟩
      rw [hg.get, if_pos rfl]
  newest := newest

/-- The store and the waiting calls are as they were. -/
theorem Books.store_same (hb : Books s) (hg : Goes s n call call' s')
    (hsame : call'.handing = call.handing) (hpreinit : s'.preinit = s.preinit)
    (hwriters : s'.writers = s.writers) (hwaiting : s'.waiting = s.waiting)
    (hnone : ∀ (m : Nat) (k : Call), s'.calls[m]? = some k → k.handing = false) :
    s'.preinit = s'.waiting.foldl EarlyStore.apply {} ∧
      s'.writers = s'.waiting.foldl Writers.note {} := by
  rw [hpreinit, hwriters, hwaiting]
  exact hb.store fun m k hm => hg.unhanded hsame hnone hm

theorem Books.handing_same (hb : Books s) (hg : Goes s n call call' s')
    (hsame : call'.handing = call.handing) (hwaiting : s'.waiting = s.waiting) {m : Nat} {k : Call}
    (hm : s'.calls[m]? = some k) (hk : k.handing = true) : s'.waiting = [] := by
  obtain ⟨m', k', hm', hk'⟩ := hg.handed hsame hm hk
  rw [hwaiting]
  exact hb.handing m' k' hm' hk'

theorem Books.newest_same (hb : Books s) (hg : Goes s n call call' s')
    (hcall : ∀ c, call' ≠ .init (.starting c)) (hlength : s'.clients.length = s.clients.length)
    (hhanded : ∀ c, (s'.client c).handed = (s.client c).handed) {m c : Nat}
    (hm : s'.calls[m]? = some (.init (.starting c))) :
    c + 1 = s'.clients.length ∧ (s'.client c).handed = [] := by
  rcases hg.after hm with ⟨-, hk⟩ | ⟨-, hm⟩
  · exact absurd hk.symm (hcall c)
  · rw [hlength, hhanded]
    exact hb.newest m c hm

/-- A step that leaves every client as it is. -/
theorem Books.still (hb : Books s) (hg : Goes s n call call' s') (hbuffered : s'.buffered = s.buffered)
    (hclient : ∀ c, s'.client c = s.client c) (hacted : ∀ c, call'.acted c = call.acted c)
    (hstored : ∀ k, call ≠ .capture k (.returned .stored) ∧ call' ≠ .capture k (.returned .stored))
    (hrefused : ∀ k, call' = .capture k (.returned .refused) → k.refused = true)
    (hdelivers : ∀ c, call.delivers = some c → call'.delivers = some c)
    (hreplaying : ∀ c, call = .init (.replaying c) → (s.client c).due = [])
    (store : (∀ (m : Nat) (k : Call), s'.calls[m]? = some k → k.handing = false) →
      s'.preinit = s'.waiting.foldl EarlyStore.apply {} ∧
        s'.writers = s'.waiting.foldl Writers.note {})
    (handing : ∀ (m : Nat) (k : Call), s'.calls[m]? = some k → k.handing = true → s'.waiting = [])
    (newest : ∀ (m c : Nat), s'.calls[m]? = some (.init (.starting c)) →
      c + 1 = s'.clients.length ∧ (s'.client c).handed = []) : Books s' := by
  apply hb.frame hg hbuffered hstored hrefused hdelivers
  case hhanded =>
    intro c hc
    rw [hclient] at hc
    exact .inl hc
  case hdue =>
    intro c hc
    rw [hclient] at hc
    exact .inr ⟨hc, fun hcall => hc (hreplaying c hcall)⟩
  case law =>
    intro c m
    rw [hclient, hg.acted_same (hacted c)]
    exact hb.law c m
  case due =>
    intro c
    rw [hclient]
    exact hb.due c
  case store => exact store
  case handing => exact handing
  case newest => exact newest

theorem Books.plain (hb : Books s) (hg : Goes s n call call' s') (hclients : s'.clients = s.clients)
    (hpreinit : s'.preinit = s.preinit) (hwriters : s'.writers = s.writers)
    (hwaiting : s'.waiting = s.waiting) (hplain : call.Plain s call') : Books s' := by
  have hclient := client_of_eq hclients
  apply hb.still hg (buffered_of_eq hclients hwaiting) hclient hplain.acted hplain.stored
    hplain.refused hplain.delivers hplain.replaying
  case store => exact hb.store_same hg hplain.handing hpreinit hwriters hwaiting
  case handing => exact fun _ _ hm hk => hb.handing_same hg hplain.handing hwaiting hm hk
  case newest =>
    intro m c hm
    refine hb.newest_same hg hplain.starting ?_ (fun d => ?_) hm
    · rw [hclients]
    · rw [hclient]

/-- **A call is buffered**: no store is being handed over, since the call has the mutex. -/
theorem Books.buffer (hb : Books s) (ho : Owner s) {k : EarlyCall}
    (hg : Goes s n (.capture k .locked) (.capture k (.returned .stored)) s')
    (haccepted : k.refused = false) (hclients : s'.clients = s.clients)
    (hpreinit : s'.preinit = s.preinit.apply (k, n)) (hwriters : s'.writers = s.writers.note (k, n))
    (hwaiting : s'.waiting = s.waiting ++ [(k, n)]) : Books s' := by
  have hnone : ∀ (m : Nat) (k : Call), s.calls[m]? = some k → k.handing = false :=
    fun _ _ hm => ho.unhanded hg.here rfl rfl hm
  have hclient := client_of_eq hclients
  have hbuffered : s'.buffered = s.buffered ++ [(k, n)] := by
    unfold State.buffered
    rw [hclients, hwaiting, List.append_assoc]
  have hnew : ∀ k', (k', n) ∉ s.buffered := hb.unbuffered hg.here fun _ => nofun
  constructor
  case law =>
    intro c m
    rw [hclient, hg.acted_same rfl]
    exact hb.law c m
  case due =>
    intro c
    rw [hclient]
    exact hb.due c
  case stored =>
    intro m k'
    rw [hbuffered, List.mem_append, List.mem_singleton]
    constructor
    · intro hm
      rcases hg.after hm with ⟨rfl, hcall⟩ | ⟨-, hm⟩
      · obtain ⟨rfl, -⟩ := Call.capture.inj hcall
        exact .inr rfl
      · exact .inl ((hb.stored m k').mp hm)
    · rintro (hm | hm)
      · rcases hg.before ((hb.stored m k').mpr hm) with ⟨-, hcall⟩ | ⟨-, hm⟩
        · cases (Call.capture.inj hcall).2
        · exact hm
      · obtain ⟨rfl, rfl⟩ := Prod.mk.inj hm
        rw [hg.get, if_pos rfl]
  case nodup =>
    rw [hbuffered, List.map_append, List.map_singleton, ← List.concat_eq_append]
    refine List.Nodup.concat (fun hmem => ?_) hb.nodup
    obtain ⟨⟨k', m⟩, he, rfl⟩ := List.mem_map.mp hmem
    exact hnew k' he
  case accepted =>
    intro e he
    rw [hbuffered] at he
    rcases List.mem_append.mp he with he | he
    · exact hb.accepted e he
    · rw [List.mem_singleton.mp he]
      exact haccepted
  case refused =>
    intro m k' hm
    rcases hg.after hm with ⟨-, hcall⟩ | ⟨-, hm⟩
    · cases (Call.capture.inj hcall).2
    · exact hb.refused m k' hm
  case store =>
    intro _
    obtain ⟨hstore, hnotes⟩ := hb.store hnone
    rw [hpreinit, hwriters, hwaiting, List.foldl_append, List.foldl_append, hstore, hnotes]
    exact ⟨rfl, rfl⟩
  case handing =>
    intro m k' hm hhanding
    obtain ⟨m', k'', hm', hhanding'⟩ := hg.handed rfl hm hhanding
    rw [hnone m' k'' hm'] at hhanding'
    cases hhanding'
  case replaying =>
    intro c hc
    rw [hclient] at hc
    obtain ⟨m, hm⟩ := hb.replaying c hc
    rcases hg.before hm with ⟨-, hcall⟩ | ⟨-, hm⟩
    · cases hcall
    · exact ⟨m, hm⟩
  case successful =>
    intro c hc
    rw [hclient] at hc
    exact hg.successful (fun _ h => nomatch h) (hb.successful c hc)
  case newest =>
    intro m c hm
    refine hb.newest_same hg (fun _ => nofun) ?_ (fun d => ?_) hm
    · rw [hclients]
    · rw [hclient]

/-- **A call acts on its client**, which has not heard of it before. -/
theorem Books.act (hb : Books s) {k : EarlyCall} {c : Nat} (hc : c < s.clients.length)
    (hg : Goes s n (.capture k (.acting c)) (.capture k (.leaving c)) s')
    (hclients : s'.clients = s.clients.modify c fun client =>
      { client with applied := client.applied ++ [(k, n)] })
    (hpreinit : s'.preinit = s.preinit) (hwriters : s'.writers = s.writers)
    (hwaiting : s'.waiting = s.waiting) : Books s' := by
  have hclient := client_modify hclients hc
  have hdue : ∀ d, (s'.client d).due = (s.client d).due := by
    intro d
    rw [hclient]
    split
    · rename_i hd
      rw [hd]
    · rfl
  have hhanded := handed_modify hclients hc fun _ => rfl
  have howed : ∀ d, (s'.client d).owed = (s.client d).owed := fun d => owed_of_handed (hhanded d)
  apply hb.frame hg (buffered_modify hclients hwaiting fun _ => rfl) (fun _ => ⟨nofun, nofun⟩)
    (fun _ => nofun) (fun _ h => nomatch h)
  case hhanded =>
    intro d hd
    rw [hhanded] at hd
    exact .inl hd
  case hdue =>
    intro d hd
    rw [hdue] at hd
    exact .inr ⟨hd, nofun⟩
  case law =>
    intro d m
    have hlaw := hb.law d m
    rw [hdue, howed, hclient, hg.acted]
    by_cases hm : m = n
    · obtain ⟨hnothing, hnone⟩ := hb.unowed (hb.unbuffered hg.here fun _ => nofun) d
      rw [hm, acted_here hg.here, hnothing, hnone] at hlaw
      have hbefore : ofCall n (s.client d).applied = [] := by simpa [Call.acted] using hlaw
      rw [hm, hnothing, hnone, if_pos rfl]
      by_cases hd : d = c
      · rw [hd] at hbefore
        simp [hd, hbefore, Call.acted]
      · simp [hd, hbefore, Call.acted]
    · have hnm : n ≠ m := fun h => hm h.symm
      rw [if_neg hm, ← hlaw]
      by_cases hd : d = c
      · simp [hd, hnm]
      · rw [if_neg hd]
  case due =>
    intro d
    rw [hdue, howed]
    exact hb.due d
  case store => exact hb.store_same hg rfl hpreinit hwriters hwaiting
  case handing => exact fun _ _ hm hk => hb.handing_same hg rfl hwaiting hm hk
  case newest =>
    intro m d hm
    refine hb.newest_same hg (fun _ => nofun) ?_ hhanded hm
    rw [hclients, List.length_modify]

theorem buffered_fresh (hclients : s'.clients = s.clients ++ [({} : Client)])
    (hwaiting : s'.waiting = s.waiting) : s'.buffered = s.buffered := by
  unfold State.buffered
  rw [hclients, hwaiting, List.flatMap_append, List.flatMap_singleton, List.append_nil]

theorem Books.fresh (hb : Books s) (ho : Owner s)
    (hg : Goes s n (.init .locked) (.init (.starting s.clients.length)) s')
    (hclients : s'.clients = s.clients ++ [({} : Client)]) (hpreinit : s'.preinit = s.preinit)
    (hwriters : s'.writers = s.writers) (hwaiting : s'.waiting = s.waiting) : Books s' := by
  have hclient := client_append hclients
  apply hb.still hg (buffered_fresh hclients hwaiting) hclient (fun _ => rfl)
    (fun _ => ⟨nofun, nofun⟩) (fun _ => nofun) (fun _ h => nomatch h) (fun _ => nofun)
  case store => exact hb.store_same hg rfl hpreinit hwriters hwaiting
  case handing => exact fun _ _ hm hk => hb.handing_same hg rfl hwaiting hm hk
  case newest =>
    intro m c hm
    rcases hg.after hm with ⟨-, hk⟩ | ⟨hmn, hm⟩
    · obtain rfl := InitStage.starting.inj (Call.init.inj hk)
      refine ⟨?_, ?_⟩
      · rw [hclients, List.length_append, List.length_singleton]
      · rw [hclient, State.client, List.getElem?_eq_none (Nat.le_refl _)]
        rfl
    · exact absurd (ho.only hg.here rfl hm rfl) hmn

/-- The last client is handed what waits. -/
theorem flatMap_modify_last {w : List (EarlyCall × Nat)} {f : Client → Client} :
    ∀ (l : List Client) (c : Nat), c + 1 = l.length → (l[c]?.getD {}).handed = [] →
      (∀ client, (f client).handed = w) →
      (l.modify c f).flatMap Client.handed = l.flatMap Client.handed ++ w
  | [], _, hlength, _, _ => by cases hlength
  | client :: l, 0, hlength, hnone, hf => by
    have hl : l = [] := List.length_eq_zero_iff.mp (Nat.succ.inj hlength).symm
    have hnone' : client.handed = [] := hnone
    rw [hl, List.modify_zero_cons, List.flatMap_singleton, List.flatMap_singleton, hf, hnone',
      List.nil_append]
  | client :: l, c + 1, hlength, hnone, hf => by
    rw [List.modify_succ_cons, List.flatMap_cons, List.flatMap_cons, List.append_assoc,
      flatMap_modify_last l c (Nat.succ.inj hlength) hnone hf]

theorem Books.buffered_handOver (hb : Books s) {c : Nat}
    (hn : s.calls[n]? = some (.init (.starting c)))
    (hclients : s'.clients = s.clients.modify c fun client =>
      { client with due := s.preinit.replay s.writers, handed := s.waiting })
    (hwaiting : s'.waiting = []) : s'.buffered = s.buffered := by
  obtain ⟨hlast, hempty⟩ := hb.newest n c hn
  unfold State.buffered
  rw [hclients, hwaiting, List.append_nil]
  exact flatMap_modify_last s.clients c hlast hempty fun _ => rfl

/-- **What waits is handed to the client of a successful `tombstone_init`**: its replay is what the
store's bounds leave of it. -/
theorem Books.handOver (hb : Books s) (ho : Owner s) {c : Nat} (hc : c < s.clients.length)
    (hg : Goes s n (.init (.starting c)) (.init (.replaying c)) s')
    (hclients : s'.clients = s.clients.modify c fun client =>
      { client with due := s.preinit.replay s.writers, handed := s.waiting })
    (hwaiting : s'.waiting = []) : Books s' := by
  have hclient := client_modify hclients hc
  obtain ⟨-, hempty⟩ := hb.newest n c hg.here
  have hnone : ∀ (m : Nat) (k : Call), s.calls[m]? = some k → k.handing = false :=
    fun _ _ hm => ho.unhanded hg.here rfl rfl hm
  have hbuffered := hb.buffered_handOver hg.here hclients hwaiting
  have haccepted : ∀ e ∈ s.waiting, e.1.refused = false := fun e he =>
    hb.accepted e (mem_buffered.mpr (.inr he))
  have hreplay : (s'.client c).due = (s'.client c).owed := by
    obtain ⟨hstore, hnotes⟩ := hb.store hnone
    rw [hclient, if_pos rfl, hstore, hnotes, EarlyStore.replay_foldl haccepted]
    rfl
  have hself : s'.calls[n]? = some (.init (.replaying c)) := by
    rw [hg.get, if_pos rfl]
  apply hb.frame hg hbuffered (fun _ => ⟨nofun, nofun⟩) (fun _ => nofun) (fun _ h => nomatch h)
  case hhanded =>
    intro d hd
    rw [hclient] at hd
    split at hd
    · rename_i hdc
      rw [hdc]
      exact .inr rfl
    · exact .inl hd
  case hdue =>
    intro d hd
    rw [hclient] at hd
    split at hd
    · rename_i hdc
      rw [hdc]
      exact .inl rfl
    · exact .inr ⟨hd, nofun⟩
  case law =>
    intro d m
    have hlaw := hb.law d m
    rw [hg.acted_same rfl]
    by_cases hd : d = c
    · have howed : (s.client c).owed = [] := by
        unfold Client.owed
        rw [hempty]
        rfl
      have hdue : (s.client c).due = [] := by
        have hsuffix := hb.due c
        rw [howed] at hsuffix
        exact List.suffix_nil.mp hsuffix
      have happlied : (s'.client c).applied = (s.client c).applied := by
        rw [hclient, if_pos rfl]
      rw [hd, howed, hdue, ofCall_nil, List.append_nil, List.append_nil] at hlaw
      rw [hd, hreplay, happlied, hlaw]
    · rw [hclient, if_neg hd]
      exact hlaw
  case due =>
    intro d
    by_cases hd : d = c
    · rw [hd]
      exact ⟨[], hreplay⟩
    · rw [hclient, if_neg hd]
      exact hb.due d
  case store =>
    intro hnone'
    cases hnone' n _ hself
  case handing => exact fun _ _ _ _ => hwaiting
  case newest =>
    intro m d hm
    rcases hg.after hm with ⟨-, hk⟩ | ⟨hmn, hm⟩
    · cases Call.init.inj hk
    · exact absurd (ho.only hg.here rfl hm rfl) hmn

/-- **One call is replayed.** -/
theorem Books.replay (hb : Books s) {c : Nat} (hc : c < s.clients.length)
    (hg : Goes s n (.init (.replaying c)) (.init (.replaying c)) s') {e : EarlyCall × Nat}
    {due : List (EarlyCall × Nat)} (hleft : (s.client c).due = e :: due)
    (hclients : s'.clients = s.clients.modify c fun client =>
      { client with applied := client.applied ++ [e], due })
    (hpreinit : s'.preinit = s.preinit) (hwriters : s'.writers = s.writers)
    (hwaiting : s'.waiting = s.waiting) : Books s' := by
  have hclient := client_modify hclients hc
  have hhanded := handed_modify hclients hc fun _ => rfl
  have howed : ∀ d, (s'.client d).owed = (s.client d).owed := fun d => owed_of_handed (hhanded d)
  apply hb.frame hg (buffered_modify hclients hwaiting fun _ => rfl) (fun _ => ⟨nofun, nofun⟩)
    (fun _ => nofun) (fun _ h => h)
  case hhanded =>
    intro d hd
    rw [hhanded] at hd
    exact .inl hd
  case hdue =>
    intro d hd
    by_cases hdc : d = c
    · rw [hdc]
      exact .inl rfl
    · rw [hclient, if_neg hdc] at hd
      refine .inr ⟨hd, fun hcall => ?_⟩
      exact hdc (InitStage.replaying.inj (Call.init.inj hcall)).symm
  case law =>
    intro d m
    rw [howed, hg.acted_same rfl, ← hb.law d m, hclient]
    by_cases hd : d = c
    · rw [if_pos hd, hd, hleft, ofCall_append, ofCall_cons, ofCall_cons, ofCall_nil,
        List.append_nil, List.append_assoc]
    · rw [if_neg hd]
  case due =>
    intro d
    rw [howed]
    by_cases hd : d = c
    · have hsuffix := hb.due c
      rw [hleft] at hsuffix
      rw [hclient, if_pos hd, hd]
      exact (List.suffix_cons e due).trans hsuffix
    · rw [hclient, if_neg hd]
      exact hb.due d
  case store => exact hb.store_same hg rfl hpreinit hwriters hwaiting
  case handing => exact fun _ _ hm hk => hb.handing_same hg rfl hwaiting hm hk
  case newest =>
    intro m d hm
    refine hb.newest_same hg (fun _ => nofun) ?_ hhanded hm
    rw [hclients, List.length_modify]

/-- **The store is cleared**: nothing has been buffered since it was replayed. -/
theorem Books.clear (hb : Books s) {c : Nat}
    (hg : Goes s n (.init (.clearing c)) (.init (.publishing c)) s')
    (hclients : s'.clients = s.clients) (hpreinit : s'.preinit = {}) (hwriters : s'.writers = {})
    (hwaiting : s'.waiting = s.waiting) : Books s' := by
  have hclient := client_of_eq hclients
  have hempty : s'.waiting = [] := by
    rw [hwaiting]
    exact hb.handing n _ hg.here rfl
  apply hb.still hg (buffered_of_eq hclients hwaiting) hclient (fun _ => rfl)
    (fun _ => ⟨nofun, nofun⟩) (fun _ => nofun) (fun _ h => h) (fun _ => nofun)
  case store =>
    intro _
    rw [hempty, hpreinit, hwriters]
    exact ⟨rfl, rfl⟩
  case handing => exact fun _ _ _ _ => hempty
  case newest =>
    intro m d hm
    refine hb.newest_same hg (fun _ => nofun) ?_ (fun d => ?_) hm
    · rw [hclients]
    · rw [hclient]

theorem Call.New.acted {c : Nat} (h : call.New) : call.acted c = [] := by
  cases h <;> rfl

theorem Call.New.handing (h : call.New) : call.handing = false := by
  cases h <;> rfl

theorem Books.enter (hb : Books s) (hnew : call.New) : Books (s.enter call) := by
  -- a stage that no call enters at
  have hsame : ∀ (m : Nat) (k : Call), ¬ k.New →
      ((s.enter call).calls[m]? = some k ↔ s.calls[m]? = some k) := by
    intro m k hk
    rcases enter_get s call m with hm | ⟨-, hnone, hm⟩
    · rw [hm]
    · rw [hm, hnone]
      constructor
      · intro h
        obtain rfl := Option.some.inj h
        exact absurd hnew hk
      · exact fun h => nomatch h
  have hold : ∀ (m : Nat) (k : Call), s.calls[m]? = some k → (s.enter call).calls[m]? = some k := by
    intro m k hm
    rcases enter_get s call m with h | ⟨-, hnone, -⟩
    · rw [h, hm]
    · rw [hnone] at hm
      cases hm
  constructor
  case law =>
    intro c m
    have hacted : (s.enter call).acted c m = s.acted c m := by
      unfold State.acted
      rcases enter_get s call m with hm | ⟨-, hnone, hm⟩
      · rw [hm]
      · rw [hm, hnone]
        exact hnew.acted
    rw [hacted]
    exact hb.law c m
  case due => exact hb.due
  case stored =>
    exact fun m k => (hsame m (.capture k (.returned .stored)) nofun).trans (hb.stored m k)
  case nodup => exact hb.nodup
  case accepted => exact hb.accepted
  case refused =>
    exact fun m k hm => hb.refused m k ((hsame m (.capture k (.returned .refused)) nofun).mp hm)
  case store => exact fun hnone => hb.store fun m k hm => hnone m k (hold m k hm)
  case handing =>
    intro m k hm hk
    have hk' : ¬ k.New := fun h => by rw [h.handing] at hk; cases hk
    exact hb.handing m k ((hsame m k hk').mp hm) hk
  case replaying =>
    intro c hc
    obtain ⟨m, hm⟩ := hb.replaying c hc
    exact ⟨m, hold m _ hm⟩
  case successful =>
    intro c hc
    obtain ⟨m, k, hm, hk⟩ := hb.successful c hc
    exact ⟨m, k, hold m k hm, hk⟩
  case newest =>
    exact fun m c hm => hb.newest m c ((hsame m (.init (.starting c)) nofun).mp hm)

/-- **Every step keeps the books.** -/
theorem books_step {l : Label} (ho : Owner s) (hr : Referenced s) (hb : Books s)
    (h : step s l = some s') : Books s' := by
  rcases step_cases h with ⟨call, hnew, rfl, -⟩ | ⟨n, started, call, call', -, hg, heffect⟩
  · exact hb.enter hnew
  · cases heffect with
    | plain clients preinit writers waiting plain =>
      exact hb.plain hg clients preinit writers waiting plain
    | store k accepted clients preinit writers waiting =>
      exact hb.buffer ho hg accepted clients preinit writers waiting
    | act k c clients preinit writers waiting =>
      exact hb.act (hr.held c (held_call hg.here rfl)).1 hg clients preinit writers waiting
    | fresh clients preinit writers waiting => exact hb.fresh ho hg clients preinit writers waiting
    | handOver c clients preinit writers waiting =>
      exact hb.handOver ho (hr.held c (held_call hg.here rfl)).1 hg clients waiting
    | replay c e due left clients preinit writers waiting =>
      exact hb.replay (hr.held c (held_call hg.here rfl)).1 hg left clients preinit writers waiting
    | clear c clients preinit writers waiting =>
      exact hb.clear hg clients preinit writers waiting

end Account

end Tombstone.CaptureHandoff
