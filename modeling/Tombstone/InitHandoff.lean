import Tombstone.EarlyReplay

/- The hand-over of captures from thread to thread (`tombstone_api.cpp`): `with_client_or_buffer`
   against `tombstone_init` and `tombstone_shutdown`.

   Calls come from any number of threads; a call goes by its place among all calls. A label is
   one access to what they share, in any order with those of the other calls. `g_client_mutex`
   is held from one label to the next where the code holds it over more than one: in the second
   look of `with_client_or_buffer`, and in `tombstone_init` over the start, each call of the
   replay, the clearing and the publication. No allocation fails, so once `Client::init` has
   succeeded nothing ends the replay. A `set_user_metadata` with a null array and a positive
   count is refused on either path and is no call here, and neither is a call that is never
   buffered: all it does to these is to refer to a client for a while.

   1. What a step does (`step_cases`): what becomes of the mutex and of the references (`Goes`),
      and what becomes of the store and of the clients (`Effect`).
   2. Two calls never hold the mutex at once (`owner_step`), and a client lives as long as
      something refers to it (`referenced_step`). -/
namespace Tombstone.CaptureHandoff

/-- What became of a bufferable call. -/
inductive Fate where
  /-- Its action ran on a client. -/
  | ran (client : Nat)
  | stored
  | refused
  deriving DecidableEq, Repr

/-- Where `with_client_or_buffer` is. -/
inductive CaptureStage where
  | snapshot
  /-- The snapshot was null. -/
  | unpublished
  | locked
  | acting (client : Nat)
  | leaving (client : Nat)
  | returned (fate : Fate)
  deriving DecidableEq, Repr

inductive InitResult where
  | ok (client : Nat)
  | invalidArgument
  | alreadyInitialized
  | failed
  deriving DecidableEq, Repr

/-- Where `tombstone_init` is; `options` says whether there are any. -/
inductive InitStage where
  | entered (options : Bool)
  | locked
  | starting (client : Nat)
  | replaying (client : Nat)
  | clearing (client : Nat)
  | publishing (client : Nat)
  /-- It has let go of the mutex, and `fresh` goes next. -/
  | failed (client : Nat)
  | returned (result : InitResult)
  deriving DecidableEq, Repr

/-- Where `tombstone_shutdown` is. -/
inductive ShutdownStage where
  | entered
  | retired (client : Nat)
  | returned
  deriving DecidableEq, Repr

inductive Call where
  | capture (call : EarlyCall) (stage : CaptureStage)
  | init (stage : InitStage)
  | shutdown (stage : ShutdownStage)
  deriving DecidableEq, Repr

/-- A client, by the calls that were made on it, each with the call of the API that it is for. -/
structure Client where
  applied : List (EarlyCall × Nat) := []
  /-- What `replay_preinit` has still to replay. -/
  due : List (EarlyCall × Nat) := []
  /-- The calls that were buffered when its replay began; proof-only. -/
  handed : List (EarlyCall × Nat) := []
  deriving DecidableEq, Repr

structure State where
  /-- The call that holds `g_client_mutex`. -/
  mutex : Option Nat := none
  /-- `g_client`; a client goes by its place. -/
  published : Option Nat := none
  /-- `g_preinit`. -/
  preinit : EarlyStore := {}
  writers : Writers := {}
  /-- The calls that were buffered since the last replay; proof-only. -/
  waiting : List (EarlyCall × Nat) := []
  clients : List Client := []
  /-- The clients whose destructor has begun. -/
  destroyed : List Nat := []
  calls : List Call := []
  deriving DecidableEq, Repr

inductive Label where
  /-- A call enters the library. -/
  | capture (call : EarlyCall)
  | init (options : Bool)
  | shutdown
  /-- The `n`-th call goes on; `started` is whether `Client::init` succeeds. -/
  | go (n : Nat) (started : Bool)
  deriving DecidableEq, Repr

/-- The client that a call has a reference to. -/
def Call.client : Call → Option Nat
  | .capture _ (.acting c) | .capture _ (.leaving c) => some c
  | .init (.starting c) | .init (.replaying c) | .init (.clearing c) | .init (.publishing c)
  | .init (.failed c) => some c
  | .shutdown (.retired c) => some c
  | _ => none

namespace State

variable (s : State)

def client (c : Nat) : Client := s.clients[c]?.getD {}

def enter (call : Call) : State := { s with calls := s.calls ++ [call] }

def move (n : Nat) (call : Call) : State := { s with calls := s.calls.set n call }

def modify (c : Nat) (f : Client → Client) : State := { s with clients := s.clients.modify c f }

/-- Something refers to the client. -/
def Held (c : Nat) : Prop := s.published = some c ∨ ∃ call ∈ s.calls, call.client = some c

instance (c : Nat) : Decidable (s.Held c) :=
  inferInstanceAs (Decidable (s.published = some c ∨ ∃ call ∈ s.calls, call.client = some c))

/-- The call goes on without its reference; the last one takes the client with it. -/
def release (n c : Nat) (call : Call) : State :=
  let s := s.move n call
  if s.Held c then s else { s with destroyed := s.destroyed ++ [c] }

end State

/-- `with_client_or_buffer` in the `n`-th call. -/
def withClientOrBuffer (s : State) (n : Nat) (k : EarlyCall) : CaptureStage → Option State
  | .snapshot =>
    if s.mutex.isSome then none
    else
      match s.published with
      | none => some (s.move n (.capture k .unpublished))
      | some c => some (s.move n (.capture k (.acting c)))
  | .unpublished =>
    if s.mutex.isSome then none else some { s.move n (.capture k .locked) with mutex := some n }
  | .locked =>
    match s.published with
    | some c => some { s.move n (.capture k (.acting c)) with mutex := none }
    | none =>
      if k.refused then some { s.move n (.capture k (.returned .refused)) with mutex := none }
      else
        some { s.move n (.capture k (.returned .stored)) with
          mutex := none
          preinit := s.preinit.apply (k, n)
          writers := s.writers.note (k, n)
          waiting := s.waiting ++ [(k, n)] }
  | .acting c =>
    some ((s.modify c fun client => { client with applied := client.applied ++ [(k, n)] }).move n
      (.capture k (.leaving c)))
  | .leaving c => some (s.release n c (.capture k (.returned (.ran c))))
  | .returned _ => none

/-- `tombstone_init` in the `n`-th call. -/
def tombstoneInit (s : State) (n : Nat) (started : Bool) : InitStage → Option State
  | .entered false => some (s.move n (.init (.returned .invalidArgument)))
  | .entered true =>
    if s.mutex.isSome then none else some { s.move n (.init .locked) with mutex := some n }
  | .locked =>
    match s.published with
    | some _ => some { s.move n (.init (.returned .alreadyInitialized)) with mutex := none }
    | none =>
      some { s.move n (.init (.starting s.clients.length)) with clients := s.clients ++ [{}] }
  | .starting c =>
    if started then
      some { (s.modify c fun client =>
        { client with due := s.preinit.replay s.writers, handed := s.waiting }).move n
          (.init (.replaying c)) with waiting := [] }
    -- the lock's scope ends before that of `fresh`
    else some { s.move n (.init (.failed c)) with mutex := none }
  | .replaying c =>
    match (s.client c).due with
    | [] => some (s.move n (.init (.clearing c)))
    | e :: due =>
      some ((s.modify c fun client => { client with applied := client.applied ++ [e], due }).move n
        (.init (.replaying c)))
  | .clearing c =>
    some { s.move n (.init (.publishing c)) with preinit := {}, writers := {} }
  | .publishing c =>
    some { s.move n (.init (.returned (.ok c))) with published := some c, mutex := none }
  | .failed c => some (s.release n c (.init (.returned .failed)))
  | .returned _ => none

/-- `tombstone_shutdown` in the `n`-th call. -/
def tombstoneShutdown (s : State) (n : Nat) : ShutdownStage → Option State
  | .entered =>
    if s.mutex.isSome then none
    else
      match s.published with
      | none => some (s.move n (.shutdown .returned))
      | some c => some { s.move n (.shutdown (.retired c)) with published := none }
  | .retired c => some (s.release n c (.shutdown .returned))
  | .returned => none

def step (s : State) : Label → Option State
  | .capture call => some (s.enter (.capture call .snapshot))
  | .init options => some (s.enter (.init (.entered options)))
  | .shutdown => some (s.enter (.shutdown .entered))
  | .go n started =>
    s.calls[n]?.bind fun call =>
      match call with
      | .capture k stage => withClientOrBuffer s n k stage
      | .init stage => tombstoneInit s n started stage
      | .shutdown stage => tombstoneShutdown s n stage

/-! ## What one step does -/

namespace Call

/-- The call has `g_client_mutex`. -/
def locks : Call → Bool
  | .capture _ .locked => true
  | .init .locked | .init (.starting _) | .init (.replaying _) | .init (.clearing _)
  | .init (.publishing _) => true
  | _ => false

/-- The call has read the store for its replay, and not cleared it. -/
def handing : Call → Bool
  | .init (.replaying _) | .init (.clearing _) => true
  | _ => false

/-- The client of a successful `tombstone_init`. -/
def delivers : Call → Option Nat
  | .init (.replaying c) | .init (.clearing c) | .init (.publishing c)
  | .init (.returned (.ok c)) => some c
  | _ => none

/-- What the call has done to client `c` itself. -/
def acted (c : Nat) : Call → List EarlyCall
  | .capture k (.leaving c') | .capture k (.returned (.ran c')) => if c = c' then [k] else []
  | _ => []

/-- The call has nothing on the books. -/
def quiet : Call → Bool
  | .capture _ .snapshot | .capture _ .unpublished | .capture _ .locked | .capture _ (.acting _) => true
  | .init (.entered _) | .init .locked | .init (.failed _) | .init (.returned .invalidArgument)
  | .init (.returned .alreadyInitialized) | .init (.returned .failed) => true
  | .shutdown _ => true
  | _ => false

/-- The call has just entered. -/
inductive New : Call → Prop where
  | capture (k : EarlyCall) : New (.capture k .snapshot)
  | init (options : Bool) : New (.init (.entered options))
  | shutdown : New (.shutdown .entered)

/-- The books are the same after the call has gone on. -/
structure Plain (s : State) (call call' : Call) : Prop where
  acted : ∀ c, call'.acted c = call.acted c
  stored : ∀ k, call ≠ .capture k (.returned .stored) ∧ call' ≠ .capture k (.returned .stored)
  refused : ∀ k, call' = .capture k (.returned .refused) → k.refused = true
  handing : call'.handing = call.handing
  delivers : ∀ c, call.delivers = some c → call'.delivers = some c
  replaying : ∀ c, call = .init (.replaying c) → (s.client c).due = []
  starting : ∀ c, call' ≠ .init (.starting c)

theorem quiet_facts {call : Call} (h : call.quiet = true) :
    (∀ c, call.acted c = []) ∧ call.handing = false ∧ call.delivers = none := by
  unfold quiet at h
  split at h <;> first | exact ⟨fun _ => rfl, rfl, rfl⟩ | cases h

theorem Plain.of_quiet {s : State} {call call' : Call} (h : call.quiet = true)
    (h' : call'.quiet = true) : call.Plain s call' := by
  obtain ⟨hacted, hhanding, hdelivers⟩ := quiet_facts h
  obtain ⟨hacted', hhanding', -⟩ := quiet_facts h'
  refine ⟨fun c => ?_, fun k => ⟨?_, ?_⟩, ?_, ?_, fun c hc => ?_, ?_, ?_⟩
  · rw [hacted, hacted']
  · rintro rfl
    cases h
  · rintro rfl
    cases h'
  · rintro k rfl
    cases h'
  · rw [hhanding, hhanding']
  · rw [hdelivers] at hc
    cases hc
  · rintro c rfl
    cases h
  · rintro c rfl
    cases h'

end Call

section Step

variable {s s' : State} {n : Nat} {call call' : Call}

/-- The call goes on: what becomes of the mutex and of the references. -/
structure Goes (s : State) (n : Nat) (call call' : Call) (s' : State) : Prop where
  here : s.calls[n]? = some call
  calls : s'.calls = s.calls.set n call'
  mutex : s'.mutex = s.mutex ∧ (call'.locks = true → call.locks = true) ∨
    s.mutex = none ∧ s'.mutex = some n ∨
    call.locks = true ∧ call'.locks = false ∧ s'.mutex = none
  refers : ∀ c, s'.Held c → s.Held c ∨ c = s.clients.length ∧ c < s'.clients.length
  clients : s.clients.length ≤ s'.clients.length
  destroyed : ∀ c ∈ s'.destroyed, c ∈ s.destroyed ∨ s.Held c ∧ ¬ s'.Held c

/-- What becomes of the store and of the clients. -/
inductive Effect (s : State) (n : Nat) (s' : State) : Call → Call → Prop where
  | plain {call call' : Call} (clients : s'.clients = s.clients) (preinit : s'.preinit = s.preinit)
      (writers : s'.writers = s.writers) (waiting : s'.waiting = s.waiting)
      (plain : call.Plain s call') : Effect s n s' call call'
  | store (k : EarlyCall) (accepted : k.refused = false) (clients : s'.clients = s.clients)
      (preinit : s'.preinit = s.preinit.apply (k, n)) (writers : s'.writers = s.writers.note (k, n))
      (waiting : s'.waiting = s.waiting ++ [(k, n)]) :
      Effect s n s' (.capture k .locked) (.capture k (.returned .stored))
  | act (k : EarlyCall) (c : Nat)
      (clients : s'.clients = s.clients.modify c fun client =>
        { client with applied := client.applied ++ [(k, n)] })
      (preinit : s'.preinit = s.preinit) (writers : s'.writers = s.writers)
      (waiting : s'.waiting = s.waiting) :
      Effect s n s' (.capture k (.acting c)) (.capture k (.leaving c))
  | fresh (clients : s'.clients = s.clients ++ [({} : Client)]) (preinit : s'.preinit = s.preinit)
      (writers : s'.writers = s.writers) (waiting : s'.waiting = s.waiting) :
      Effect s n s' (.init .locked) (.init (.starting s.clients.length))
  | handOver (c : Nat)
      (clients : s'.clients = s.clients.modify c fun client =>
        { client with due := s.preinit.replay s.writers, handed := s.waiting })
      (preinit : s'.preinit = s.preinit) (writers : s'.writers = s.writers)
      (waiting : s'.waiting = []) : Effect s n s' (.init (.starting c)) (.init (.replaying c))
  | replay (c : Nat) (e : EarlyCall × Nat) (due : List (EarlyCall × Nat))
      (left : (s.client c).due = e :: due)
      (clients : s'.clients = s.clients.modify c fun client =>
        { client with applied := client.applied ++ [e], due })
      (preinit : s'.preinit = s.preinit) (writers : s'.writers = s.writers)
      (waiting : s'.waiting = s.waiting) : Effect s n s' (.init (.replaying c)) (.init (.replaying c))
  | clear (c : Nat) (clients : s'.clients = s.clients) (preinit : s'.preinit = {})
      (writers : s'.writers = {}) (waiting : s'.waiting = s.waiting) :
      Effect s n s' (.init (.clearing c)) (.init (.publishing c))

theorem held_call {c : Nat} (h : s.calls[n]? = some call) (hc : call.client = some c) : s.Held c :=
  .inr ⟨call, List.mem_of_getElem? h, hc⟩

/-- A call that goes on refers to what it says, and nothing else refers to more than before. -/
theorem held_set {c : Nat} (hcalls : s'.calls = s.calls.set n call')
    (hpublished : s'.published = some c → s.Held c) (hrefers : call'.client = some c → s.Held c)
    (h : s'.Held c) : s.Held c := by
  rcases h with h | ⟨k, hk, hc⟩
  · exact hpublished h
  · rw [hcalls] at hk
    rcases List.mem_or_eq_of_mem_set hk with hk | rfl
    · exact .inr ⟨k, hk, hc⟩
    · exact hrefers hc

/-- The mutex, the references and the books, where a call goes on without a word to a client. -/
theorem Goes.of_set (here : s.calls[n]? = some call) (calls : s'.calls = s.calls.set n call')
    (mutex : s'.mutex = s.mutex ∧ (call'.locks = true → call.locks = true) ∨
      s.mutex = none ∧ s'.mutex = some n ∨
      call.locks = true ∧ call'.locks = false ∧ s'.mutex = none)
    (clients : s'.clients.length = s.clients.length) (destroyed : s'.destroyed = s.destroyed)
    (published : ∀ c, s'.published = some c → s.Held c)
    (refers : ∀ c, call'.client = some c → s.Held c) : Goes s n call call' s' where
  here := here
  calls := calls
  mutex := mutex
  refers := fun c hc => .inl (held_set calls (published c) (refers c) hc)
  clients := Nat.le_of_eq clients.symm
  destroyed := fun _ hc => .inl (destroyed ▸ hc)

theorem release_cases (s : State) (n c : Nat) (call : Call) :
    s.release n c call = s.move n call ∨
      s.release n c call = { s.move n call with destroyed := s.destroyed ++ [c] } ∧
        ¬ (s.move n call).Held c := by
  unfold State.release
  by_cases h : (s.move n call).Held c
  · exact .inl (if_pos h)
  · exact .inr ⟨if_neg h, h⟩

theorem Goes.release {c : Nat} (here : s.calls[n]? = some call) (hclient : call.client = some c)
    (hlocks : call'.locks = false) (hnone : call'.client = none) :
    Goes s n call call' (s.release n c call') := by
  have hmove : Goes s n call call' (s.move n call') := by
    refine .of_set here rfl (.inl ⟨rfl, fun h => ?_⟩) rfl rfl (fun c hc => .inl hc) fun c hc => ?_
    · rw [hlocks] at h
      cases h
    · rw [hnone] at hc
      cases hc
  rcases release_cases s n c call' with hr | ⟨hr, hlast⟩
  · rw [hr]
    exact hmove
  · rw [hr]
    refine ⟨here, rfl, hmove.mutex, hmove.refers, hmove.clients, fun d hd => ?_⟩
    rcases List.mem_append.mp hd with hd | hd
    · exact .inl hd
    · obtain rfl := List.mem_singleton.mp hd
      exact .inr ⟨held_call here hclient, hlast⟩

theorem Goes.lock (here : s.calls[n]? = some call) (hfree : ¬ s.mutex.isSome)
    (hnone : call'.client = none) :
    Goes s n call call' { s.move n call' with mutex := some n } := by
  have hmutex : s.mutex = none := by
    cases h : s.mutex with
    | none => rfl
    | some m => exact absurd (congrArg Option.isSome h) hfree
  refine .of_set here rfl (.inr (.inl ⟨hmutex, rfl⟩)) rfl rfl (fun c hc => .inl hc) fun c hc => ?_
  rw [hnone] at hc
  cases hc

theorem Goes.unlock (here : s.calls[n]? = some call) (hlocks : call.locks = true)
    (hlocks' : call'.locks = false) (hrefers : ∀ c, call'.client = some c → s.Held c) :
    Goes s n call call' { s.move n call' with mutex := none } :=
  .of_set here rfl (.inr (.inr ⟨hlocks, hlocks', rfl⟩)) rfl rfl (fun _ hc => .inl hc) hrefers

theorem Goes.move (here : s.calls[n]? = some call) (hlocks : call'.locks = true → call.locks = true)
    (hrefers : ∀ c, call'.client = some c → s.Held c) : Goes s n call call' (s.move n call') :=
  .of_set here rfl (.inl ⟨rfl, hlocks⟩) rfl rfl (fun _ hc => .inl hc) hrefers

theorem Goes.modify {c : Nat} {f : Client → Client} (here : s.calls[n]? = some call)
    (hlocks : call'.locks = call.locks) (hclient : call'.client = call.client) :
    Goes s n call call' ((s.modify c f).move n call') := by
  refine .of_set here rfl (.inl ⟨rfl, fun h => hlocks ▸ h⟩) ?_ rfl (fun _ hc => .inl hc) fun d hd => ?_
  · exact List.length_modify ..
  · exact held_call here (hclient ▸ hd)

/-- **The steps of `with_client_or_buffer`.** -/
theorem withClientOrBuffer_cases {k : EarlyCall} {stage : CaptureStage}
    (here : s.calls[n]? = some (.capture k stage)) (h : withClientOrBuffer s n k stage = some s') :
    ∃ call', Goes s n (.capture k stage) call' s' ∧ Effect s n s' (.capture k stage) call' := by
  cases stage with
  | snapshot =>
    simp only [withClientOrBuffer] at h
    split at h
    · cases h
    · split at h
      · obtain rfl := Option.some.inj h
        refine ⟨_, .move here (fun h => nomatch h) (fun _ h => nomatch h), .plain rfl rfl rfl rfl ?_⟩
        exact .of_quiet rfl rfl
      · rename_i c hpublished
        obtain rfl := Option.some.inj h
        refine ⟨_, .move here (fun h => nomatch h) (fun d hd => ?_), .plain rfl rfl rfl rfl ?_⟩
        · obtain rfl := Option.some.inj hd
          exact .inl hpublished
        · exact .of_quiet rfl rfl
  | unpublished =>
    simp only [withClientOrBuffer] at h
    split at h
    · cases h
    · rename_i hfree
      obtain rfl := Option.some.inj h
      refine ⟨_, .lock here hfree rfl, .plain rfl rfl rfl rfl ?_⟩
      exact .of_quiet rfl rfl
  | locked =>
    simp only [withClientOrBuffer] at h
    split at h
    · rename_i c hpublished
      obtain rfl := Option.some.inj h
      refine ⟨_, .unlock here rfl rfl (fun d hd => ?_), .plain rfl rfl rfl rfl ?_⟩
      · obtain rfl := Option.some.inj hd
        exact .inl hpublished
      · exact .of_quiet rfl rfl
    · split at h
      · rename_i hrefused
        obtain rfl := Option.some.inj h
        refine ⟨_, .unlock here rfl rfl (fun _ h => nomatch h), .plain rfl rfl rfl rfl ?_⟩
        refine ⟨fun _ => rfl, fun _ => ⟨nofun, nofun⟩, ?_, rfl, fun _ h => h, nofun, nofun⟩
        intro k' hk'
        obtain ⟨rfl, -⟩ := Call.capture.inj hk'
        exact hrefused
      · rename_i haccepted
        obtain rfl := Option.some.inj h
        refine ⟨.capture k (.returned .stored), ?_, .store k (Bool.eq_false_iff.mpr haccepted) rfl rfl rfl rfl⟩
        exact .of_set here rfl (.inr (.inr ⟨rfl, rfl, rfl⟩)) rfl rfl (fun _ hc => .inl hc)
          (fun _ h => nomatch h)
  | acting c =>
    obtain rfl := Option.some.inj h
    exact ⟨_, .modify here rfl rfl, .act k c rfl rfl rfl rfl⟩
  | leaving c =>
    obtain rfl := Option.some.inj h
    refine ⟨_, .release here rfl rfl rfl, ?_⟩
    have hplain : (Call.capture k (.leaving c)).Plain s (.capture k (.returned (.ran c))) :=
      ⟨fun _ => rfl, fun _ => ⟨nofun, nofun⟩, nofun, rfl, fun _ h => h, nofun, nofun⟩
    rcases release_cases s n c (.capture k (.returned (.ran c))) with hr | ⟨hr, -⟩
    · rw [hr]
      exact .plain rfl rfl rfl rfl hplain
    · rw [hr]
      exact .plain rfl rfl rfl rfl hplain
  | returned fate => cases h

/-- **The steps of `tombstone_init`.** -/
theorem tombstoneInit_cases {started : Bool} {stage : InitStage}
    (here : s.calls[n]? = some (.init stage)) (h : tombstoneInit s n started stage = some s') :
    ∃ call', Goes s n (.init stage) call' s' ∧ Effect s n s' (.init stage) call' := by
  cases stage with
  | entered options =>
    cases options with
    | false =>
      obtain rfl := Option.some.inj h
      refine ⟨_, .move here (fun h => nomatch h) (fun _ h => nomatch h), .plain rfl rfl rfl rfl ?_⟩
      exact .of_quiet rfl rfl
    | true =>
      simp only [tombstoneInit] at h
      split at h
      · cases h
      · rename_i hfree
        obtain rfl := Option.some.inj h
        refine ⟨_, .lock here hfree rfl, .plain rfl rfl rfl rfl ?_⟩
        exact .of_quiet rfl rfl
  | locked =>
    simp only [tombstoneInit] at h
    split at h
    · obtain rfl := Option.some.inj h
      refine ⟨_, .unlock here rfl rfl (fun _ h => nomatch h), .plain rfl rfl rfl rfl ?_⟩
      exact .of_quiet rfl rfl
    · obtain rfl := Option.some.inj h
      refine ⟨.init (.starting s.clients.length), ?_, .fresh rfl rfl rfl rfl⟩
      have hlength : s.clients.length < (s.clients ++ [({} : Client)]).length := by
        rw [List.length_append, List.length_singleton]
        exact Nat.lt_succ_self _
      refine ⟨here, rfl, .inl ⟨rfl, fun _ => rfl⟩, fun c hc => ?_, Nat.le_of_lt hlength, fun _ hd => .inl hd⟩
      rcases hc with hc | ⟨k, hk, hc⟩
      · exact .inl (.inl hc)
      · rcases List.mem_or_eq_of_mem_set hk with hk | rfl
        · exact .inl (.inr ⟨k, hk, hc⟩)
        · obtain rfl := Option.some.inj hc
          exact .inr ⟨rfl, hlength⟩
  | starting c =>
    cases started with
    | true =>
      obtain rfl := Option.some.inj h
      refine ⟨_, ?_, .handOver c rfl rfl rfl rfl⟩
      refine .of_set here rfl (.inl ⟨rfl, fun h => h⟩) ?_ rfl (fun _ hc => .inl hc) ?_
      · exact List.length_modify ..
      · exact fun _ hd => held_call here hd
    | false =>
      obtain rfl := Option.some.inj h
      refine ⟨_, .unlock here rfl rfl (fun _ hd => held_call here hd), .plain rfl rfl rfl rfl ?_⟩
      exact ⟨fun _ => rfl, fun _ => ⟨nofun, nofun⟩, nofun, rfl, nofun, nofun, nofun⟩
  | replaying c =>
    simp only [tombstoneInit] at h
    split at h
    · rename_i hdue
      obtain rfl := Option.some.inj h
      refine ⟨_, .move here (fun h => h) (fun _ hd => held_call here hd), .plain rfl rfl rfl rfl ?_⟩
      refine ⟨fun _ => rfl, fun _ => ⟨nofun, nofun⟩, nofun, rfl, fun _ h => h, ?_, nofun⟩
      intro d hd
      obtain rfl := InitStage.replaying.inj (Call.init.inj hd)
      exact hdue
    · rename_i e due hdue
      obtain rfl := Option.some.inj h
      exact ⟨_, .modify here rfl rfl, .replay c e due hdue rfl rfl rfl rfl⟩
  | clearing c =>
    obtain rfl := Option.some.inj h
    refine ⟨_, ?_, .clear c rfl rfl rfl rfl⟩
    exact .of_set here rfl (.inl ⟨rfl, fun h => h⟩) rfl rfl (fun _ hc => .inl hc)
      (fun _ hd => held_call here hd)
  | publishing c =>
    obtain rfl := Option.some.inj h
    refine ⟨.init (.returned (.ok c)), ?_, .plain rfl rfl rfl rfl ?_⟩
    · refine .of_set here rfl (.inr (.inr ⟨rfl, rfl, rfl⟩)) rfl rfl (fun d hd => ?_) (fun _ h => nomatch h)
      exact held_call here hd
    · exact ⟨fun _ => rfl, fun _ => ⟨nofun, nofun⟩, nofun, rfl, fun _ h => h, nofun, nofun⟩
  | failed c =>
    obtain rfl := Option.some.inj h
    refine ⟨_, .release here rfl rfl rfl, ?_⟩
    have hplain : (Call.init (.failed c)).Plain s (.init (.returned .failed)) :=
      .of_quiet rfl rfl
    rcases release_cases s n c (.init (.returned .failed)) with hr | ⟨hr, -⟩
    · rw [hr]
      exact .plain rfl rfl rfl rfl hplain
    · rw [hr]
      exact .plain rfl rfl rfl rfl hplain
  | returned result => cases h

/-- **The steps of `tombstone_shutdown`.** -/
theorem tombstoneShutdown_cases {stage : ShutdownStage}
    (here : s.calls[n]? = some (.shutdown stage)) (h : tombstoneShutdown s n stage = some s') :
    ∃ call', Goes s n (.shutdown stage) call' s' ∧ Effect s n s' (.shutdown stage) call' := by
  cases stage with
  | entered =>
    simp only [tombstoneShutdown] at h
    split at h
    · cases h
    · split at h
      · obtain rfl := Option.some.inj h
        refine ⟨_, .move here (fun h => nomatch h) (fun _ h => nomatch h), .plain rfl rfl rfl rfl ?_⟩
        exact .of_quiet rfl rfl
      · rename_i c hpublished
        obtain rfl := Option.some.inj h
        refine ⟨.shutdown (.retired c), ?_, .plain rfl rfl rfl rfl ?_⟩
        · refine .of_set here rfl (.inl ⟨rfl, fun h => nomatch h⟩) rfl rfl (fun _ h => nomatch h)
            fun d hd => ?_
          obtain rfl := Option.some.inj hd
          exact .inl hpublished
        · exact .of_quiet rfl rfl
  | retired c =>
    obtain rfl := Option.some.inj h
    refine ⟨_, .release here rfl rfl rfl, ?_⟩
    have hplain : (Call.shutdown (.retired c)).Plain s (.shutdown .returned) :=
      .of_quiet rfl rfl
    rcases release_cases s n c (.shutdown .returned) with hr | ⟨hr, -⟩
    · rw [hr]
      exact .plain rfl rfl rfl rfl hplain
    · rw [hr]
      exact .plain rfl rfl rfl rfl hplain
  | returned => cases h

/-- **What a step does**: a call enters, or goes on. -/
theorem step_cases {l : Label} (h : step s l = some s') :
    (∃ call : Call, call.New ∧ s' = s.enter call ∧ ∀ n started, l ≠ .go n started) ∨
      ∃ n started call call', l = .go n started ∧ Goes s n call call' s' ∧ Effect s n s' call call' := by
  cases l with
  | capture k =>
    obtain rfl := Option.some.inj h
    exact .inl ⟨_, .capture k, rfl, fun _ _ => nofun⟩
  | init options =>
    obtain rfl := Option.some.inj h
    exact .inl ⟨_, .init options, rfl, fun _ _ => nofun⟩
  | shutdown =>
    obtain rfl := Option.some.inj h
    exact .inl ⟨_, .shutdown, rfl, fun _ _ => nofun⟩
  | go n started =>
    obtain ⟨call, here, hgo⟩ := Option.bind_eq_some_iff.mp h
    right
    cases call with
    | capture k stage =>
      obtain ⟨call', hgoes⟩ := withClientOrBuffer_cases here hgo
      exact ⟨n, started, _, call', rfl, hgoes⟩
    | init stage =>
      obtain ⟨call', hgoes⟩ := tombstoneInit_cases here hgo
      exact ⟨n, started, _, call', rfl, hgoes⟩
    | shutdown stage =>
      obtain ⟨call', hgoes⟩ := tombstoneShutdown_cases here hgo
      exact ⟨n, started, _, call', rfl, hgoes⟩

end Step

/-! ## The mutex and the references -/

/-- Only the call that holds the mutex is where it takes it. -/
def Owner (s : State) : Prop :=
  ∀ n call, s.calls[n]? = some call → call.locks = true → s.mutex = some n

/-- Every client that something refers to is there, and has not been destroyed. -/
structure Referenced (s : State) : Prop where
  held : ∀ c, s.Held c → c < s.clients.length ∧ c ∉ s.destroyed
  destroyed : ∀ c ∈ s.destroyed, c < s.clients.length

section Control

variable {s s' : State} {n : Nat} {call call' : Call}

theorem Goes.get (h : Goes s n call call' s') (m : Nat) :
    s'.calls[m]? = if m = n then some call' else s.calls[m]? := by
  have hlt : n < s.calls.length := (List.getElem?_eq_some_iff.mp h.here).1
  rw [h.calls]
  by_cases hm : m = n
  · rw [hm, List.getElem?_set_self hlt, if_pos rfl]
  · rw [List.getElem?_set_ne fun hn => hm hn.symm, if_neg hm]

theorem enter_get (s : State) (call : Call) (m : Nat) : (s.enter call).calls[m]? = s.calls[m]? ∨
    m = s.calls.length ∧ s.calls[m]? = none ∧ (s.enter call).calls[m]? = some call := by
  show (s.calls ++ [call])[m]? = _ ∨ _ ∧ _ ∧ (s.calls ++ [call])[m]? = _
  by_cases hlt : m < s.calls.length
  · exact .inl (List.getElem?_append_left hlt)
  · by_cases hm : m = s.calls.length
    · refine .inr ⟨hm, ?_, ?_⟩
      · rw [hm, List.getElem?_eq_none (Nat.le_refl _)]
      · rw [hm, List.getElem?_concat_length]
    · left
      have hlength : (s.calls ++ [call]).length ≤ m := by
        rw [List.length_append, List.length_singleton]
        omega
      rw [List.getElem?_eq_none hlength, List.getElem?_eq_none (Nat.le_of_not_lt hlt)]

theorem Call.New.locks (h : call.New) : call.locks = false := by
  cases h <;> rfl

theorem Call.New.client (h : call.New) : call.client = none := by
  cases h <;> rfl

theorem owner_step {l : Label} (ho : Owner s) (h : step s l = some s') : Owner s' := by
  intro m k hk hlocks
  rcases step_cases h with ⟨call, hnew, rfl, -⟩ | ⟨n, started, call, call', -, hgoes, -⟩
  · rcases enter_get s call m with hm | ⟨-, -, hm⟩
    · rw [hm] at hk
      exact ho m k hk hlocks
    · rw [hm] at hk
      obtain rfl := Option.some.inj hk
      rw [hnew.locks] at hlocks
      cases hlocks
  · rw [hgoes.get] at hk
    split at hk
    · rename_i hmn
      obtain rfl := Option.some.inj hk
      rw [hmn]
      rcases hgoes.mutex with ⟨hsame, hkeeps⟩ | ⟨-, htakes⟩ | ⟨-, hgives, -⟩
      · rw [hsame]
        exact ho n call hgoes.here (hkeeps hlocks)
      · exact htakes
      · rw [hgives] at hlocks
        cases hlocks
    · rename_i hmn
      have hmutex := ho m k hk hlocks
      rcases hgoes.mutex with ⟨hsame, -⟩ | ⟨hfree, -⟩ | ⟨hheld, -, -⟩
      · rw [hsame]
        exact hmutex
      · rw [hfree] at hmutex
        cases hmutex
      · -- the mutex is given back by the call that has it
        rw [ho n call hgoes.here hheld] at hmutex
        exact absurd (Option.some.inj hmutex).symm hmn

/-- **A client lives as long as something refers to it.** -/
theorem referenced_step {l : Label} (hr : Referenced s) (h : step s l = some s') : Referenced s' := by
  rcases step_cases h with ⟨call, hnew, rfl, -⟩ | ⟨n, started, call, call', -, hgoes, -⟩
  · refine ⟨fun c hc => hr.held c ?_, hr.destroyed⟩
    rcases hc with hc | ⟨k, hk, hc⟩
    · exact .inl hc
    · rcases List.mem_append.mp hk with hk | hk
      · exact .inr ⟨k, hk, hc⟩
      · rw [List.mem_singleton.mp hk, hnew.client] at hc
        cases hc
  · have hdestroyed : ∀ c ∈ s'.destroyed, c < s.clients.length := by
      intro c hc
      rcases hgoes.destroyed c hc with hc | ⟨hc, -⟩
      · exact hr.destroyed c hc
      · exact (hr.held c hc).1
    refine ⟨fun c hc => ?_, fun c hc => Nat.lt_of_lt_of_le (hdestroyed c hc) hgoes.clients⟩
    rcases hgoes.refers c hc with hold | ⟨rfl, hfresh⟩
    · refine ⟨Nat.lt_of_lt_of_le (hr.held c hold).1 hgoes.clients, fun hmem => ?_⟩
      rcases hgoes.destroyed c hmem with hmem | ⟨-, hlast⟩
      · exact (hr.held c hold).2 hmem
      · exact hlast hc
    · exact ⟨hfresh, fun hmem => Nat.lt_irrefl _ (hdestroyed _ hmem)⟩

/-- While a call holds the mutex, no other one does. -/
theorem Owner.only (ho : Owner s) {m : Nat} {k : Call} (hn : s.calls[n]? = some call)
    (hcall : call.locks = true) (hm : s.calls[m]? = some k) (hk : k.locks = true) : m = n := by
  have hmutex := ho m k hm hk
  rw [ho n call hn hcall] at hmutex
  exact (Option.some.inj hmutex).symm

end Control

end Tombstone.CaptureHandoff
