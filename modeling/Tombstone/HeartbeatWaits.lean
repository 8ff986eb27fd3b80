import Tombstone.Monitor
import Tombstone.StartGate
import Tombstone.RetryAfter

/- How the heartbeat's thread sleeps and is woken (`client.cpp`: `heartbeat_loop`, `stop_heartbeat`,
   `start_session`).

   Between two beats the thread waits an interval on a condition variable of its own. A session that
   starts late kicks it, so that the first beat does not come an interval late; the destructor stops
   it. What a beat says is not in this file. -/
namespace Tombstone.HeartbeatWaits
open Monitor

/-- `heartbeat_interval_`: `init` clamps it, since the server takes beats for one session only while
they are less than 300 seconds apart. -/
abbrev Interval := { n : Nat // seconds 15 ≤ n ∧ n ≤ seconds 240 }

/-- What `init` makes of `heartbeat_interval_s`. -/
def heartbeatInterval (s : Int) : Interval :=
  let interval := if 0 < s then s.toNat else 60
  ⟨seconds (min (max interval 15) 240),
    Nat.mul_le_mul_right _ (le_min (le_max_right _ _) (by decide)),
    Nat.mul_le_mul_right _ (min_le_right _ _)⟩

structure Data where
  interval : Interval
  gate : StartGate := {}
  consent : Bool := true
  stop : Bool := false
  kick : Bool := false
  /-- The thread has returned. -/
  ended : Bool := false
  /-- Proof-only: the beats so far, and whether the loop has come past the open gate. -/
  beats : Nat := 0
  passed : Bool := false

inductive Action where
  -- the loop
  | loopTop
  | waitFor
  | clearKick
  | exit
  -- what the calls do
  | setGate
  | kick
  | setConsent (granted : Bool)
  | stop
  | join
  deriving DecidableEq

abbrev Act := Monitor.Act Action Unit
abbrev Config := Monitor.Config Data Action Unit

/-- `heartbeat_loop`. -/
def heartbeatLoop : List Act := [.lock, .act .loopTop]

/-- `stop_heartbeat`. -/
def stopHeartbeat : List Act := [.lock, .act .stop, .unlock, .notifyAll, .act .join]

/-- One action, and what follows from it. The input says whether a beat is built. -/
def act (s : Data) (now : Nat) (a : Action) (builds : Bool) : Option (Data × List Act) :=
  match a with
  | .loopTop =>
    if s.stop then some (s, [.unlock, .act .exit])
    else
      -- the beat is built and enqueued with the mutex held
      some ({ s with
          beats := if s.consent && s.gate.opened && builds then s.beats + 1 else s.beats
          passed := s.passed || s.gate.opened },
        [.act .waitFor, .act .clearKick, .act .loopTop])
  | .waitFor => some (s, [.check () (now + s.interval.val)])
  | .clearKick => some ({ s with kick := false }, [])
  | .exit => some ({ s with ended := true }, [])
  | .setGate =>
    some ({ s with gate := s.gate.set.1 },
      if s.gate.set.2 then [.lock, .act .kick, .unlock, .notifyAll] else [])
  | .kick => some ({ s with kick := true }, [])
  | .setConsent granted => some ({ s with consent := granted }, [])
  | .stop => some ({ s with stop := true }, [])
  | .join => if s.ended then some (s, []) else none

/-- The wait's predicate. -/
def holds (_ : Unit) (s : Data) (_ : Nat) : Bool := s.stop || s.kick

inductive Call where
  | startSession
  | setConsent (granted : Bool)
  | stopHeartbeat

def Call.program : Call → List Act
  | .startSession => [.act .setGate]
  | .setConsent granted => [.act (.setConsent granted)]
  | .stopHeartbeat => HeartbeatWaits.stopHeartbeat

/-- The heartbeat has thread 0 to itself. -/
def enter (s : Shared Data) (_ : List (List Act)) (t : Nat) (k : Call) : Option (Data × List Act) :=
  if t = 0 then none else some (s.data, k.program)

def before : Action → Bool
  | .loopTop | .waitFor | .clearKick | .kick | .stop => true
  | _ => false

def after : Action → Bool
  | .waitFor | .clearKick | .kick | .stop => true
  | _ => false

def system : System Data Action Unit Bool Call := { act, holds, enter, before, after }

abbrev Label := Monitor.Label Bool Call

def step : Config → Label → Option Config := Monitor.step system

/-- The thread has been started; its gate is as `init` armed it. -/
structure Started (c : Config) : Prop where
  heartbeat : c.threads.head? = some heartbeatLoop
  idle : ∀ p ∈ c.threads.tail, p = []
  shared : c.shared = { data := { interval := c.shared.data.interval, gate := c.shared.data.gate
                                  consent := c.shared.data.consent }, now := c.shared.now }

abbrev Reachable (c : Config) : Prop := Run.Reachable step Started c

/-- The session is to start later. -/
def deferred : Config :=
  ⟨{ data := { interval := heartbeatInterval 0, gate := StartGate.arm {} false } }, [heartbeatLoop, []]⟩

theorem started_deferred : Started deferred := ⟨rfl, by simp [deferred], rfl⟩

/-- The thread goes to sleep, is kicked by `start_session`, beats, and goes to sleep again. -/
def startsLate : List Label :=
  let goes (t n : Nat) : List Label := List.replicate n (.exec t (true, false))
  goes 0 5 ++ [.env (.enter 1 .startSession)] ++ goes 1 5 ++ goes 0 7

variable {c c' : Config} {l : Label} {s s' : Data} {now : Nat} {a : Action} {i : Bool} {new p q : List Act}

/-! ## Brackets and announcements -/

theorem act_segment (h : act s now a i = some (s', new)) : Segment system (before a) (after a) new := by
  cases a with
  | loopTop =>
    simp only [act] at h
    split at h
    · obtain ⟨-, rfl⟩ := Prod.mk.inj (Option.some.inj h)
      exact .unlock (.act Action.exit (.nil false))
    · obtain ⟨-, rfl⟩ := Prod.mk.inj (Option.some.inj h)
      exact .act Action.waitFor (.act Action.clearKick (.act Action.loopTop (.nil false)))
  | waitFor =>
    obtain ⟨-, rfl⟩ := Prod.mk.inj (Option.some.inj h)
    exact .check () _ (.nil true)
  | setGate =>
    obtain ⟨-, rfl⟩ := Prod.mk.inj (Option.some.inj h)
    split
    · exact .lock (.act Action.kick (.unlock (.notifyAll (.nil false))))
    · exact .nil false
  | join =>
    obtain ⟨-, h⟩ := Option.ite_none_right_eq_some.1 h
    obtain ⟨-, rfl⟩ := Prod.mk.inj (Option.some.inj h)
    exact .nil false
  | _ =>
    obtain ⟨-, rfl⟩ := Prod.mk.inj (Option.some.inj h)
    exact .nil _

theorem segment_program (k : Call) : Segment system false false k.program := by
  cases k with
  | startSession => exact .act Action.setGate (.nil false)
  | setConsent granted => exact .act (Action.setConsent granted) (.nil false)
  | stopHeartbeat =>
    exact .lock (.act Action.stop (.unlock (.notifyAll (.act Action.join (.nil false)))))

theorem enter_cases {s : Shared Data} (ps : List (List Act)) {t : Nat} {k : Call}
    (h : enter s ps t k = some (s', new)) : t ≠ 0 ∧ s' = s.data ∧ new = k.program := by
  obtain ⟨ht, h⟩ := Option.ite_none_left_eq_some.1 h
  obtain ⟨rfl, rfl⟩ := Prod.mk.inj (Option.some.inj h)
  exact ⟨ht, rfl, rfl⟩

theorem balanced : Balanced system where
  segment := act_segment
  entry := by
    intro s ps t k s' new h
    obtain ⟨-, -, rfl⟩ := enter_cases ps h
    exact segment_program k

/-- A kick and a stop are followed by a notification. -/
def Announced : List Act → Prop
  | [] => True
  | .act a :: rest => (a = .kick ∨ a = .stop → Imminent rest) ∧ Announced rest
  | _ :: rest => Announced rest

theorem Announced.append (hp : Announced p) (hq : Announced q) : Announced (p ++ q) := by
  induction p with
  | nil => exact hq
  | cons b p ih =>
    cases b with
    | act a => exact ⟨fun ha => (hp.1 ha).append q, ih hp.2⟩
    | _ => exact ih hp

theorem Announced.tail {b : Act} (h : Announced (b :: p)) : Announced p := by
  cases b with
  | act a => exact h.2
  | _ => exact h

theorem announced_program (k : Call) : Announced k.program := by
  cases k <;> simp [Call.program, stopHeartbeat, Announced, Imminent]

theorem announced_act (h : act s now a i = some (s', new)) : Announced new := by
  cases a with
  | loopTop =>
    simp only [act] at h
    split at h <;>
    · obtain ⟨-, rfl⟩ := Prod.mk.inj (Option.some.inj h)
      simp [Announced]
  | setGate =>
    obtain ⟨-, rfl⟩ := Prod.mk.inj (Option.some.inj h)
    split <;> simp [Announced, Imminent]
  | join =>
    obtain ⟨-, h⟩ := Option.ite_none_right_eq_some.1 h
    obtain ⟨-, rfl⟩ := Prod.mk.inj (Option.some.inj h)
    trivial
  | _ =>
    obtain ⟨-, rfl⟩ := Prod.mk.inj (Option.some.inj h)
    trivial

theorem act_interval (h : act s now a i = some (s', new)) : s'.interval = s.interval := by
  cases a with
  | loopTop =>
    simp only [act] at h
    split at h <;>
    · obtain ⟨rfl, -⟩ := Prod.mk.inj (Option.some.inj h)
      rfl
  | join =>
    obtain ⟨-, h⟩ := Option.ite_none_right_eq_some.1 h
    obtain ⟨rfl, -⟩ := Prod.mk.inj (Option.some.inj h)
    rfl
  | _ =>
    obtain ⟨rfl, -⟩ := Prod.mk.inj (Option.some.inj h)
    rfl

/-! ## What the threads have to do -/

/-- Where the heartbeat's thread is; `latest` bounds the deadline of its wait. -/
inductive Beating (latest : Nat) : List Act → Prop
  | start : Beating latest heartbeatLoop
  | top : Beating latest [.act .loopTop]
  | arming : Beating latest [.act .waitFor, .act .clearKick, .act .loopTop]
  | check {deadline : Nat} : deadline ≤ latest →
    Beating latest [.check () deadline, .act .clearKick, .act .loopTop]
  | sleep {deadline : Nat} : deadline ≤ latest →
    Beating latest [.sleep () deadline, .act .clearKick, .act .loopTop]
  | asleep {deadline since : Nat} : deadline ≤ latest →
    Beating latest [.asleep () deadline since, .act .clearKick, .act .loopTop]
  | woken : Beating latest [.act .clearKick, .act .loopTop]
  | leaving : Beating latest [.unlock, .act .exit]
  | exiting : Beating latest [.act .exit]
  | ended : Beating latest []

theorem Beating.mono {latest later : Nat} (h : Beating latest p) (hle : latest ≤ later) :
    Beating later p := by
  cases h with
  | start => exact .start
  | top => exact .top
  | arming => exact .arming
  | check hd => exact .check (hd.trans hle)
  | sleep hd => exact .sleep (hd.trans hle)
  | asleep hd => exact .asleep (hd.trans hle)
  | woken => exact .woken
  | leaving => exact .leaving
  | exiting => exact .exiting
  | ended => exact .ended

theorem beating_step {s s' : Shared Data} {b : Act} {j : Bool × Bool} {rest : List Act}
    (hp : Beating (s.now + s.data.interval.val) (b :: rest)) (h : perform system s b j = some (s', new)) :
    Beating (s.now + s.data.interval.val) (new ++ rest) := by
  obtain ⟨-, ⟨x, rfl, hx⟩ | ⟨-, hnot, hnew⟩⟩ := perform_cases h
  · cases hp with
    | top =>
      simp only [system, act] at hx
      split at hx
      · obtain ⟨-, rfl⟩ := Prod.mk.inj (Option.some.inj hx)
        exact .leaving
      · obtain ⟨-, rfl⟩ := Prod.mk.inj (Option.some.inj hx)
        exact .arming
    | arming =>
      obtain ⟨-, rfl⟩ := Prod.mk.inj (Option.some.inj hx)
      exact .check le_rfl
    | woken =>
      obtain ⟨-, rfl⟩ := Prod.mk.inj (Option.some.inj hx)
      exact .top
    | exiting =>
      obtain ⟨-, rfl⟩ := Prod.mk.inj (Option.some.inj hx)
      exact .ended
  · cases hp with
    | start =>
      rcases hnew with rfl | ⟨w, d, ⟨hb, -⟩ | ⟨hb, -⟩ | ⟨since, hb, -⟩⟩
      · exact .top
      all_goals cases hb
    | leaving =>
      rcases hnew with rfl | ⟨w, d, ⟨hb, -⟩ | ⟨hb, -⟩ | ⟨since, hb, -⟩⟩
      · exact .exiting
      all_goals cases hb
    | check hd =>
      rcases hnew with rfl | ⟨w, d, ⟨hb, rfl⟩ | ⟨hb, -⟩ | ⟨since, hb, -⟩⟩
      · exact .woken
      · cases hb
        exact .sleep hd
      all_goals cases hb
    | sleep hd =>
      rcases hnew with rfl | ⟨w, d, ⟨hb, -⟩ | ⟨hb, rfl⟩ | ⟨since, hb, -⟩⟩
      · exact .woken
      · cases hb
      · cases hb
        exact .asleep hd
      · cases hb
    | asleep hd =>
      rcases hnew with rfl | ⟨w, d, ⟨hb, -⟩ | ⟨hb, -⟩ | ⟨since, hb, rfl⟩⟩
      · exact .woken
      · cases hb
      · cases hb
      · cases hb
        exact .check hd
    | top | arming | woken | exiting => exact absurd rfl (hnot _)

/-- Any other thread. -/
def OfCaller : Act → Prop
  | .act .setGate | .act .kick | .act (.setConsent _) | .act .stop | .act .join => True
  | .act _ | .check _ _ | .sleep _ _ | .asleep _ _ _ => False
  | _ => True

theorem caller_step {s s' : Shared Data} {b : Act} {j : Bool × Bool} {rest : List Act}
    (hp : ∀ x ∈ b :: rest, OfCaller x) (h : perform system s b j = some (s', new)) :
    ∀ x ∈ new ++ rest, OfCaller x := by
  obtain ⟨hb, hrest⟩ := List.forall_mem_cons.1 hp
  refine List.forall_mem_append.2 ⟨?_, hrest⟩
  obtain ⟨-, ⟨x, rfl, hx⟩ | ⟨-, -, hnew⟩⟩ := perform_cases h
  · cases x with
    | loopTop | waitFor | clearKick | exit => exact hb.elim
    | setGate =>
      obtain ⟨-, rfl⟩ := Prod.mk.inj (Option.some.inj hx)
      split <;> simp [OfCaller]
    | join =>
      obtain ⟨-, hx⟩ := Option.ite_none_right_eq_some.1 hx
      obtain ⟨-, rfl⟩ := Prod.mk.inj (Option.some.inj hx)
      exact fun _ hin => absurd hin List.not_mem_nil
    | _ =>
      obtain ⟨-, rfl⟩ := Prod.mk.inj (Option.some.inj hx)
      exact fun _ hin => absurd hin List.not_mem_nil
  · rcases hnew with rfl | ⟨w, d, ⟨rfl, -⟩ | ⟨rfl, -⟩ | ⟨since, rfl, -⟩⟩
    · exact fun _ hin => absurd hin List.not_mem_nil
    all_goals exact hb.elim

theorem caller_program (k : Call) : ∀ x ∈ k.program, OfCaller x := by
  cases k <;> simp [Call.program, stopHeartbeat, OfCaller]

structure Fits (s : Shared Data) (t : Nat) (p : List Act) : Prop where
  announced : Announced p
  heartbeat : t = 0 → Beating (s.now + s.data.interval.val) p
  caller : t ≠ 0 → ∀ b ∈ p, OfCaller b

/-- Every thread does what it is there for. -/
abbrev Good : Config → Prop := Interleave.Inv (fun _ => True) Fits

theorem good_step (hc : Good c) (h : step c l = some c') : Good c' := by
  refine Interleave.inv_step ?_ ?_ ?_ hc h
  · intro s t b rest j s' new _ hp hstep
    obtain ⟨hnow, hdata⟩ := perform_cases hstep
    have hlatest : s'.now + s'.data.interval.val = s.now + s.data.interval.val := by
      rcases hdata with ⟨x, -, hx⟩ | ⟨hdata, -⟩
      · rw [hnow, act_interval hx]
      · rw [hnow, hdata]
    refine ⟨trivial, ⟨?_, fun ht => ?_, fun ht => caller_step (hp.caller ht) hstep⟩, fun u q _ hq => ?_⟩
    · rcases hdata with ⟨x, rfl, hx⟩ | ⟨-, -, hnew⟩
      · exact (announced_act hx).append hp.announced.tail
      · rcases hnew with rfl | ⟨w, d, ⟨-, rfl⟩ | ⟨-, rfl⟩ | ⟨since, -, rfl⟩⟩ <;> exact hp.announced.tail
    · rw [hlatest]
      exact beating_step (hp.heartbeat ht) hstep
    · exact ⟨hq.announced, fun hu => hlatest ▸ hq.heartbeat hu, hq.caller⟩
  · intro s t k
    exact k.elim
  · intro s ps e s' ps' _ hps he
    cases e with
    | tick elapsed =>
      obtain ⟨rfl, rfl⟩ := Prod.mk.inj (Option.some.inj he)
      refine ⟨trivial, fun t p ht => ⟨(hps t p ht).announced, fun hzero => ?_, (hps t p ht).caller⟩⟩
      exact ((hps t p ht).heartbeat hzero).mono (Nat.add_le_add_right (Nat.le_add_right _ _) _)
    | enter t k =>
      simp only [machine, env] at he
      split at he
      · obtain ⟨⟨d, new⟩, hk, he⟩ := Option.map_eq_some_iff.1 he
        obtain ⟨rfl, rfl⟩ := Prod.mk.inj he
        obtain ⟨ht, rfl, rfl⟩ := enter_cases ps hk
        refine ⟨trivial, Interleave.forall_get_set hps (fun _ _ _ hp => hp) ?_⟩
        exact ⟨announced_program k, fun hzero => absurd hzero ht, fun _ => caller_program k⟩
      · cases he

/-! ## Kicks and stops -/

def Cause (_ : Unit) (s : Data) : Prop := s.stop = true ∨ s.kick = true

theorem act_cause {w : Unit} (h : act s now a i = some (s', new)) (hR : Cause w s')
    (hnot : ¬ Cause w s) : before a = true ∧ (a = .kick ∨ a = .stop) ∧ new = [] := by
  cases a with
  | loopTop =>
    simp only [act] at h
    split at h <;>
    · obtain ⟨rfl, -⟩ := Prod.mk.inj (Option.some.inj h)
      exact absurd hR hnot
  | clearKick =>
    obtain ⟨rfl, -⟩ := Prod.mk.inj (Option.some.inj h)
    exact absurd (.inl (hR.resolve_right Bool.false_ne_true)) hnot
  | kick =>
    obtain ⟨-, rfl⟩ := Prod.mk.inj (Option.some.inj h)
    exact ⟨rfl, .inl rfl, rfl⟩
  | stop =>
    obtain ⟨-, rfl⟩ := Prod.mk.inj (Option.some.inj h)
    exact ⟨rfl, .inr rfl, rfl⟩
  | join =>
    obtain ⟨-, h⟩ := Option.ite_none_right_eq_some.1 h
    obtain ⟨rfl, -⟩ := Prod.mk.inj (Option.some.inj h)
    exact absurd hR hnot
  | _ =>
    obtain ⟨rfl, -⟩ := Prod.mk.inj (Option.some.inj h)
    exact absurd hR hnot

theorem lawful : Lawful system Cause Good where
  toBalanced := balanced
  cause := by
    intro w s now hfalse hcause
    have hheld : holds w s now = true := by
      rcases hcause with hstop | hkick
      · simp [holds, hstop]
      · simp [holds, hkick]
    exact absurd hheld (Bool.eq_false_iff.1 hfalse)
  raises := by
    intro c t a rest i s' new hgood ht hact p hp w hw hR hnot
    obtain ⟨-, ha, rfl⟩ := act_cause hact hR hnot
    exact (hgood.threads t _ ht).announced.1 ha
  enters := by
    intro c t k s' new _ _ henter w hR
    obtain ⟨-, rfl, -⟩ := enter_cases c.threads henter
    exact hR

theorem guarded : Guarded system Cause Good := by
  intro c t a rest i s' new _ _ hact hfree w deadline p _ hR
  by_contra hnot
  exact absurd (act_cause hact hR hnot).1 (Bool.eq_false_iff.1 hfree)

theorem started_programs (h : Started c) {t : Nat} (ht : c.threads[t]? = some p) :
    t = 0 ∧ p = heartbeatLoop ∨ t ≠ 0 ∧ p = [] := by
  have hheartbeat := h.heartbeat
  cases t with
  | zero =>
    rw [List.head?_eq_getElem?, ht] at hheartbeat
    exact .inl ⟨rfl, Option.some.inj hheartbeat⟩
  | succ t =>
    refine .inr ⟨Nat.succ_ne_zero t, h.idle p (List.mem_of_getElem? (i := t) ?_)⟩
    rwa [List.getElem?_tail]

theorem good_started (h : Started c) : Good c := by
  refine ⟨trivial, fun t p ht => ?_⟩
  rcases started_programs h ht with ⟨rfl, rfl⟩ | ⟨hne, rfl⟩
  · exact ⟨⟨by simp, trivial⟩, fun _ => .start, fun hne => absurd rfl hne⟩
  · exact ⟨trivial, fun hzero => absurd hzero hne, fun _ b hb => absurd hb List.not_mem_nil⟩

theorem heedful_started (h : Started c) : Heedful system Cause c := by
  refine heedful_start (by rw [h.shared]) fun p hp => ?_
  obtain ⟨t, ht⟩ := List.mem_iff_getElem?.1 hp
  rcases started_programs h ht with ⟨-, rfl⟩ | ⟨-, rfl⟩
  · exact .lock (.act Action.loopTop (.nil false))
  · exact .nil false

/-! ## The first beat of a session -/

/-- Some thread has still to kick. -/
def Kicking (c : Config) : Prop := ∃ p ∈ c.threads, Monitor.Act.act Action.kick ∈ p

/-- The thread is about to come past the gate, or does not run on. -/
inductive AtTop : List Act → Prop
  | start : AtTop heartbeatLoop
  | top : AtTop [.act .loopTop]
  | leaving : AtTop [.unlock, .act .exit]
  | exiting : AtTop [.act .exit]
  | ended : AtTop []

/-- Once the gate is open, the loop has come past it, is about to, or will be kicked. -/
def Noticed (c : Config) : Prop :=
  c.shared.data.gate.opened = true → c.shared.data.passed = true ∨ c.shared.data.kick = true ∨
    Kicking c ∨ ∀ p, c.threads[0]? = some p → AtTop p

/-- A step that leaves the gate alone, and takes nothing of this back. -/
theorem Noticed.keep (hc : Noticed c) (hgate : c'.shared.data.gate = c.shared.data.gate)
    (hpassed : c'.shared.data.passed = c.shared.data.passed)
    (hkick : c'.shared.data.kick = c.shared.data.kick) (hkicking : Kicking c → Kicking c')
    (htop : (∀ p, c.threads[0]? = some p → AtTop p) → ∀ p, c'.threads[0]? = some p → AtTop p) :
    Noticed c' := by
  intro hopened
  rw [hgate] at hopened
  rw [hpassed, hkick]
  exact (hc hopened).imp_right (Or.imp_right (Or.imp hkicking htop))

theorem noticed_heartbeat {b : Act} {rest : List Act} {d : Shared Data} {j : Bool × Bool} (hc : Noticed c)
    (ht : c.threads[0]? = some (b :: rest)) (hp : Beating n (b :: rest))
    (h : perform system c.shared b j = some (d, new)) : Noticed ⟨d, c.threads.set 0 (new ++ rest)⟩ := by
  have hget : ∀ p, (c.threads.set 0 (new ++ rest))[0]? = some p → p = new ++ rest := by
    intro p hp
    rw [List.getElem?_set_self (List.getElem?_eq_some_iff.1 ht).1] at hp
    exact (Option.some.inj hp).symm
  have hattop : AtTop (new ++ rest) → Noticed ⟨d, c.threads.set 0 (new ++ rest)⟩ :=
    fun htop _ => .inr (.inr (.inr fun p hp => hget p hp ▸ htop))
  have hkicking : b ≠ .act .kick → Kicking c → Kicking ⟨d, c.threads.set 0 (new ++ rest)⟩ :=
    fun hne hk => Interleave.held_exec hk ht hne.symm new
  have hnottop : ¬ AtTop (b :: rest) → (∀ p, c.threads[0]? = some p → AtTop p) →
      ∀ p, (c.threads.set 0 (new ++ rest))[0]? = some p → AtTop p :=
    fun hnot hall => absurd (hall _ ht) hnot
  obtain ⟨-, ⟨x, rfl, hx⟩ | ⟨hdata, hnot, hnew⟩⟩ := perform_cases h
  · cases hp with
    | top =>
      simp only [system, act] at hx
      split at hx
      · obtain ⟨-, rfl⟩ := Prod.mk.inj (Option.some.inj hx)
        exact hattop .leaving
      · obtain ⟨hd, -⟩ := Prod.mk.inj (Option.some.inj hx)
        intro hopened
        rw [← hd] at hopened ⊢
        have hgate : c.shared.data.gate.opened = true := hopened
        have hpassed : (c.shared.data.passed || c.shared.data.gate.opened) = true := by
          rw [hgate, Bool.or_true]
        exact .inl hpassed
    | arming =>
      obtain ⟨hd, -⟩ := Prod.mk.inj (Option.some.inj hx)
      exact hc.keep (by rw [← hd]) (by rw [← hd]) (by rw [← hd]) (hkicking nofun) (hnottop nofun)
    | woken =>
      obtain ⟨-, rfl⟩ := Prod.mk.inj (Option.some.inj hx)
      exact hattop .top
    | exiting =>
      obtain ⟨-, rfl⟩ := Prod.mk.inj (Option.some.inj hx)
      exact hattop .ended
  · have hkeep : ¬ AtTop (b :: rest) → b ≠ .act .kick → Noticed ⟨d, c.threads.set 0 (new ++ rest)⟩ :=
      fun hnottop' hne => hc.keep (by rw [hdata]) (by rw [hdata]) (by rw [hdata]) (hkicking hne) (hnottop hnottop')
    cases hp with
    | start =>
      rcases hnew with rfl | ⟨w, d, ⟨hb, -⟩ | ⟨hb, -⟩ | ⟨since, hb, -⟩⟩
      · exact hattop .top
      all_goals cases hb
    | leaving =>
      rcases hnew with rfl | ⟨w, d, ⟨hb, -⟩ | ⟨hb, -⟩ | ⟨since, hb, -⟩⟩
      · exact hattop .exiting
      all_goals cases hb
    | check | sleep | asleep => exact hkeep nofun nofun
    | top | arming | woken | exiting => exact absurd rfl (hnot _)

theorem noticed_step (hgood : Good c) (hc : Noticed c) (h : step c l = some c') : Noticed c' := by
  have hzero : ∀ {t : Nat} (x : List Act), t ≠ 0 → (∀ p, c.threads[0]? = some p → AtTop p) →
      ∀ p, (c.threads.set t x)[0]? = some p → AtTop p := by
    intro t x ht hall p hp
    rw [List.getElem?_set_ne ht] at hp
    exact hall p hp
  cases l with
  | exec t j =>
    obtain ⟨b, rest, d, new, ht, hstep, rfl⟩ := Interleave.exec_cases h
    have hfits := hgood.threads t _ ht
    by_cases hself : t = 0
    · subst hself
      exact noticed_heartbeat hc ht (hfits.heartbeat rfl) hstep
    · have hb := hfits.caller hself b List.mem_cons_self
      obtain ⟨-, ⟨x, rfl, hx⟩ | ⟨hdata, hnot, -⟩⟩ := perform_cases hstep
      · have hkicking : x ≠ .kick → Kicking c → Kicking ⟨d, c.threads.set t (new ++ rest)⟩ :=
          fun hne hk => Interleave.held_exec hk ht (fun heq => hne (Monitor.Act.act.inj heq).symm) new
        cases x with
        | loopTop | waitFor | clearKick | exit => exact hb.elim
        | setGate =>
          obtain ⟨hd, rfl⟩ := Prod.mk.inj (Option.some.inj hx)
          cases hopen : c.shared.data.gate.opened with
          | false =>
            -- this call opens the gate, and goes on to kick
            refine fun _ => .inr (.inr (.inl (Interleave.held_new ht ?_)))
            simp [StartGate.set, hopen]
          | true =>
            intro _
            show d.data.passed = true ∨ d.data.kick = true ∨ _ ∨ _
            rw [← hd]
            exact (hc hopen).imp_right (Or.imp_right (Or.imp (hkicking nofun) (hzero _ hself)))
        | kick =>
          obtain ⟨hd, -⟩ := Prod.mk.inj (Option.some.inj hx)
          exact fun _ => .inr (.inl (by rw [← hd]))
        | setConsent | stop =>
          obtain ⟨hd, -⟩ := Prod.mk.inj (Option.some.inj hx)
          exact hc.keep (by rw [← hd]) (by rw [← hd]) (by rw [← hd]) (hkicking nofun) (hzero _ hself)
        | join =>
          obtain ⟨-, hx⟩ := Option.ite_none_right_eq_some.1 hx
          obtain ⟨hd, -⟩ := Prod.mk.inj (Option.some.inj hx)
          exact hc.keep (by rw [← hd]) (by rw [← hd]) (by rw [← hd]) (hkicking nofun) (hzero _ hself)
      · exact hc.keep (by rw [hdata]) (by rw [hdata]) (by rw [hdata])
          (fun hk => Interleave.held_exec hk ht (hnot _).symm new) (hzero _ hself)
  | call t k => exact k.elim
  | env e =>
    cases e with
    | tick elapsed =>
      obtain rfl := tick_cases h
      exact hc
    | enter t k =>
      obtain ⟨d, new, ht, hk, rfl⟩ := Monitor.enter_cases h
      obtain ⟨hne, rfl, rfl⟩ := enter_cases c.threads hk
      exact hc.keep rfl rfl rfl (fun hk => Interleave.held_call hk ht _) (hzero _ hne)

theorem reachable_heedful (h : Reachable c) :
    Good c ∧ Heedful system Cause c ∧ Noticed c := by
  refine Run.reachable_inv (I := fun c => Good c ∧ Heedful system Cause c ∧ Noticed c)
    (fun c hc => ?_) (fun c l c' hc hs => ?_) h
  · refine ⟨good_started hc, heedful_started hc, fun _ => .inr (.inr (.inr fun p hp => ?_))⟩
    rcases started_programs hc hp with ⟨-, rfl⟩ | ⟨hne, -⟩
    · exact .start
    · exact absurd rfl hne
  · exact ⟨good_step hc.1 hs, heedful_step lawful guarded hc.1 hc.2.1 hs, noticed_step hc.1 hc.2.2 hs⟩

/-- **The heartbeat never oversleeps.** While its thread sleeps and nobody is about to wake it, it is
neither stopped nor kicked, and sleeps for an interval of at most 240 seconds; and where the gate is
open, the loop has come past it open, unless a call has still to kick. -/
theorem heartbeat_never_oversleeps (h : Reachable c) {deadline : Nat} {rest : List Act}
    (ht : c.threads[0]? = some (.asleep () deadline c.shared.notified :: rest)) (hquiet : ¬ Pending c) :
    c.shared.data.stop = false ∧ c.shared.data.kick = false ∧ deadline ≤ c.shared.now + seconds 240 ∧
    (c.shared.data.gate.opened = true → c.shared.data.passed = true ∨ Kicking c) := by
  obtain ⟨hgood, hheedful, hnoticed⟩ := reachable_heedful h
  have hcause : ¬ Cause () c.shared.data := fun hcause =>
    hquiet (hheedful.attended _ (List.mem_of_getElem? ht) () (.gone deadline rest) hcause)
  obtain ⟨hstop, hkick⟩ := not_or.1 hcause
  refine ⟨Bool.eq_false_iff.2 hstop, Bool.eq_false_iff.2 hkick, ?_, fun hopened => ?_⟩
  · have hsoon : deadline ≤ c.shared.now + c.shared.data.interval.val := by
      cases (hgood.threads 0 _ ht).heartbeat rfl with
      | asleep hd => exact hd
    exact hsoon.trans (Nat.add_le_add_left c.shared.data.interval.property.2 _)
  · rcases hnoticed hopened with hpassed | hset | hkicking | htop
    · exact .inl hpassed
    · exact absurd hset hkick
    · exact .inr hkicking
    · cases htop _ ht

theorem heartbeat_never_oversleeps_startsLate : ∃ c, Run.run step deferred startsLate = some c ∧
    c.shared.data.beats = 1 ∧ (c.shared.data.passed = true ∨ Kicking c) := by
  have hrun : (Run.run step deferred startsLate).map (fun c => (c.threads, c.shared.notified,
      c.shared.data.beats, c.shared.data.gate.opened)) =
        some ([[.asleep () (seconds 60) 1, .act .clearKick, .act .loopTop], []], 1, 1, true) := by decide
  obtain ⟨c, hc, hstate⟩ := Option.map_eq_some_iff.1 hrun
  obtain ⟨hthreads, hstate⟩ := Prod.mk.inj hstate
  obtain ⟨hcount, hstate⟩ := Prod.mk.inj hstate
  obtain ⟨hbeats, hopened⟩ := Prod.mk.inj hstate
  have ht : c.threads[0]? =
      some (.asleep () (seconds 60) c.shared.notified :: [.act .clearKick, .act .loopTop]) := by
    rw [hthreads, hcount]
    rfl
  have hquiet : ¬ Pending c := by
    rintro ⟨p, hp, hdue⟩
    rw [hthreads] at hp
    rcases List.mem_pair.1 hp with rfl | rfl <;> exact hdue
  obtain ⟨-, -, -, hpassed⟩ := heartbeat_never_oversleeps ⟨deferred, _, started_deferred, hc⟩ ht hquiet
  exact ⟨c, hc, hbeats, hpassed hopened⟩

end Tombstone.HeartbeatWaits
