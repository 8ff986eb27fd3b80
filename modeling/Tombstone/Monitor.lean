import Mathlib.Algebra.Order.BigOperators.Group.List
import Mathlib.Algebra.Order.Group.Int
import Mathlib.Algebra.Order.Ring.Int
import Tombstone.Interleave

/- Threads that share data behind a mutex and wait on its condition variable.

   A thread that waits evaluates its predicate under the mutex; where that is false, it gives
   the mutex back and goes to sleep in one step, until it is notified, its deadline passes or
   it wakes by itself, and then evaluates the predicate again. A cause that makes the predicate
   true without waking the thread is lost on it. This file

   1. defines such a system over the threads of `Interleave`: the steps on the mutex and the
      condition variable, and the program's own (`Act`), and the bracketing that its programs
      keep (`Segment`);
   2. proves that no two threads hold the mutex (`exclusive`);
   3. proves, where whatever raises a cause is followed by a notification, that a cause is
      attended to in every state exactly if no notification comes between a thread's check
      and its sleep (`attended_iff_timely`);
   4. proves that this is so where causes are raised under the mutex only (`heedful_step`). -/
namespace Tombstone.Monitor

/-- What the threads share: the program's data, whether the mutex is taken, how often the
condition variable was notified, and the time. -/
structure Shared (σ : Type) where
  data : σ
  locked : Bool := false
  notified : Nat := 0
  now : Nat := 0

/-- What a thread does next: something with the mutex or the condition variable, or an action
of the program. A wait is for `w`, up to a deadline; a thread that is asleep has been so since
that many notifications. -/
inductive Act (α ω : Type) where
  | lock
  | unlock
  | notifyAll
  | act (a : α)
  | check (w : ω) (deadline : Nat)
  | sleep (w : ω) (deadline : Nat)
  | asleep (w : ω) (deadline since : Nat)
  deriving DecidableEq

/-- The program: what its actions do and are followed by, the predicates it waits for, what
enters on an idle thread, and whether the mutex is held before and after an action with all
that follows from it. -/
structure System (σ α ω ι κ : Type) where
  act : σ → Nat → α → ι → Option (σ × List (Act α ω))
  holds : ω → σ → Nat → Bool
  enter : Shared σ → List (List (Act α ω)) → Nat → κ → Option (σ × List (Act α ω))
  before : α → Bool
  after : α → Bool

inductive Event (κ : Type) where
  | tick (elapsed : Nat)
  | enter (thread : Nat) (entry : κ)

variable {σ α ω ι κ : Type}

abbrev Config (σ α ω : Type) := Interleave.Config (Shared σ) (Act α ω)
/-- An input says, besides what the program reads, whether a sleeper wakes by itself. -/
abbrev Label (ι κ : Type) := Interleave.Label (ι × Bool) Empty (Event κ)

def perform (M : System σ α ω ι κ) (s : Shared σ) (a : Act α ω) (i : ι × Bool) :
    Option (Shared σ × List (Act α ω)) :=
  match a with
  | .lock => if s.locked then none else some ({ s with locked := true }, [])
  | .unlock => some ({ s with locked := false }, [])
  | .notifyAll => some ({ s with notified := s.notified + 1 }, [])
  | .act a => (M.act s.data s.now a i.1).map fun r => ({ s with data := r.1 }, r.2)
  | .check w deadline => some (s, if M.holds w s.data s.now then [] else [.sleep w deadline])
  | .sleep w deadline => some ({ s with locked := false }, [.asleep w deadline s.notified])
  | .asleep w deadline since =>
    if s.locked then none
    else if deadline ≤ s.now then some ({ s with locked := true }, [])
    else if since < s.notified ∨ i.2 = true then some ({ s with locked := true }, [.check w deadline])
    else none

def env (M : System σ α ω ι κ) (c : Shared σ × List (List (Act α ω))) :
    Event κ → Option (Shared σ × List (List (Act α ω)))
  | .tick elapsed => some ({ c.1 with now := c.1.now + elapsed }, c.2)
  | .enter t k =>
    match c.2[t]? with
    | some [] => (M.enter c.1 c.2 t k).map fun r => ({ c.1 with data := r.1 }, c.2.set t r.2)
    | _ => none

def machine (M : System σ α ω ι κ) :
    Interleave.Machine (Shared σ) (Act α ω) (ι × Bool) Empty (Event κ) :=
  { perform := perform M, call := fun _ _ k => k.elim, env := env M }

def step (M : System σ α ω ι κ) : Config σ α ω → Label ι κ → Option (Config σ α ω) :=
  Interleave.step (machine M)

/-! ## Brackets -/

/-- A part of a program, none of it asleep, from one state of the mutex to another. -/
inductive Segment (M : System σ α ω ι κ) : Bool → Bool → List (Act α ω) → Prop
  | nil (b : Bool) : Segment M b b []
  | lock {e : Bool} {p : List (Act α ω)} : Segment M true e p → Segment M false e (.lock :: p)
  | unlock {e : Bool} {p : List (Act α ω)} : Segment M false e p → Segment M true e (.unlock :: p)
  | notifyAll {b e : Bool} {p : List (Act α ω)} : Segment M b e p → Segment M b e (.notifyAll :: p)
  | act (a : α) {e : Bool} {p : List (Act α ω)} :
    Segment M (M.after a) e p → Segment M (M.before a) e (.act a :: p)
  | check (w : ω) (deadline : Nat) {e : Bool} {p : List (Act α ω)} :
    Segment M true e p → Segment M true e (.check w deadline :: p)

/-- What a thread has still to do: it may be about to sleep, with the mutex, or asleep. -/
inductive Program (M : System σ α ω ι κ) (notified : Nat) : Bool → List (Act α ω) → Prop
  | running {b : Bool} {p : List (Act α ω)} : Segment M b false p → Program M notified b p
  | going (w : ω) (deadline : Nat) {p : List (Act α ω)} :
    Segment M true false p → Program M notified true (.sleep w deadline :: p)
  | gone (w : ω) (deadline : Nat) {since : Nat} {p : List (Act α ω)} : since ≤ notified →
    Segment M true false p → Program M notified false (.asleep w deadline since :: p)

/-- The thread waits for `w`, and has not been notified since it found the predicate false. -/
inductive Waits (notified : Nat) (w : ω) : List (Act α ω) → Prop
  | going (deadline : Nat) (p : List (Act α ω)) : Waits notified w (.sleep w deadline :: p)
  | gone (deadline : Nat) (p : List (Act α ω)) : Waits notified w (.asleep w deadline notified :: p)

/-- A thread that notifies next, when it has given the mutex back. -/
def Imminent : List (Act α ω) → Prop
  | .notifyAll :: _ => True
  | .unlock :: rest => Imminent rest
  | _ => False

theorem Imminent.append {p : List (Act α ω)} (h : Imminent p) (q : List (Act α ω)) :
    Imminent (p ++ q) := by
  induction p with
  | nil => exact h.elim
  | cons a p ih =>
    cases a with
    | notifyAll => trivial
    | unlock => exact ih h
    | _ => exact h.elim

/-- A notification is due, and nothing can hold it up. -/
def Pending (c : Config σ α ω) : Prop := ∃ p ∈ c.threads, Imminent p

/-- What actions are followed by, and what enters, is bracketed. -/
structure Balanced (M : System σ α ω ι κ) : Prop where
  segment : ∀ {s now a i s' new}, M.act s now a i = some (s', new) →
    Segment M (M.before a) (M.after a) new
  entry : ∀ {s ps t k s' new}, M.enter s ps t k = some (s', new) → Segment M false false new

variable {M : System σ α ω ι κ} {c c' : Config σ α ω} {l : Label ι κ} {n : Nat} {w : ω}
  {b e : Bool} {p q : List (Act α ω)}

theorem Segment.append {m : Bool} (hp : Segment M b m p) (hq : Segment M m e q) :
    Segment M b e (p ++ q) := by
  induction hp with
  | nil => exact hq
  | lock _ ih => exact .lock (ih hq)
  | unlock _ ih => exact .unlock (ih hq)
  | notifyAll _ ih => exact .notifyAll (ih hq)
  | act a _ ih => exact .act a (ih hq)
  | check w deadline _ ih => exact .check w deadline (ih hq)

theorem Segment.not_waits (h : Segment M b e p) : ¬ Waits n w p := by
  intro hw
  cases hw with
  | going => cases h
  | gone => cases h

theorem Program.mono {m : Nat} (h : Program M n b p) (hm : n ≤ m) : Program M m b p := by
  cases h with
  | running h => exact .running h
  | going w deadline h => exact .going w deadline h
  | gone w deadline hsince h => exact .gone w deadline (hsince.trans hm) h

/-- **What a step does**: the program's own action, or, with the data as it is, one of the mutex or the
condition variable, which a wait may go on with. -/
theorem perform_cases {s s' : Shared σ} {a : Act α ω} {i : ι × Bool} {new : List (Act α ω)}
    (h : perform M s a i = some (s', new)) :
    s'.now = s.now ∧ ((∃ x, a = .act x ∧ M.act s.data s.now x i.1 = some (s'.data, new)) ∨
      s'.data = s.data ∧ (∀ x, a ≠ .act x) ∧ (new = [] ∨
        ∃ w deadline, a = .check w deadline ∧ new = [.sleep w deadline] ∨
          a = .sleep w deadline ∧ new = [.asleep w deadline s.notified] ∨
          ∃ since, a = .asleep w deadline since ∧ new = [.check w deadline])) := by
  cases a with
  | lock =>
    obtain ⟨-, h⟩ := Option.ite_none_left_eq_some.1 h
    obtain ⟨rfl, rfl⟩ := Prod.mk.inj (Option.some.inj h)
    exact ⟨rfl, .inr ⟨rfl, nofun, .inl rfl⟩⟩
  | unlock | notifyAll =>
    obtain ⟨rfl, rfl⟩ := Prod.mk.inj (Option.some.inj h)
    exact ⟨rfl, .inr ⟨rfl, nofun, .inl rfl⟩⟩
  | act x =>
    obtain ⟨r, hr, h⟩ := Option.map_eq_some_iff.1 h
    obtain ⟨rfl, rfl⟩ := Prod.mk.inj h
    exact ⟨rfl, .inl ⟨x, rfl, hr⟩⟩
  | check w deadline =>
    obtain ⟨rfl, rfl⟩ := Prod.mk.inj (Option.some.inj h)
    refine ⟨rfl, .inr ⟨rfl, nofun, ?_⟩⟩
    split
    · exact .inl rfl
    · exact .inr ⟨w, deadline, .inl ⟨rfl, rfl⟩⟩
  | sleep w deadline =>
    obtain ⟨rfl, rfl⟩ := Prod.mk.inj (Option.some.inj h)
    exact ⟨rfl, .inr ⟨rfl, nofun, .inr ⟨w, deadline, .inr (.inl ⟨rfl, rfl⟩)⟩⟩⟩
  | asleep w deadline since =>
    obtain ⟨-, h⟩ := Option.ite_none_left_eq_some.1 h
    split at h
    · obtain ⟨rfl, rfl⟩ := Prod.mk.inj (Option.some.inj h)
      exact ⟨rfl, .inr ⟨rfl, nofun, .inl rfl⟩⟩
    · obtain ⟨-, h⟩ := Option.ite_none_right_eq_some.1 h
      obtain ⟨rfl, rfl⟩ := Prod.mk.inj (Option.some.inj h)
      exact ⟨rfl, .inr ⟨rfl, nofun, .inr ⟨w, deadline, .inr (.inr ⟨since, rfl, rfl⟩)⟩⟩⟩

theorem perform_notified {s s' : Shared σ} {a : Act α ω} {i : ι × Bool} {new : List (Act α ω)}
    (h : perform M s a i = some (s', new)) (ha : a ≠ .notifyAll) : s'.notified = s.notified := by
  cases a with
  | lock =>
    obtain ⟨-, h⟩ := Option.ite_none_left_eq_some.1 h
    obtain ⟨rfl, -⟩ := Prod.mk.inj (Option.some.inj h)
    rfl
  | unlock | check | sleep =>
    obtain ⟨rfl, -⟩ := Prod.mk.inj (Option.some.inj h)
    rfl
  | notifyAll => exact absurd rfl ha
  | act x =>
    obtain ⟨r, -, h⟩ := Option.map_eq_some_iff.1 h
    obtain ⟨rfl, -⟩ := Prod.mk.inj h
    rfl
  | asleep w deadline since =>
    obtain ⟨-, h⟩ := Option.ite_none_left_eq_some.1 h
    split at h
    · obtain ⟨rfl, -⟩ := Prod.mk.inj (Option.some.inj h)
      rfl
    · obtain ⟨-, h⟩ := Option.ite_none_right_eq_some.1 h
      obtain ⟨rfl, -⟩ := Prod.mk.inj (Option.some.inj h)
      rfl

/-- What a step does to the mutex and the count, for the thread that takes it. -/
theorem perform_program (hM : Balanced M) {s s' : Shared σ} {a : Act α ω} {i : ι × Bool}
    {rest new : List (Act α ω)} (hp : Program M s.notified b (a :: rest))
    (h : perform M s a i = some (s', new)) :
    s.notified ≤ s'.notified ∧ ∃ b', Program M s'.notified b' (new ++ rest) := by
  cases hp with
  | running hp =>
    cases hp with
    | lock hrest =>
      obtain ⟨-, h⟩ := Option.ite_none_left_eq_some.1 h
      obtain ⟨rfl, rfl⟩ := Prod.mk.inj (Option.some.inj h)
      exact ⟨le_rfl, _, .running hrest⟩
    | unlock hrest =>
      obtain ⟨rfl, rfl⟩ := Prod.mk.inj (Option.some.inj h)
      exact ⟨le_rfl, _, .running hrest⟩
    | notifyAll hrest =>
      obtain ⟨rfl, rfl⟩ := Prod.mk.inj (Option.some.inj h)
      exact ⟨Nat.le_succ _, _, .running hrest⟩
    | act a hrest =>
      obtain ⟨r, hr, h⟩ := Option.map_eq_some_iff.1 h
      obtain ⟨rfl, rfl⟩ := Prod.mk.inj h
      exact ⟨le_rfl, _, .running ((hM.segment hr).append hrest)⟩
    | check w deadline hrest =>
      obtain ⟨rfl, rfl⟩ := Prod.mk.inj (Option.some.inj h)
      refine ⟨le_rfl, true, ?_⟩
      split
      · exact .running hrest
      · exact .going w deadline hrest
  | going w deadline hrest =>
    obtain ⟨rfl, rfl⟩ := Prod.mk.inj (Option.some.inj h)
    exact ⟨le_rfl, false, .gone w deadline le_rfl hrest⟩
  | gone w deadline _ hrest =>
    obtain ⟨-, h⟩ := Option.ite_none_left_eq_some.1 h
    split at h
    · obtain ⟨rfl, rfl⟩ := Prod.mk.inj (Option.some.inj h)
      exact ⟨le_rfl, _, .running hrest⟩
    · obtain ⟨-, h⟩ := Option.ite_none_right_eq_some.1 h
      obtain ⟨rfl, rfl⟩ := Prod.mk.inj (Option.some.inj h)
      exact ⟨le_rfl, _, .running (.check w deadline hrest)⟩

/-! ## One thread at a time -/

def held (b : Bool) : ℤ := if b then 1 else 0

/-- Where the mutex is free, there is one more to take. -/
def free (s : Shared σ) : ℤ := 1 - held s.locked

/-- What a step and all that follows from it give back of the mutex. -/
def gives (M : System σ α ω ι κ) : Act α ω → ℤ
  | .unlock => 1
  | .lock | .asleep _ _ _ => -1
  | .act a => held (M.before a) - held (M.after a)
  | _ => 0

theorem Segment.gives (h : Segment M b e p) : (p.map (gives M)).sum = held b - held e := by
  induction h with
  | nil => simp
  | lock _ ih | unlock _ ih | notifyAll _ ih | act _ _ ih | check _ _ _ ih =>
    rw [List.map_cons, List.sum_cons, ih]
    simp only [Monitor.gives, held, if_true, Bool.false_eq_true, if_false]
    omega

theorem Program.gives (h : Program M n b p) : (p.map (gives M)).sum = held b := by
  cases h with
  | running h =>
    rw [h.gives]
    simp [held]
  | going w deadline h | gone w deadline _ h =>
    rw [List.map_cons, List.sum_cons, h.gives]
    simp [Monitor.gives, held]

/-- Every program is bracketed, and the mutex is somewhere once. -/
structure Bracketed (M : System σ α ω ι κ) (c : Config σ α ω) : Prop where
  programs : ∀ p ∈ c.threads, ∃ b, Program M c.shared.notified b p
  once : Interleave.total free (gives M) c = 1

theorem Bracketed.share (hc : Bracketed M c) {t : Nat} (ht : c.threads[t]? = some p) :
    ∃ frame, free c.shared + ((p.map (gives M)).sum + frame) = 1 ∧ 0 ≤ frame ∧
      ∀ u q, u ≠ t → c.threads[u]? = some q → (q.map (gives M)).sum ≤ frame := by
  obtain ⟨frame, hsum, hset⟩ :=
    Interleave.sum_map_frame (fun p : List (Act α ω) => (p.map (gives M)).sum) ht
  have hrest := hset []
  rw [List.map_nil, List.sum_nil, zero_add] at hrest
  have hnonneg : ∀ x ∈ (c.threads.set t []).map fun p => (p.map (gives M)).sum, 0 ≤ x := by
    intro x hx
    obtain ⟨q, hq, rfl⟩ := List.mem_map.1 hx
    rcases List.mem_or_eq_of_mem_set hq with hq | rfl
    · obtain ⟨b, hb⟩ := hc.programs q hq
      rw [hb.gives]
      cases b <;> decide
    · rfl
  refine ⟨frame, ?_, hrest ▸ List.sum_nonneg hnonneg, fun u q hu hq => ?_⟩
  · rw [← hsum]
    exact hc.once
  · rw [← hrest]
    refine List.single_le_sum hnonneg _ (List.mem_map_of_mem (List.mem_of_getElem? (i := u) ?_))
    rw [List.getElem?_set_ne hu.symm, hq]

/-- **No two threads hold the mutex.** -/
theorem Bracketed.exclusive (hc : Bracketed M c) {t u : Nat} (ht : c.threads[t]? = some p)
    (hu : c.threads[u]? = some q) (hp : Program M c.shared.notified true p)
    (hq : Program M c.shared.notified true q) : t = u := by
  by_contra hne
  obtain ⟨frame, hone, -, hothers⟩ := hc.share ht
  have hle := hothers u q (Ne.symm hne) hu
  rw [hp.gives] at hone
  rw [hq.gives] at hle
  have hfree : 0 ≤ free c.shared := by
    unfold free
    cases c.shared.locked <;> decide
  simp only [held, if_true] at hone hle
  omega

/-- The mutex is taken while a thread holds it. -/
theorem Bracketed.locked (hc : Bracketed M c) {t : Nat} (ht : c.threads[t]? = some p)
    (hp : Program M c.shared.notified true p) : c.shared.locked = true := by
  obtain ⟨frame, hone, hnonneg, -⟩ := hc.share ht
  rw [hp.gives] at hone
  cases hl : c.shared.locked with
  | true => rfl
  | false =>
    simp only [free, held, hl, if_true, Bool.false_eq_true, if_false] at hone
    omega

theorem perform_free (hM : Balanced M) {s s' : Shared σ} {a : Act α ω} {i : ι × Bool}
    {rest new : List (Act α ω)} (hp : Program M s.notified b (a :: rest))
    (hb : b = true → s.locked = true) (h : perform M s a i = some (s', new)) :
    free s' + (new.map (gives M)).sum = free s + gives M a := by
  cases hp with
  | running hp =>
    cases hp with
    | lock hrest =>
      obtain ⟨hfree, h⟩ := Option.ite_none_left_eq_some.1 h
      obtain ⟨rfl, rfl⟩ := Prod.mk.inj (Option.some.inj h)
      rw [Bool.not_eq_true] at hfree
      simp [free, held, gives, hfree]
    | unlock hrest =>
      obtain ⟨rfl, rfl⟩ := Prod.mk.inj (Option.some.inj h)
      simp [free, held, gives, hb rfl]
    | notifyAll hrest =>
      obtain ⟨rfl, rfl⟩ := Prod.mk.inj (Option.some.inj h)
      simp [free, gives]
    | act a hrest =>
      obtain ⟨r, hr, h⟩ := Option.map_eq_some_iff.1 h
      obtain ⟨rfl, rfl⟩ := Prod.mk.inj h
      rw [(hM.segment hr).gives]
      rfl
    | check w deadline hrest =>
      obtain ⟨rfl, rfl⟩ := Prod.mk.inj (Option.some.inj h)
      split <;> simp [gives]
  | going w deadline hrest =>
    obtain ⟨rfl, rfl⟩ := Prod.mk.inj (Option.some.inj h)
    simp [free, held, gives, hb rfl]
  | gone w deadline _ hrest =>
    obtain ⟨hfree, h⟩ := Option.ite_none_left_eq_some.1 h
    rw [Bool.not_eq_true] at hfree
    split at h
    · obtain ⟨rfl, rfl⟩ := Prod.mk.inj (Option.some.inj h)
      simp [free, held, gives, hfree]
    · obtain ⟨-, h⟩ := Option.ite_none_right_eq_some.1 h
      obtain ⟨rfl, rfl⟩ := Prod.mk.inj (Option.some.inj h)
      simp [free, held, gives, hfree]

theorem enter_cases {t : Nat} {k : κ} (h : step M c (.env (.enter t k)) = some c') :
    ∃ s' new, c.threads[t]? = some [] ∧ M.enter c.shared c.threads t k = some (s', new) ∧
      c' = ⟨{ c.shared with data := s' }, c.threads.set t new⟩ := by
  have he := Interleave.env_cases h
  simp only [machine, env] at he
  split at he
  · rename_i ht
    obtain ⟨r, hr, he⟩ := Option.map_eq_some_iff.1 he
    obtain ⟨hs, hps⟩ := Prod.mk.inj he
    exact ⟨r.1, r.2, ht, hr, by rw [hs, hps]⟩
  · cases he

theorem tick_cases {elapsed : Nat} (h : step M c (.env (.tick elapsed)) = some c') :
    c' = ⟨{ c.shared with now := c.shared.now + elapsed }, c.threads⟩ := by
  obtain ⟨hs, hps⟩ := Prod.mk.inj (Option.some.inj (Interleave.env_cases h))
  exact (congrArg₂ Interleave.Config.mk hs hps).symm

theorem bracketed_step (hM : Balanced M) (hc : Bracketed M c) (h : step M c l = some c') :
    Bracketed M c' := by
  cases l with
  | exec t i =>
    obtain ⟨a, rest, s', new, ht, hp, rfl⟩ := Interleave.exec_cases h
    obtain ⟨b, hb⟩ := hc.programs _ (List.mem_of_getElem? ht)
    obtain ⟨hmono, b', hb'⟩ := perform_program hM hb hp
    refine ⟨fun p hin => ?_, ?_⟩
    · rcases List.mem_or_eq_of_mem_set hin with hin | rfl
      · obtain ⟨e, he⟩ := hc.programs p hin
        exact ⟨e, he.mono hmono⟩
      · exact ⟨b', hb'⟩
    · obtain ⟨frame, hbefore, hafter⟩ := Interleave.total_exec free (gives M) ht
      have hsame := perform_free hM hb (fun htrue => hc.locked ht (htrue ▸ hb)) hp
      rw [hafter, hsame, ← hbefore]
      exact hc.once
  | call t k => exact k.elim
  | env ev =>
    cases ev with
    | tick elapsed =>
      obtain rfl := tick_cases h
      exact ⟨hc.programs, hc.once⟩
    | enter t k =>
      obtain ⟨s', new, ht, hk, rfl⟩ := enter_cases h
      refine ⟨fun p hin => ?_, ?_⟩
      · rcases List.mem_or_eq_of_mem_set hin with hin | rfl
        · exact hc.programs p hin
        · exact ⟨false, .running (hM.entry hk)⟩
      · obtain ⟨frame, hbefore, hafter⟩ := Interleave.total_call free (gives M) ht
        rw [hafter, (hM.entry hk).gives, ← hc.once, hbefore]
        simp [free, held]

theorem bracketed_start (hfree : c.shared.locked = false)
    (hp : ∀ p ∈ c.threads, Segment M false false p) : Bracketed M c := by
  refine ⟨fun p hin => ⟨false, .running (hp p hin)⟩, ?_⟩
  have hzero : (c.threads.map fun p => (p.map (gives M)).sum).sum = 0 := by
    refine Interleave.sum_map_eq_zero fun p hin => ?_
    rw [(hp p hin).gives, sub_self]
  simp [Interleave.total, hzero, free, held, hfree]

/-! ## Causes and notifications -/

/-- Predicates hold where there is a cause `R`, and what raises one for a thread that waits is
followed by a notification. -/
structure Lawful (M : System σ α ω ι κ) (R : ω → σ → Prop) (Good : Config σ α ω → Prop) : Prop
    extends Balanced M where
  cause : ∀ {w s now}, M.holds w s now = false → ¬ R w s
  raises : ∀ {c : Config σ α ω} {t : Nat} {a rest i s' new}, Good c → c.threads[t]? = some (.act a :: rest) →
    M.act c.shared.data c.shared.now a i = some (s', new) →
    ∀ p ∈ c.threads, ∀ w, Waits c.shared.notified w p → R w s' → ¬ R w c.shared.data →
      Imminent (new ++ rest)
  enters : ∀ {c : Config σ α ω} {t : Nat} {k s' new}, Good c → c.threads[t]? = some [] →
    M.enter c.shared c.threads t k = some (s', new) → ∀ w, R w s' → R w c.shared.data

variable {R : ω → σ → Prop} {Good : Config σ α ω → Prop}

/-- Whoever waits with a cause to go on, is going to be notified. -/
def Attended (R : ω → σ → Prop) (c : Config σ α ω) : Prop :=
  ∀ p ∈ c.threads, ∀ w, Waits c.shared.notified w p → R w c.shared.data → Pending c

/-- The last notification due does not come between a thread's check and its sleep, while it has a
cause to go on. -/
def Timely (R : ω → σ → Prop) (c : Config σ α ω) (l : Label ι κ) (c' : Config σ α ω) : Prop :=
  Interleave.acting c l = some .notifyAll →
    ∀ p ∈ c'.threads, ∀ w deadline rest, p = .sleep w deadline :: rest → R w c'.shared.data →
      Pending c'

theorem mem_set_of_ne {ps : List (List (Act α ω))} {t : Nat} (hp : p ∈ ps) (ht : ps[t]? = some q)
    (hne : p ≠ q) (x : List (Act α ω)) : p ∈ ps.set t x := by
  obtain ⟨u, hu⟩ := List.mem_iff_getElem?.1 hp
  refine List.mem_of_getElem? (i := u) ?_
  rw [List.getElem?_set_ne, hu]
  rintro rfl
  exact hne (Option.some.inj (hu.symm.trans ht))

/-- A notification that is due stays so until it is given. -/
theorem Pending.exec (hc : Pending c) {t : Nat} {a : Act α ω} {rest new : List (Act α ω)}
    {i : ι × Bool} {s' : Shared σ} (ht : c.threads[t]? = some (a :: rest)) (ha : a ≠ .notifyAll)
    (h : perform M c.shared a i = some (s', new)) : Pending ⟨s', c.threads.set t (new ++ rest)⟩ := by
  obtain ⟨p, hp, hdue⟩ := hc
  by_cases hself : p = a :: rest
  · subst hself
    cases a with
    | notifyAll => exact absurd rfl ha
    | unlock =>
      obtain ⟨-, rfl⟩ := Prod.mk.inj (Option.some.inj h)
      exact ⟨rest, List.mem_set (List.getElem?_eq_some_iff.1 ht).1 _, hdue⟩
    | _ => exact hdue.elim
  · exact ⟨p, mem_set_of_ne hp ht hself _, hdue⟩

theorem Pending.enter (hc : Pending c) {t : Nat} (ht : c.threads[t]? = some []) (s' : Shared σ)
    (new : List (Act α ω)) : Pending ⟨s', c.threads.set t new⟩ := by
  obtain ⟨p, hp, hdue⟩ := hc
  refine ⟨p, mem_set_of_ne hp ht ?_ new, hdue⟩
  rintro rfl
  exact hdue

/-- A step of one thread, seen from a thread that waits after it. -/
theorem perform_waits (hM : Balanced M) {s s' : Shared σ} {a : Act α ω} {i : ι × Bool}
    {rest new : List (Act α ω)} (hp : Program M s.notified b (a :: rest))
    (h : perform M s a i = some (s', new)) (hw : Waits s'.notified w (new ++ rest)) :
    s'.data = s.data ∧ ((∃ deadline, a = .sleep w deadline ∧ new = [.asleep w deadline s.notified]) ∨
      M.holds w s.data s.now = false) := by
  cases hp with
  | running hp =>
    cases hp with
    | lock hrest =>
      obtain ⟨-, h⟩ := Option.ite_none_left_eq_some.1 h
      obtain ⟨rfl, rfl⟩ := Prod.mk.inj (Option.some.inj h)
      exact absurd hw hrest.not_waits
    | unlock hrest | notifyAll hrest =>
      obtain ⟨rfl, rfl⟩ := Prod.mk.inj (Option.some.inj h)
      exact absurd hw hrest.not_waits
    | act a hrest =>
      obtain ⟨r, hr, h⟩ := Option.map_eq_some_iff.1 h
      obtain ⟨rfl, rfl⟩ := Prod.mk.inj h
      exact absurd hw ((hM.segment hr).append hrest).not_waits
    | check w deadline hrest =>
      obtain ⟨rfl, rfl⟩ := Prod.mk.inj (Option.some.inj h)
      split at hw
      · exact absurd hw hrest.not_waits
      · rename_i hfalse
        cases hw with
        | going => exact ⟨rfl, .inr (Bool.eq_false_iff.2 hfalse)⟩
  | going w deadline hrest =>
    obtain ⟨rfl, rfl⟩ := Prod.mk.inj (Option.some.inj h)
    cases hw with
    | gone => exact ⟨rfl, .inl ⟨deadline, rfl, rfl⟩⟩
  | gone w deadline _ hrest =>
    obtain ⟨-, h⟩ := Option.ite_none_left_eq_some.1 h
    split at h
    · obtain ⟨rfl, rfl⟩ := Prod.mk.inj (Option.some.inj h)
      exact absurd hw hrest.not_waits
    · obtain ⟨-, h⟩ := Option.ite_none_right_eq_some.1 h
      obtain ⟨rfl, rfl⟩ := Prod.mk.inj (Option.some.inj h)
      exact absurd hw (Segment.check w deadline hrest).not_waits

/-- After a notification, only a thread that had not yet gone to sleep waits. -/
theorem Program.waits_notified (hp : Program M n b p) (hw : Waits (n + 1) w p) :
    ∃ deadline rest, p = .sleep w deadline :: rest := by
  cases hw with
  | going deadline rest => exact ⟨deadline, rest, rfl⟩
  | gone =>
    cases hp with
    | running hp => cases hp
    | gone _ _ hsince => omega

/-- **One step**: causes stay attended to just when a notification comes in time. -/
theorem attended_step (hM : Lawful M R Good) (hgood : Good c) (hb : Bracketed M c)
    (hc : Attended R c) (h : step M c l = some c') : Attended R c' ↔ Timely R c l c' := by
  constructor
  · rintro hc' - p hp w deadline rest rfl hR
    exact hc' _ hp w (.going deadline rest) hR
  · intro htimely p hp w hw hR
    cases l with
    | exec t i =>
      obtain ⟨a, rest, s', new, ht, hstep, rfl⟩ := Interleave.exec_cases h
      have hmem := List.mem_of_getElem? ht
      obtain ⟨b, hprogram⟩ := hb.programs _ hmem
      by_cases hnotify : a = .notifyAll
      · subst hnotify
        obtain ⟨rfl, rfl⟩ := Prod.mk.inj (Option.some.inj hstep)
        rcases List.mem_or_eq_of_mem_set hp with hold | rfl
        · obtain ⟨e, he⟩ := hb.programs p hold
          obtain ⟨deadline, q, rfl⟩ := he.waits_notified hw
          exact htimely (Interleave.acting_exec ht) _ hp w deadline q rfl hR
        · cases hprogram with
          | running hprogram =>
            cases hprogram with
            | notifyAll hrest => exact absurd hw hrest.not_waits
      · rcases List.mem_or_eq_of_mem_set hp with hold | rfl
        · -- a thread that looked on
          obtain ⟨-, hdata⟩ := perform_cases hstep
          rw [perform_notified hstep hnotify] at hw
          by_cases hbefore : R w c.shared.data
          · exact (hc p hold w hw hbefore).exec ht hnotify hstep
          · rcases hdata with ⟨x, rfl, hx⟩ | ⟨hdata, -⟩
            · exact ⟨new ++ rest, List.mem_set (List.getElem?_eq_some_iff.1 ht).1 _,
                hM.raises hgood ht hx p hold w hw hR hbefore⟩
            · exact absurd (hdata ▸ hR) hbefore
        · obtain ⟨hdata, hbefore⟩ := perform_waits hM.toBalanced hprogram hstep hw
          rw [hdata] at hR
          rcases hbefore with ⟨deadline, rfl, -⟩ | hfalse
          · exact (hc _ hmem w (.going deadline rest) hR).exec (M := M) (i := i) ht hnotify hstep
          · exact absurd hR (hM.cause hfalse)
    | call t k => exact k.elim
    | env ev =>
      cases ev with
      | tick elapsed =>
        obtain rfl := tick_cases h
        exact hc p hp w hw hR
      | enter t k =>
        obtain ⟨s', new, ht, hk, rfl⟩ := enter_cases h
        rcases List.mem_or_eq_of_mem_set hp with hold | rfl
        · exact (hc p hold w hw (hM.enters hgood ht hk w hR)).enter ht _ new
        · exact absurd hw (hM.entry hk).not_waits

/-- **Causes are attended to** in every state of a run, exactly if each of its notifications comes in
time. -/
theorem attended_iff_timely (hM : Lawful M R Good)
    (hgood : ∀ c (l : Label ι κ) c', Good c → step M c l = some c' → Good c') (ls : List (Label ι κ))
    (hg : Good c) (hb : Bracketed M c) (hc : Attended R c) :
    Run.AllStates (step M) (Attended R) c ls ↔ Run.AllSteps (step M) (Timely R) c ls := by
  have hI : ∀ c (l : Label ι κ) c', Good c ∧ Bracketed M c → step M c l = some c' →
      Good c' ∧ Bracketed M c' :=
    fun c l c' hc hs => ⟨hgood c l c' hc.1 hs, bracketed_step hM.toBalanced hc.2 hs⟩
  exact Run.allStates_iff_allSteps hI (fun _ _ _ hI hc hs => attended_step hM hI.1 hI.2 hc hs) ls c
    ⟨hg, hb⟩ hc

/-! ## Causes raised under the mutex -/

/-- Without the mutex, no cause is raised for a thread that is about to sleep. -/
def Guarded (M : System σ α ω ι κ) (R : ω → σ → Prop) (Good : Config σ α ω → Prop) : Prop :=
  ∀ {c : Config σ α ω} {t : Nat} {a rest i s' new}, Good c → c.threads[t]? = some (.act a :: rest) →
    M.act c.shared.data c.shared.now a i = some (s', new) → M.before a = false →
    ∀ w deadline p, .sleep w deadline :: p ∈ c.threads → R w s' → R w c.shared.data

/-- Causes are attended to, and nobody who is about to sleep has one. -/
structure Heedful (M : System σ α ω ι κ) (R : ω → σ → Prop) (c : Config σ α ω) : Prop where
  bracketed : Bracketed M c
  attended : Attended R c
  calm : ∀ w deadline p, .sleep w deadline :: p ∈ c.threads → ¬ R w c.shared.data

theorem heedful_start (hfree : c.shared.locked = false)
    (hp : ∀ p ∈ c.threads, Segment M false false p) : Heedful M R c where
  bracketed := bracketed_start hfree hp
  attended p hin _ hw _ := absurd hw (hp p hin).not_waits
  calm _ deadline p hin _ := (hp _ hin).not_waits (n := 0) (.going deadline p)

theorem calm_step (hM : Lawful M R Good) (hguard : Guarded M R Good) (hgood : Good c)
    (hc : Heedful M R c) (h : step M c l = some c') :
    ∀ w deadline p, .sleep w deadline :: p ∈ c'.threads → ¬ R w c'.shared.data := by
  intro w deadline p hp hR
  cases l with
  | exec t i =>
    obtain ⟨a, rest, s', new, ht, hstep, rfl⟩ := Interleave.exec_cases h
    obtain ⟨b, hprogram⟩ := hc.bracketed.programs _ (List.mem_of_getElem? ht)
    rcases List.mem_or_eq_of_mem_set hp with hold | heq
    · have hcalm := hc.calm w deadline p hold
      obtain ⟨-, ⟨x, rfl, hx⟩ | ⟨hdata, -⟩⟩ := perform_cases hstep
      · cases hbefore : M.before x with
        | false => exact hcalm (hguard hgood ht hx hbefore w deadline p hold hR)
        | true =>
          -- both threads would hold the mutex
          obtain ⟨u, hu⟩ := List.mem_iff_getElem?.1 hold
          obtain ⟨e, he⟩ := hc.bracketed.programs _ hold
          cases he with
          | running he => cases he
          | going _ _ hrest =>
            cases hprogram with
            | running hprogram =>
              cases hprogram with
              | act _ hact =>
                have hheld : Program M c.shared.notified true (.act x :: rest) := by
                  rw [← hbefore]
                  exact .running (.act x hact)
                obtain rfl := hc.bracketed.exclusive ht hu hheld (.going w deadline hrest)
                cases ht.symm.trans hu
      · exact hcalm (hdata ▸ hR)
    · have hw : Waits s'.notified w (new ++ rest) := heq ▸ .going deadline p
      obtain ⟨hdata, ⟨d, -, rfl⟩ | hfalse⟩ := perform_waits hM.toBalanced hprogram hstep hw
      · cases heq
      · exact hM.cause hfalse (hdata ▸ hR)
  | call t k => exact k.elim
  | env ev =>
    cases ev with
    | tick elapsed =>
      obtain rfl := tick_cases h
      exact hc.calm w deadline p hp hR
    | enter t k =>
      obtain ⟨s', new, ht, hk, rfl⟩ := enter_cases h
      rcases List.mem_or_eq_of_mem_set hp with hold | rfl
      · exact hc.calm w deadline p hold (hM.enters hgood ht hk w hR)
      · exact (hM.entry hk).not_waits (n := 0) (.going deadline p)

/-- **No wake-up is lost** where causes are raised under the mutex. -/
theorem heedful_step (hM : Lawful M R Good) (hguard : Guarded M R Good) (hgood : Good c)
    (hc : Heedful M R c) (h : step M c l = some c') : Heedful M R c' := by
  have hcalm := calm_step hM hguard hgood hc h
  refine ⟨bracketed_step hM.toBalanced hc.bracketed h, ?_, hcalm⟩
  refine (attended_step hM hgood hc.bracketed hc.attended h).2 ?_
  rintro - p hp w deadline rest rfl hR
  exact absurd hR (hcalm w deadline rest hp)

end Tombstone.Monitor
