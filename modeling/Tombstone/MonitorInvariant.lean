import Tombstone.Monitor

/- What a mutex guards.

   A part of the data, the view, is only touched with the mutex. It has an invariant while nobody
   holds the mutex: whoever takes it finds the invariant, may break it, and has restored it by the
   time the mutex is given back. This file

   1. says that a section restores the invariant, however it goes on (`Settles`), and what a program
      has to show for its view to be guarded (`Disciplined`);
   2. proves that the view is guarded in every state (`guarded_step`, `guarded_start`). -/
namespace Tombstone.Monitor

variable {σ α ω ι κ γ : Type}

/-- What is guarded, its invariant, what the actions of a section rely on, and what is left to a thread
outside. -/
structure Discipline (σ α ω γ : Type) where
  view : σ → γ
  inv : γ → Prop
  pre : γ → α → Prop
  out : List (Act α ω) → Prop

/-- What a thread with the mutex has still to do restores the invariant before it gives the mutex back
or waits for it again, and then goes on as `out` says; on the way, each action finds what it relies on
(`pre`). -/
inductive Settles (M : System σ α ω ι κ) (D : Discipline σ α ω γ) : γ → List (Act α ω) → Prop
  | unlock {g : γ} {p : List (Act α ω)} : D.inv g → D.out p → Settles M D g (.unlock :: p)
  | notifyAll {g : γ} {p : List (Act α ω)} : Settles M D g p → Settles M D g (.notifyAll :: p)
  | act {g : γ} {a : α} {p : List (Act α ω)} : M.before a = true → D.pre g a →
    (∀ s now i s' new, D.view s = g → M.act s now a i = some (s', new) →
      Settles M D (D.view s') (new ++ p)) → Settles M D g (.act a :: p)
  | check {g : γ} (w : ω) (deadline : Nat) {p : List (Act α ω)} : D.inv g →
    (∀ g', D.inv g' → Settles M D g' p) → Settles M D g (.check w deadline :: p)

/-- Outside its sections the program leaves the view alone, and each section settles. -/
structure Disciplined (M : System σ α ω ι κ) (D : Discipline σ α ω γ) : Prop extends Balanced M where
  lock : ∀ {g p}, D.out (.lock :: p) → D.inv g → Settles M D g p
  notifyAll : ∀ {p}, D.out (.notifyAll :: p) → D.out p
  act : ∀ {s now a i s' new p}, D.out (.act a :: p) → M.before a = false →
    M.act s now a i = some (s', new) → D.out (new ++ p) ∧ D.view s' = D.view s
  enters : ∀ {s ps t k s' new}, M.enter s ps t k = some (s', new) → D.out new ∧ D.view s' = D.view s.data

variable {M : System σ α ω ι κ} {D : Discipline σ α ω γ}

/-- A thread with the mutex: in a section, or about to sleep. -/
inductive Inside (M : System σ α ω ι κ) (D : Discipline σ α ω γ) (g : γ) : List (Act α ω) → Prop
  | running {p : List (Act α ω)} : Settles M D g p → Inside M D g p
  | going (w : ω) (deadline : Nat) {p : List (Act α ω)} : D.inv g →
    (∀ g', D.inv g' → Settles M D g' p) → Inside M D g (.sleep w deadline :: p)

/-- A thread without the mutex: on its way, or asleep in a section. -/
inductive Outside (M : System σ α ω ι κ) (D : Discipline σ α ω γ) : List (Act α ω) → Prop
  | running {p : List (Act α ω)} : Segment M false false p → D.out p → Outside M D p
  | gone (w : ω) (deadline since : Nat) {p : List (Act α ω)} :
    (∀ g, D.inv g → Settles M D g p) → Outside M D (.asleep w deadline since :: p)

/-- What a thread has still to do goes with the data. -/
def Fits (M : System σ α ω ι κ) (D : Discipline σ α ω γ) (s : Shared σ) (p : List (Act α ω)) : Prop :=
  (Program M s.notified true p → Inside M D (D.view s.data) p) ∧
    (Program M s.notified false p → Outside M D p)

structure Guards (M : System σ α ω ι κ) (D : Discipline σ α ω γ) (c : Config σ α ω) : Prop where
  bracketed : Bracketed M c
  free : c.shared.locked = false → D.inv (D.view c.shared.data)
  fits : ∀ (t : Nat) p, c.threads[t]? = some p → Fits M D c.shared p

variable {c c' : Config σ α ω} {l : Label ι κ} {n m : Nat} {b e : Bool} {p : List (Act α ω)}

/-- A program tells whether its thread has the mutex. -/
theorem Program.side_unique (h : Program M n b p) (h' : Program M m e p) : b = e := by
  have hsum := h.gives.symm.trans h'.gives
  cases b <;> cases e <;> first | rfl | cases hsum

theorem Fits.of_inside {s : Shared σ} (h : Program M s.notified true p)
    (hin : Inside M D (D.view s.data) p) : Fits M D s p :=
  ⟨fun _ => hin, fun hout => absurd (h.side_unique hout) Bool.noConfusion⟩

theorem Fits.of_outside {s : Shared σ} (h : Program M s.notified false p) (hout : Outside M D p) :
    Fits M D s p :=
  ⟨fun hin => absurd (h.side_unique hin) Bool.noConfusion, fun _ => hout⟩

theorem Fits.of_other {s s' : Shared σ} (hf : Fits M D s p) (hp : Program M s.notified b p)
    (hview : b = true → D.view s'.data = D.view s.data) : Fits M D s' p := by
  cases b with
  | true =>
    refine ⟨fun _ => ?_, fun h => absurd (hp.side_unique h) Bool.noConfusion⟩
    rw [hview rfl]
    exact hf.1 hp
  | false => exact ⟨fun h => absurd (hp.side_unique h) Bool.noConfusion, fun _ => hf.2 hp⟩

/-- What the thread that takes a step has still to do after it, and what the step leaves to the
others. -/
theorem perform_guards (hM : Disciplined M D) {s s' : Shared σ} {a : Act α ω} {i : ι × Bool}
    {rest new : List (Act α ω)} (hp : Program M s.notified b (a :: rest))
    (hb : b = true → s.locked = true) (hfree : s.locked = false → D.inv (D.view s.data))
    (hf : Fits M D s (a :: rest)) (h : perform M s a i = some (s', new)) :
    Fits M D s' (new ++ rest) ∧ (s'.locked = false → D.inv (D.view s'.data)) ∧
      (b = false → D.view s'.data = D.view s.data) := by
  cases hp with
  | running hp =>
    have hin : b = true → Settles M D (D.view s.data) (a :: rest) := by
      rintro rfl
      cases hf.1 (.running hp) with
      | running h => exact h
      | going _ deadline => exact absurd (.going deadline _) (hp.not_waits (n := 0))
    have hout : b = false → D.out (a :: rest) := by
      rintro rfl
      cases hf.2 (.running hp) with
      | running _ h => exact h
      | gone _ deadline since => exact absurd (.gone deadline _) (hp.not_waits (n := since))
    cases hp with
    | lock hrest =>
      obtain ⟨htaken, h⟩ := Option.ite_none_left_eq_some.1 h
      obtain ⟨rfl, rfl⟩ := Prod.mk.inj (Option.some.inj h)
      have hJ := hfree (Bool.eq_false_iff.2 htaken)
      exact ⟨.of_inside (.running hrest) (.running (hM.lock (hout rfl) hJ)), nofun, fun _ => rfl⟩
    | unlock hrest =>
      obtain ⟨rfl, rfl⟩ := Prod.mk.inj (Option.some.inj h)
      cases hin rfl with
      | unlock hJ hleft => exact ⟨.of_outside (.running hrest) (.running hrest hleft), fun _ => hJ, fun _ => rfl⟩
    | notifyAll hrest =>
      obtain ⟨rfl, rfl⟩ := Prod.mk.inj (Option.some.inj h)
      refine ⟨?_, hfree, fun _ => rfl⟩
      cases b with
      | true =>
        cases hin rfl with
        | notifyAll hleft => exact .of_inside (.running hrest) (.running hleft)
      | false => exact .of_outside (.running hrest) (.running hrest (hM.notifyAll (hout rfl)))
    | act a hrest =>
      obtain ⟨r, hr, h⟩ := Option.map_eq_some_iff.1 h
      obtain ⟨rfl, rfl⟩ := Prod.mk.inj h
      have hafter := (hM.segment hr).append hrest
      cases hside : M.before a with
      | true =>
        rw [hside] at hafter
        cases hin hside with
        | act _ _ hnext =>
          have hleft := hnext _ _ _ _ _ rfl hr
          refine ⟨.of_inside (.running hafter) (.running hleft), fun hopen => ?_, nofun⟩
          exact absurd ((hb hside).symm.trans hopen) Bool.noConfusion
      | false =>
        rw [hside] at hafter
        obtain ⟨hleft, hview⟩ := hM.act (hout hside) hside hr
        exact ⟨.of_outside (.running hafter) (.running hafter hleft), fun hopen => hview ▸ hfree hopen,
          fun _ => hview⟩
    | check w deadline hrest =>
      obtain ⟨rfl, rfl⟩ := Prod.mk.inj (Option.some.inj h)
      cases hin rfl with
      | check _ _ hJ hleft =>
        refine ⟨?_, hfree, fun _ => rfl⟩
        split
        · exact .of_inside (.running hrest) (.running (hleft _ hJ))
        · exact .of_inside (.going w deadline hrest) (.going w deadline hJ hleft)
  | going w deadline hrest =>
    obtain ⟨rfl, rfl⟩ := Prod.mk.inj (Option.some.inj h)
    cases hf.1 (.going w deadline hrest) with
    | running h => cases h
    | going _ _ hJ hleft =>
      exact ⟨.of_outside (.gone w deadline le_rfl hrest) (.gone w deadline _ hleft), fun _ => hJ, fun _ => rfl⟩
  | gone w deadline hsince hrest =>
    obtain ⟨htaken, h⟩ := Option.ite_none_left_eq_some.1 h
    have hJ := hfree (Bool.eq_false_iff.2 htaken)
    cases hf.2 (.gone w deadline hsince hrest) with
    | running hsegment => exact absurd (.gone deadline rest) hsegment.not_waits
    | gone _ _ _ hleft =>
      split at h
      · obtain ⟨rfl, rfl⟩ := Prod.mk.inj (Option.some.inj h)
        exact ⟨.of_inside (.running hrest) (.running (hleft _ hJ)), nofun, fun _ => rfl⟩
      · obtain ⟨-, h⟩ := Option.ite_none_right_eq_some.1 h
        obtain ⟨rfl, rfl⟩ := Prod.mk.inj (Option.some.inj h)
        exact ⟨.of_inside (.running (.check w deadline hrest)) (.running (.check w deadline hJ hleft)), nofun,
          fun _ => rfl⟩

/-- **One step** keeps the view guarded. -/
theorem guarded_step (hM : Disciplined M D) (hc : Guards M D c)
    (h : step M c l = some c') : Guards M D c' := by
  have hbracketed := bracketed_step hM.toBalanced hc.bracketed h
  have hall : ∀ (u : Nat) p, c.threads[u]? = some p → c.threads[u]? = some p := fun _ _ hu => hu
  cases l with
  | exec t i =>
    obtain ⟨a, rest, s', new, ht, hp, rfl⟩ := Interleave.exec_cases h
    obtain ⟨b, hb⟩ := hc.bracketed.programs _ (List.mem_of_getElem? ht)
    have htaken : b = true → c.shared.locked = true := fun hb' => hc.bracketed.locked ht (hb' ▸ hb)
    obtain ⟨hself, hfree, hothers⟩ := perform_guards hM hb htaken hc.free (hc.fits t _ ht) hp
    refine ⟨hbracketed, hfree, Interleave.forall_get_set hall (fun u q hu hq => ?_) hself⟩
    obtain ⟨e, he⟩ := hc.bracketed.programs q (List.mem_of_getElem? hq)
    refine (hc.fits u q hq).of_other he fun hinside => hothers ?_
    -- two threads cannot be inside
    rw [← Bool.not_eq_true]
    rintro rfl
    exact hu (hc.bracketed.exclusive hq ht (hinside ▸ he) hb)
  | call t k => exact k.elim
  | env ev =>
    cases ev with
    | tick elapsed =>
      obtain rfl := tick_cases h
      exact ⟨hbracketed, hc.free, hc.fits⟩
    | enter t k =>
      obtain ⟨s', new, ht, hk, rfl⟩ := enter_cases h
      obtain ⟨hnew, hview⟩ := hM.enters hk
      refine ⟨hbracketed, fun hopen => hview ▸ hc.free hopen, Interleave.forall_get_set hall
        (fun u q _ hq => ?_) (.of_outside (.running (hM.entry hk)) (.running (hM.entry hk) hnew))⟩
      obtain ⟨e, he⟩ := hc.bracketed.programs q (List.mem_of_getElem? hq)
      exact (hc.fits u q hq).of_other he fun _ => hview

theorem Guards.pre (hc : Guards M D c) {t : Nat} {a : α} {rest : List (Act α ω)}
    (ht : c.threads[t]? = some (.act a :: rest)) (ha : M.before a = true) : D.pre (D.view c.shared.data) a := by
  obtain ⟨b, hb⟩ := hc.bracketed.programs _ (List.mem_of_getElem? ht)
  cases hb with
  | running hsegment =>
    have hinside : Program M c.shared.notified true (.act a :: rest) := by
      cases hsegment with
      | act _ hrest =>
        rw [← ha]
        exact .running (.act a hrest)
    cases (hc.fits t _ ht).1 hinside with
    | running hsettles =>
      cases hsettles with
      | act _ hpre _ => exact hpre

theorem guarded_start (hfree : c.shared.locked = false) (hJ : D.inv (D.view c.shared.data))
    (hp : ∀ p ∈ c.threads, Segment M false false p ∧ D.out p) : Guards M D c := by
  refine ⟨bracketed_start hfree fun p hin => (hp p hin).1, fun _ => hJ, fun t p ht => ?_⟩
  obtain ⟨hsegment, hout⟩ := hp p (List.mem_of_getElem? ht)
  exact .of_outside (.running hsegment) (.running hsegment hout)

end Tombstone.Monitor
