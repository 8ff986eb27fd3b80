import Mathlib.Algebra.Ring.Nat
import Mathlib.Logic.Basic

/- Runs of a partial step function, and the rules for proving facts about them.

   A system is a function `step : σ → α → Option σ`: the label carries every choice the
   environment makes, and `none` means the label is not enabled. This file

   1. defines runs (`run`), reachability (`Reachable`), and the two shapes a statement
      about a run takes: every state it passes satisfies `P` (`AllStates`), and every
      step it takes satisfies `C` (`AllSteps`);
   2. proves the invariant rule (`run_inv`), and its form under a condition on the
      steps (`run_inv_of_steps`, `allStates_of_steps`);
   3. proves the rule for exact conditions: where the law survives a step just when the
      step meets the condition, a run keeps the law in every state just when all its
      steps meet it (`allStates_iff_allSteps`);
   4. proves the unless rule: a fact every step keeps, unless it is a release, survives
      a run without a release (`run_unless`);
   5. collects what a run's steps show (`trace`), and bounds it by an amortised account
      (`trace_amortised`). -/
namespace Tombstone.Run

variable {σ α : Type} {step : σ → α → Option σ}

/-- The state a list of labels leads to, or `none` where a label is not enabled. -/
def run (step : σ → α → Option σ) : σ → List α → Option σ
  | s, [] => some s
  | s, a :: as => (step s a).bind (fun s' => run step s' as)

/-- The states some run from an initial state ends in. -/
def Reachable (step : σ → α → Option σ) (init : σ → Prop) (s : σ) : Prop :=
  ∃ s₀ as, init s₀ ∧ run step s₀ as = some s

/-- Every state the run passes satisfies `P`, the first and the last included. -/
def AllStates (step : σ → α → Option σ) (P : σ → Prop) : σ → List α → Prop
  | s, [] => P s
  | s, a :: as => P s ∧ ∀ s', step s a = some s' → AllStates step P s' as

/-- Every step the run takes satisfies `C`. -/
def AllSteps (step : σ → α → Option σ) (C : σ → α → σ → Prop) : σ → List α → Prop
  | _, [] => True
  | s, a :: as => ∀ s', step s a = some s' → C s a s' ∧ AllSteps step C s' as

@[simp] theorem run_nil (s : σ) : run step s [] = some s := rfl

theorem run_cons_some {s s' : σ} {a : α} {as : List α} :
    run step s (a :: as) = some s' ↔ ∃ u, step s a = some u ∧ run step u as = some s' := by
  simp only [run, Option.bind_eq_some_iff]

theorem run_append_some {s s' : σ} {as bs : List α} :
    run step s (as ++ bs) = some s' ↔
      ∃ u, run step s as = some u ∧ run step u bs = some s' := by
  induction as generalizing s with
  | nil => simp
  | cons a as ih =>
    rw [List.cons_append, run_cons_some]
    constructor
    · rintro ⟨u, hu, hrest⟩
      obtain ⟨v, hv, hbs⟩ := ih.mp hrest
      exact ⟨v, run_cons_some.mpr ⟨u, hu, hv⟩, hbs⟩
    · rintro ⟨v, hv, hbs⟩
      obtain ⟨u, hu, has⟩ := run_cons_some.mp hv
      exact ⟨u, hu, ih.mpr ⟨v, has, hbs⟩⟩

theorem Reachable.start {init : σ → Prop} {s : σ} (h : init s) : Reachable step init s :=
  ⟨s, [], h, rfl⟩

theorem Reachable.extend {init : σ → Prop} {s s' : σ} {as : List α}
    (h : Reachable step init s) (hr : run step s as = some s') : Reachable step init s' := by
  obtain ⟨s₀, bs, h₀, hb⟩ := h
  exact ⟨s₀, bs ++ as, h₀, run_append_some.mpr ⟨s, hb, hr⟩⟩

theorem Reachable.next {init : σ → Prop} {s s' : σ} {a : α}
    (h : Reachable step init s) (hs : step s a = some s') : Reachable step init s' := by
  have hr : run step s [a] = some s' := run_cons_some.mpr ⟨s', hs, rfl⟩
  exact h.extend hr

/-! ## Invariants -/

/-- **The invariant rule under a condition.** A predicate that every step meeting `C`
preserves holds at the end of a run whose steps all meet `C`. -/
theorem run_inv_of_steps {I : σ → Prop} {C : σ → α → σ → Prop}
    (hstep : ∀ s a s', I s → step s a = some s' → C s a s' → I s') :
    ∀ (as : List α) (s s' : σ), I s → AllSteps step C s as → run step s as = some s' → I s' := by
  intro as
  induction as with
  | nil =>
    intro s s' hI _ hr
    simp only [run_nil, Option.some.injEq] at hr
    exact hr ▸ hI
  | cons a as ih =>
    intro s s' hI hC hr
    obtain ⟨u, hu, hrest⟩ := run_cons_some.mp hr
    obtain ⟨hc, hC'⟩ := hC u hu
    exact ih u s' (hstep s a u hI hu hc) hC' hrest

theorem allSteps_true (as : List α) (s : σ) : AllSteps step (fun _ _ _ => True) s as := by
  induction as generalizing s with
  | nil => trivial
  | cons a as ih => exact fun s' _ => ⟨trivial, ih s'⟩

instance decidableAllSteps {C : σ → α → σ → Prop} [∀ s a s', Decidable (C s a s')] :
    ∀ (as : List α) (s : σ), Decidable (AllSteps step C s as)
  | [], _ => .isTrue trivial
  | a :: as, s =>
    match h : step s a with
    | none => .isTrue (by simp [AllSteps, h])
    | some s' =>
      have := decidableAllSteps (C := C) as s'
      decidable_of_iff (C s a s' ∧ AllSteps step C s' as) (by simp [AllSteps, h])

instance decidableAllStates {P : σ → Prop} [∀ s, Decidable (P s)] :
    ∀ (as : List α) (s : σ), Decidable (AllStates step P s as)
  | [], s => inferInstanceAs (Decidable (P s))
  | a :: as, s =>
    match h : step s a with
    | none => decidable_of_iff (P s) (by simp [AllStates, h])
    | some s' =>
      have := decidableAllStates (P := P) as s'
      decidable_of_iff (P s ∧ AllStates step P s' as) (by simp [AllStates, h])

theorem allSteps_of_labels {C : σ → α → σ → Prop} : ∀ {as : List α} {s : σ},
    (∀ a ∈ as, ∀ s s', C s a s') → AllSteps step C s as
  | [], _, _ => trivial
  | a :: _, s, h => fun s' _ => ⟨h a List.mem_cons_self s s',
      allSteps_of_labels fun b hb => h b (List.mem_cons_of_mem a hb)⟩

theorem AllStates.last {P : σ → Prop} : ∀ {as : List α} {s s' : σ},
    AllStates step P s as → run step s as = some s' → P s'
  | [], s, s', h, hr => by
    simp only [run_nil, Option.some.injEq] at hr
    exact hr ▸ h
  | a :: as, s, s', h, hr => by
    obtain ⟨u, hu, hrest⟩ := run_cons_some.mp hr
    exact (h.2 u hu).last hrest

theorem AllSteps.mono {C D : σ → α → σ → Prop} (hCD : ∀ s a s', C s a s' → D s a s') :
    ∀ {as : List α} {s : σ}, AllSteps step C s as → AllSteps step D s as
  | [], _, _ => trivial
  | a :: _, s, h => fun s' hs => ⟨hCD s a s' (h s' hs).1, (h s' hs).2.mono hCD⟩

theorem AllSteps.and {C D : σ → α → σ → Prop} : ∀ {as : List α} {s : σ},
    AllSteps step C s as → AllSteps step D s as → AllSteps step (fun s a s' => C s a s' ∧ D s a s') s as
  | [], _, _, _ => trivial
  | _ :: _, _, hC, hD => fun s' hs => ⟨⟨(hC s' hs).1, (hD s' hs).1⟩, (hC s' hs).2.and (hD s' hs).2⟩

/-- The last step of a run is one of its steps. -/
theorem AllSteps.last {C : σ → α → σ → Prop} : ∀ {as : List α} {a : α} {s u v : σ},
    AllSteps step C s (as ++ [a]) → run step s as = some u → step u a = some v → C u a v
  | [], a, s, u, v, h, hr, hs => by
    simp only [run_nil, Option.some.injEq] at hr
    subst hr
    exact (h v hs).1
  | b :: as, a, s, u, v, h, hr, hs => by
    obtain ⟨w, hw, hrest⟩ := run_cons_some.mp hr
    exact AllSteps.last (h w hw).2 hrest hs

/-- **The invariant rule.** -/
theorem run_inv {I : σ → Prop} (hstep : ∀ s a s', I s → step s a = some s' → I s')
    {as : List α} {s s' : σ} (hI : I s) (hr : run step s as = some s') : I s' :=
  run_inv_of_steps (C := fun _ _ _ => True) (fun s a s' h hs _ => hstep s a s' h hs)
    as s s' hI (allSteps_true as s) hr

theorem reachable_inv {I init : σ → Prop} (h₀ : ∀ s, init s → I s)
    (hstep : ∀ s a s', I s → step s a = some s' → I s') {s : σ}
    (h : Reachable step init s) : I s := by
  obtain ⟨s₀, as, hi, hr⟩ := h
  exact run_inv hstep (h₀ s₀ hi) hr

/-- A run whose steps all meet `C` passes only states of an invariant `C` preserves. -/
theorem allStates_of_steps {I P : σ → Prop} {C : σ → α → σ → Prop}
    (hstep : ∀ s a s', I s → step s a = some s' → C s a s' → I s') (hP : ∀ s, I s → P s) :
    ∀ (as : List α) (s : σ), I s → AllSteps step C s as → AllStates step P s as := by
  intro as
  induction as with
  | nil => exact fun s hI _ => hP s hI
  | cons a as ih =>
    intro s hI hC
    refine ⟨hP s hI, fun s' hs => ?_⟩
    obtain ⟨hc, hC'⟩ := hC s' hs
    exact ih s' (hstep s a s' hI hs hc) hC'

/-- Every step of a run from an invariant's state satisfies what one step from such a
state satisfies. -/
theorem allSteps_of_inv {I : σ → Prop} {C D : σ → α → σ → Prop}
    (hstep : ∀ s a s', I s → step s a = some s' → C s a s' → I s')
    (hD : ∀ s a s', I s → step s a = some s' → C s a s' → D s a s') :
    ∀ (as : List α) (s : σ), I s → AllSteps step C s as → AllSteps step D s as := by
  intro as
  induction as with
  | nil => exact fun _ _ _ => trivial
  | cons a as ih =>
    intro s hI hC s' hs
    obtain ⟨hc, hC'⟩ := hC s' hs
    exact ⟨hD s a s' hI hs hc, ih s' (hstep s a s' hI hs hc) hC'⟩

/-! ## Exact conditions -/

/-- **The rule for exact conditions.** Where the invariant `I` holds on every run whose labels
are admitted, and a law survives an admitted step exactly when the step meets `C`, the law
holds in every state of such a run exactly when every step of the run meets `C`. -/
theorem allStates_iff_allSteps_of_labels {A : α → Prop} {I L : σ → Prop} {C : σ → α → σ → Prop}
    (hI : ∀ s a s', A a → I s → step s a = some s' → I s')
    (hL : ∀ s a s', A a → I s → L s → step s a = some s' → (L s' ↔ C s a s')) :
    ∀ (as : List α) (s : σ), (∀ a ∈ as, A a) → I s → L s →
      (AllStates step L s as ↔ AllSteps step C s as) := by
  intro as
  induction as with
  | nil => exact fun s _ _ hl => ⟨fun _ => trivial, fun _ => hl⟩
  | cons a as ih =>
    intro s hA hi hl
    have ha := hA a List.mem_cons_self
    have has : ∀ b ∈ as, A b := fun b hb => hA b (List.mem_cons_of_mem a hb)
    constructor
    · rintro ⟨-, hrest⟩ s' hs
      have hs' := hrest s' hs
      have hl' : L s' := by
        cases as with
        | nil => exact hs'
        | cons b bs => exact hs'.1
      exact ⟨(hL s a s' ha hi hl hs).mp hl', (ih s' has (hI s a s' ha hi hs) hl').mp hs'⟩
    · intro hC
      refine ⟨hl, fun s' hs => ?_⟩
      obtain ⟨hc, hrest⟩ := hC s' hs
      have hl' := (hL s a s' ha hi hl hs).mpr hc
      exact (ih s' has (hI s a s' ha hi hs) hl').mpr hrest

theorem allStates_iff_allSteps {I L : σ → Prop} {C : σ → α → σ → Prop}
    (hI : ∀ s a s', I s → step s a = some s' → I s')
    (hL : ∀ s a s', I s → L s → step s a = some s' → (L s' ↔ C s a s')) :
    ∀ (as : List α) (s : σ), I s → L s → (AllStates step L s as ↔ AllSteps step C s as) :=
  fun as s => allStates_iff_allSteps_of_labels (A := fun _ => True)
    (fun s a s' _ => hI s a s') (fun s a s' _ => hL s a s') as s fun _ _ => trivial

/-- Two step conditions that agree under an invariant agree along every run from it. -/
theorem allSteps_congr {I : σ → Prop} {C D : σ → α → σ → Prop}
    (hI : ∀ s a s', I s → step s a = some s' → I s')
    (hCD : ∀ s a s', I s → step s a = some s' → (C s a s' ↔ D s a s')) :
    ∀ (as : List α) (s : σ), I s → (AllSteps step C s as ↔ AllSteps step D s as) := by
  intro as
  induction as with
  | nil => exact fun _ _ => Iff.rfl
  | cons a as ih =>
    intro s hi
    constructor
    · intro h s' hs
      exact ⟨(hCD s a s' hi hs).mp (h s' hs).1, (ih s' (hI s a s' hi hs)).mp (h s' hs).2⟩
    · intro h s' hs
      exact ⟨(hCD s a s' hi hs).mpr (h s' hs).1, (ih s' (hI s a s' hi hs)).mpr (h s' hs).2⟩

/-! ## Facts that hold until a release -/

/-- **The unless rule.** A fact that every step keeps unless the step is a release
survives every run without a release. -/
theorem run_unless {I P : σ → Prop} {R : σ → α → Prop}
    (hI : ∀ s a s', I s → step s a = some s' → I s')
    (hP : ∀ s a s', I s → P s → ¬ R s a → step s a = some s' → P s')
    {as : List α} {s s' : σ} (hi : I s) (hp : P s)
    (hR : AllSteps step (fun s a _ => ¬ R s a) s as) (hr : run step s as = some s') : P s' := by
  have := run_inv_of_steps (I := fun s => I s ∧ P s) (C := fun s a _ => ¬ R s a)
    (fun s a s' h hs hn => ⟨hI s a s' h.1 hs, hP s a s' h.1 h.2 hn hs⟩) as s s' ⟨hi, hp⟩ hR hr
  exact this.2

/-! ## Traces -/

section Trace

variable {β : Type}

/-- What the steps of a run show, in their order. -/
def trace (step : σ → α → Option σ) (f : σ → α → List β) : σ → List α → List β
  | _, [] => []
  | s, a :: as => ((step s a).map fun s' => f s a ++ trace step f s' as).getD []

@[simp] theorem trace_nil (f : σ → α → List β) (s : σ) : trace step f s [] = [] := rfl

theorem trace_cons {f : σ → α → List β} {s s' : σ} {a : α} (h : step s a = some s') (as : List α) :
    trace step f s (a :: as) = f s a ++ trace step f s' as := by
  rw [trace, h]
  rfl

theorem trace_append {f : σ → α → List β} {s u : σ} {as : List α} (h : run step s as = some u)
    (bs : List α) : trace step f s (as ++ bs) = trace step f s as ++ trace step f u bs := by
  induction as generalizing s with
  | nil =>
    obtain rfl : s = u := Option.some.inj h
    rfl
  | cons a as ih =>
    obtain ⟨v, hv, hrest⟩ := run_cons_some.mp h
    rw [List.cons_append, trace_cons hv, trace_cons hv, ih hrest, List.append_assoc]

theorem trace_step {f : σ → α → List β} {s s' : σ} {a : α} (h : step s a = some s') :
    trace step f s [a] = f s a := by
  rw [trace_cons h, trace_nil, List.append_nil]

/-- **Amortised accounting**: where no step under the invariant shows more than it takes from the
work that is left, together with what it is allowed, a run shows no more than the work it began with
and what its steps were allowed. -/
theorem trace_amortised {I : σ → Prop} {A : α → Prop} {f : σ → α → List β} {allowed : σ → α → Nat}
    {work : σ → Nat} (hstep : ∀ s a s', A a → I s → step s a = some s' →
      I s' ∧ work s' + (f s a).length ≤ work s + allowed s a) :
    ∀ {as : List α} {s s' : σ}, I s → (∀ a ∈ as, A a) → run step s as = some s' →
      work s' + (trace step f s as).length ≤
        work s + (trace step (fun s a => [allowed s a]) s as).sum
  | [], s, s', _, _, h => by
    obtain rfl : s = s' := Option.some.inj h
    simp
  | a :: as, s, s', hs, hA, h => by
    obtain ⟨u, hu, hrest⟩ := run_cons_some.mp h
    obtain ⟨hinv, hone⟩ := hstep s a u (hA a List.mem_cons_self) hs hu
    have hall := trace_amortised hstep hinv (fun b hb => hA b (List.mem_cons_of_mem a hb)) hrest
    simp only [trace_cons hu, List.length_append, List.singleton_append, List.sum_cons]
    omega

end Trace

end Tombstone.Run
