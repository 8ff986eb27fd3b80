import Mathlib.Algebra.BigOperators.Group.List.Basic
import Mathlib.Algebra.Order.BigOperators.Group.List
import Mathlib.Algebra.Order.Group.Nat
import Mathlib.Algebra.Order.Group.Multiset
import Tombstone.Run

/- Threads over a shared state, interleaved at the granularity of atomic actions.

   A thread is the list of the atomic actions it still has to take; an action may put
   further actions in front of what remains, which is how calls, branches and loops are
   written. This file

   1. defines the machine (`Machine`), its configurations and its step (`step`): a thread
      takes its next action, a call enters on an idle thread, or the environment acts on
      the configuration as a whole;
   2. proves what a step can be (`step_cases`), once;
   3. proves the invariant rules: an invariant of the shared state together with a
      predicate on what every thread still has to do (`Inv`, `inv_step`), and the same with
      the predicate given action by action (`ActInv`, `actInv_step`);
   4. adds up over the shared state and all threads (`total`): a step of one thread changes
      its own share and leaves the rest as a frame (`total_exec`, `total_call`). -/
namespace Tombstone.Interleave

/-- What the threads run on: `perform` takes one action under an input of the environment
and says which actions follow it, `call` enters an operation on the idle thread of that
number, `env` is everything that is not a thread's own step. `none` means not enabled. -/
structure Machine (σ α ι κ ε : Type) where
  perform : σ → α → ι → Option (σ × List α)
  call : σ → Nat → κ → Option (σ × List α)
  env : σ × List (List α) → ε → Option (σ × List (List α))

/-- The shared state, and for each thread the actions it still has to take. -/
structure Config (σ α : Type) where
  shared : σ
  threads : List (List α)

inductive Label (ι κ ε : Type) where
  | exec (thread : Nat) (input : ι)
  | call (thread : Nat) (entry : κ)
  | env (event : ε)

variable {σ α ι κ ε : Type}

def step (M : Machine σ α ι κ ε) (c : Config σ α) : Label ι κ ε → Option (Config σ α)
  | .exec t i =>
    match c.threads[t]? with
    | some (a :: rest) =>
      (M.perform c.shared a i).map fun r => ⟨r.1, c.threads.set t (r.2 ++ rest)⟩
    | _ => none
  | .call t k =>
    match c.threads[t]? with
    | some [] => (M.call c.shared t k).map fun r => ⟨r.1, c.threads.set t r.2⟩
    | _ => none
  | .env e => (M.env (c.shared, c.threads) e).map fun r => ⟨r.1, r.2⟩

/-- The action the label takes, if it takes one. -/
def acting (c : Config σ α) : Label ι κ ε → Option α
  | .exec t _ => (c.threads[t]?).bind List.head?
  | _ => none

variable {M : Machine σ α ι κ ε} {c c' : Config σ α} {l : Label ι κ ε}

theorem acting_exec {t : Nat} {i : ι} {a : α} {rest : List α} (ht : c.threads[t]? = some (a :: rest)) :
    acting c (.exec t i : Label ι κ ε) = some a := by
  simp [acting, ht]

/-- The action a label takes is one that its thread has still to take. -/
theorem acting_held {a : α} (h : acting c l = some a) : ∃ p ∈ c.threads, a ∈ p := by
  cases l with
  | exec t i =>
    obtain ⟨p, ht, hp⟩ := Option.bind_eq_some_iff.mp h
    exact ⟨p, List.mem_of_getElem? ht, List.mem_of_mem_head? hp⟩
  | call t k => cases h
  | env e => cases h

theorem exec_cases {t : Nat} {i : ι} (h : step M c (.exec t i) = some c') :
    ∃ a rest s' new, c.threads[t]? = some (a :: rest) ∧
      M.perform c.shared a i = some (s', new) ∧ c' = ⟨s', c.threads.set t (new ++ rest)⟩ := by
  simp only [step] at h
  split at h
  · rename_i a rest ht
    obtain ⟨⟨s', new⟩, hp, rfl⟩ := Option.map_eq_some_iff.mp h
    exact ⟨a, rest, s', new, ht, hp, rfl⟩
  · cases h

theorem call_cases {t : Nat} {k : κ} (h : step M c (.call t k) = some c') :
    ∃ s' new, c.threads[t]? = some [] ∧ M.call c.shared t k = some (s', new) ∧
      c' = ⟨s', c.threads.set t new⟩ := by
  simp only [step] at h
  split at h
  · rename_i ht
    obtain ⟨⟨s', new⟩, hp, rfl⟩ := Option.map_eq_some_iff.mp h
    exact ⟨s', new, ht, hp, rfl⟩
  · cases h

theorem env_cases {e : ε} (h : step M c (.env e) = some c') :
    M.env (c.shared, c.threads) e = some (c'.shared, c'.threads) := by
  obtain ⟨⟨s', ps⟩, hp, rfl⟩ := Option.map_eq_some_iff.mp h
  exact hp

/-- **What a step can be.** -/
theorem step_cases (h : step M c l = some c') :
    (∃ t i a rest s' new, l = .exec t i ∧ c.threads[t]? = some (a :: rest) ∧
      M.perform c.shared a i = some (s', new) ∧ c' = ⟨s', c.threads.set t (new ++ rest)⟩) ∨
    (∃ t k s' new, l = .call t k ∧ c.threads[t]? = some [] ∧
      M.call c.shared t k = some (s', new) ∧ c' = ⟨s', c.threads.set t new⟩) ∨
    (∃ e, l = .env e ∧ M.env (c.shared, c.threads) e = some (c'.shared, c'.threads)) := by
  cases l with
  | exec t i =>
    obtain ⟨a, rest, s', new, ht, hp, rfl⟩ := exec_cases h
    exact .inl ⟨t, i, a, rest, s', new, rfl, ht, hp, rfl⟩
  | call t k =>
    obtain ⟨s', new, ht, hp, rfl⟩ := call_cases h
    exact .inr (.inl ⟨t, k, s', new, rfl, ht, hp, rfl⟩)
  | env e => exact .inr (.inr ⟨e, rfl, env_cases h⟩)

/-! ## Following one thread -/

theorem run_exec_zero (s : σ) (a : α) (rest : List α) (ps : List (List α)) (i : ι)
    (ls : List (Label ι κ ε)) :
    Run.run (step M) ⟨s, (a :: rest) :: ps⟩ (.exec 0 i :: ls) =
      (M.perform s a i).bind fun r => Run.run (step M) ⟨r.1, (r.2 ++ rest) :: ps⟩ ls := by
  show ((M.perform s a i).map _).bind _ = _
  rw [Option.bind_map]
  rfl

theorem run_exec_one (s : σ) (p : List α) (a : α) (rest : List α) (ps : List (List α)) (i : ι)
    (ls : List (Label ι κ ε)) :
    Run.run (step M) ⟨s, p :: (a :: rest) :: ps⟩ (.exec 1 i :: ls) =
      (M.perform s a i).bind fun r => Run.run (step M) ⟨r.1, p :: (r.2 ++ rest) :: ps⟩ ls := by
  show ((M.perform s a i).map _).bind _ = _
  rw [Option.bind_map]
  rfl

theorem step_exec_last (s : σ) (ps : List (List α)) (a : α) (rest : List α) (i : ι) :
    step M ⟨s, ps ++ [a :: rest]⟩ (.exec ps.length i) =
      (M.perform s a i).map fun r => ⟨r.1, ps ++ [r.2 ++ rest]⟩ := by
  simp [step]

theorem step_call_last (s : σ) (ps : List (List α)) (k : κ) :
    step M ⟨s, ps ++ [[]]⟩ (.call ps.length k) =
      (M.call s ps.length k).map fun r => ⟨r.1, ps ++ [r.2]⟩ := by
  simp [step]

/-! ## Invariants -/

/-- `I` holds of the shared state, and `P` of what every thread still has to do. -/
structure Inv (I : σ → Prop) (P : σ → Nat → List α → Prop) (c : Config σ α) : Prop where
  shared : I c.shared
  threads : ∀ t p, c.threads[t]? = some p → P c.shared t p

/-- Replacing one thread's program keeps a predicate on all of them. -/
theorem forall_get_set {P Q : Nat → List α → Prop} {ps : List (List α)} {t : Nat} {x : List α}
    (h : ∀ u p, ps[u]? = some p → P u p) (hPQ : ∀ u p, u ≠ t → P u p → Q u p) (hx : Q t x) :
    ∀ u p, (ps.set t x)[u]? = some p → Q u p := by
  intro u p hp
  rw [List.getElem?_set] at hp
  split at hp
  · rename_i htu
    split at hp
    · simp only [Option.some.injEq] at hp
      exact hp ▸ htu ▸ hx
    · cases hp
  · rename_i htu
    exact hPQ u p (Ne.symm htu) (h u p hp)

/-- **The invariant rule for threads.** It is enough to look at one action against the
thread that takes it, and to see that no action breaks what the others rely on. -/
theorem inv_step {I : σ → Prop} {P : σ → Nat → List α → Prop}
    (hexec : ∀ s t a rest i s' new, I s → P s t (a :: rest) → M.perform s a i = some (s', new) →
      I s' ∧ P s' t (new ++ rest) ∧ ∀ u q, u ≠ t → P s u q → P s' u q)
    (hcall : ∀ s t k s' new, I s → P s t [] → M.call s t k = some (s', new) →
      I s' ∧ P s' t new ∧ ∀ u q, u ≠ t → P s u q → P s' u q)
    (henv : ∀ s ps e s' ps', I s → (∀ t p, ps[t]? = some p → P s t p) →
      M.env (s, ps) e = some (s', ps') → I s' ∧ ∀ t p, ps'[t]? = some p → P s' t p)
    (hc : Inv I P c) (h : step M c l = some c') : Inv I P c' := by
  rcases step_cases h with ⟨t, i, a, rest, s', new, rfl, ht, hp, rfl⟩ |
    ⟨t, k, s', new, rfl, ht, hp, rfl⟩ | ⟨e, rfl, he⟩
  · obtain ⟨hI, hP, hst⟩ := hexec _ t a rest i s' new hc.shared (hc.threads t _ ht) hp
    exact ⟨hI, forall_get_set hc.threads hst hP⟩
  · obtain ⟨hI, hP, hst⟩ := hcall _ t k s' new hc.shared (hc.threads t _ ht) hp
    exact ⟨hI, forall_get_set hc.threads hst hP⟩
  · obtain ⟨hI, hP⟩ := henv _ _ e _ _ hc.shared hc.threads he
    exact ⟨hI, hP⟩

/-- `I` holds of the shared state, and `A` of every action still to be taken. -/
def ActInv (I : σ → Prop) (A : σ → α → Prop) (c : Config σ α) : Prop :=
  Inv I (fun s _ p => ∀ a ∈ p, A s a) c

theorem ActInv.act {I : σ → Prop} {A : σ → α → Prop} (hc : ActInv I A c) {p : List α}
    (hp : p ∈ c.threads) {a : α} (ha : a ∈ p) : A c.shared a := by
  obtain ⟨t, ht⟩ := List.mem_iff_getElem?.mp hp
  exact hc.threads t p ht a ha

theorem ActInv.exec {I : σ → Prop} {A : σ → α → Prop} (hc : ActInv I A c) {t : Nat} {a : α}
    {rest new : List α} {s' : σ} (ht : c.threads[t]? = some (a :: rest)) (hI : I s')
    (hnew : ∀ b ∈ new, A s' b)
    (hkeep : ∀ p ∈ c.threads, ∀ b ∈ p, A c.shared b → A s' b) :
    ActInv I A ⟨s', c.threads.set t (new ++ rest)⟩ := by
  have hold : ∀ p ∈ c.threads, ∀ b ∈ p, A s' b := fun p hp b hb => hkeep p hp b hb (hc.act hp hb)
  refine ⟨hI, fun u p hp => ?_⟩
  rcases List.mem_or_eq_of_mem_set (List.mem_of_getElem? hp) with hmem | rfl
  · exact hold p hmem
  · refine List.forall_mem_append.mpr ⟨hnew, fun b hb => ?_⟩
    exact hold _ (List.mem_of_getElem? ht) b (List.mem_cons_of_mem a hb)

theorem ActInv.call {I : σ → Prop} {A : σ → α → Prop} (hc : ActInv I A c) {t : Nat}
    {new : List α} {s' : σ} (hI : I s') (hnew : ∀ b ∈ new, A s' b)
    (hkeep : ∀ p ∈ c.threads, ∀ b ∈ p, A c.shared b → A s' b) :
    ActInv I A ⟨s', c.threads.set t new⟩ := by
  refine ⟨hI, fun u p hp => ?_⟩
  rcases List.mem_or_eq_of_mem_set (List.mem_of_getElem? hp) with hmem | rfl
  · exact fun b hb => hkeep p hmem b hb (hc.act hmem hb)
  · exact hnew

theorem actInv_step {I : σ → Prop} {A : σ → α → Prop}
    (hexec : ∀ s a i s' new, I s → A s a → M.perform s a i = some (s', new) →
      I s' ∧ (∀ b ∈ new, A s' b) ∧ ∀ b, A s b → A s' b)
    (hcall : ∀ s t k s' new, I s → M.call s t k = some (s', new) →
      I s' ∧ (∀ b ∈ new, A s' b) ∧ ∀ b, A s b → A s' b)
    (henv : ∀ s ps e s' ps', I s → (∀ p ∈ ps, ∀ a ∈ p, A s a) → M.env (s, ps) e = some (s', ps') →
      I s' ∧ ∀ p ∈ ps', ∀ a ∈ p, A s' a)
    (hc : ActInv I A c) (h : step M c l = some c') : ActInv I A c' := by
  refine inv_step ?_ ?_ ?_ hc h
  · intro s t a rest i s' new hI hP hp
    obtain ⟨hI', hnew, hst⟩ := hexec s a i s' new hI (hP a List.mem_cons_self) hp
    refine ⟨hI', fun b hb => ?_, fun u q _ hq b hb => hst b (hq b hb)⟩
    rcases List.mem_append.mp hb with hb | hb
    · exact hnew b hb
    · exact hst b (hP b (List.mem_cons_of_mem a hb))
  · intro s t k s' new hI _ hp
    obtain ⟨hI', hnew, hst⟩ := hcall s t k s' new hI hp
    exact ⟨hI', hnew, fun u q _ hq b hb => hst b (hq b hb)⟩
  · intro s ps e s' ps' hI hps he
    have hmem : ∀ p ∈ ps, ∀ a ∈ p, A s a := by
      intro p hp
      obtain ⟨t, ht⟩ := List.mem_iff_getElem?.mp hp
      exact hps t p ht
    obtain ⟨hI', hnew⟩ := henv s ps e s' ps' hI hmem he
    exact ⟨hI', fun t p ht => hnew p (List.mem_of_getElem? ht)⟩

/-- An action that some thread has still to take stays one until it is taken. -/
theorem held_exec {t : Nat} {a b : α} {rest : List α} (hb : ∃ p ∈ c.threads, b ∈ p)
    (ht : c.threads[t]? = some (a :: rest)) (hne : b ≠ a) (new : List α) :
    ∃ p ∈ c.threads.set t (new ++ rest), b ∈ p := by
  obtain ⟨p, hp, hbp⟩ := hb
  obtain ⟨u, hu⟩ := List.mem_iff_getElem?.mp hp
  by_cases htu : t = u
  · subst htu
    rw [ht] at hu
    cases hu
    have hlt : t < c.threads.length := (List.getElem?_eq_some_iff.mp ht).1
    refine ⟨new ++ rest, List.mem_set hlt _, List.mem_append_right new ?_⟩
    exact (List.mem_cons.mp hbp).resolve_left hne
  · refine ⟨p, List.mem_of_getElem? (i := u) ?_, hbp⟩
    rw [List.getElem?_set_ne htu]
    exact hu

theorem held_call {t : Nat} {b : α} (hb : ∃ p ∈ c.threads, b ∈ p) (ht : c.threads[t]? = some [])
    (new : List α) : ∃ p ∈ c.threads.set t new, b ∈ p := by
  obtain ⟨p, hp, hbp⟩ := hb
  obtain ⟨u, hu⟩ := List.mem_iff_getElem?.mp hp
  refine ⟨p, List.mem_of_getElem? (i := u) ?_, hbp⟩
  rw [List.getElem?_set_ne, hu]
  rintro rfl
  rw [ht] at hu
  cases hu
  cases hbp

theorem held_new {t : Nat} {a b : α} {rest : List α} (ht : c.threads[t]? = some (a :: rest))
    {new : List α} (hb : b ∈ new) : ∃ p ∈ c.threads.set t (new ++ rest), b ∈ p := by
  have hlt : t < c.threads.length := (List.getElem?_eq_some_iff.mp ht).1
  exact ⟨new ++ rest, List.mem_set hlt _, List.mem_append_left rest hb⟩

/-! ## Adding up -/

section Total

variable {G : Type} [AddCommMonoid G]

/-- What `f` says of the shared state and `w` of every action still to be taken, added up. -/
def total (f : σ → G) (w : α → G) (c : Config σ α) : G :=
  f c.shared + (c.threads.map fun p => (p.map w).sum).sum

theorem sum_map_eq_zero {β : Type} {g : β → G} {xs : List β} (h : ∀ x ∈ xs, g x = 0) :
    (xs.map g).sum = 0 := by
  refine List.sum_eq_zero fun n hn => ?_
  obtain ⟨x, hx, rfl⟩ := List.mem_map.mp hn
  exact h x hx

theorem sum_map_frame {β : Type} (g : β → G) {x : β} : ∀ {ps : List β} {t : Nat},
    ps[t]? = some x → ∃ frame, (ps.map g).sum = g x + frame ∧
      ∀ y, ((ps.set t y).map g).sum = g y + frame
  | [], t, h => by simp at h
  | p :: ps, 0, h => by
    simp only [List.getElem?_cons_zero, Option.some.injEq] at h
    subst h
    exact ⟨(ps.map g).sum, by simp, fun y => by simp⟩
  | p :: ps, t + 1, h => by
    rw [List.getElem?_cons_succ] at h
    obtain ⟨frame, hx, hy⟩ := sum_map_frame g h
    refine ⟨g p + frame, ?_, fun y => ?_⟩
    · rw [List.map_cons, List.sum_cons, hx, add_left_comm]
    · rw [List.set_cons_succ, List.map_cons, List.sum_cons, hy y, add_left_comm]

/-- **Taking one action** changes what it leaves behind, and what the shared state holds;
the rest is a frame. -/
theorem total_exec (f : σ → G) (w : α → G) {t : Nat} {a : α} {rest : List α}
    (ht : c.threads[t]? = some (a :: rest)) :
    ∃ frame, total f w c = f c.shared + w a + frame ∧
      ∀ s' new, total f w ⟨s', c.threads.set t (new ++ rest)⟩ =
        f s' + (new.map w).sum + frame := by
  obtain ⟨frame, hx, hy⟩ := sum_map_frame (fun p : List α => (p.map w).sum) ht
  refine ⟨(rest.map w).sum + frame, ?_, fun s' new => ?_⟩
  · simp only [total, hx, List.map_cons, List.sum_cons, add_assoc]
  · simp only [total, hy, List.map_append, List.sum_append, add_assoc]

/-- A call enters on an idle thread, which has no share. -/
theorem total_call (f : σ → G) (w : α → G) {t : Nat} (ht : c.threads[t]? = some []) :
    ∃ frame, total f w c = f c.shared + frame ∧
      ∀ s' new, total f w ⟨s', c.threads.set t new⟩ = f s' + (new.map w).sum + frame := by
  obtain ⟨frame, hx, hy⟩ := sum_map_frame (fun p : List α => (p.map w).sum) ht
  refine ⟨frame, ?_, fun s' new => ?_⟩
  · simp only [total, hx, List.map_nil, List.sum_nil, zero_add]
  · simp only [total, hy, add_assoc]

/-- What an action adds to the shared state and to what it leaves behind, it adds to the total. -/
theorem total_exec_gain {f : σ → G} {w : α → G} {gain : G} {t : Nat} {a : α} {rest new : List α} {s' : σ}
    (ht : c.threads[t]? = some (a :: rest))
    (h : f s' + (new.map w).sum = f c.shared + w a + gain) :
    total f w ⟨s', c.threads.set t (new ++ rest)⟩ = total f w c + gain := by
  obtain ⟨frame, hbefore, hafter⟩ := total_exec f w ht
  rw [hbefore, hafter, h]
  exact add_right_comm _ _ _

theorem total_call_gain {f : σ → G} {w : α → G} {gain : G} {t : Nat} {new : List α} {s' : σ}
    (ht : c.threads[t]? = some []) (h : f s' + (new.map w).sum = f c.shared + gain) :
    total f w ⟨s', c.threads.set t new⟩ = total f w c + gain := by
  obtain ⟨frame, hbefore, hafter⟩ := total_call f w ht
  rw [hbefore, hafter, h]
  exact add_right_comm _ _ _

end Total

/-- Where one place alone may have a share, the sum is that share. -/
theorem sum_map_le_of_only {β : Type} {g : β → Nat} {k : Nat} : ∀ {xs : List β} {m : Nat},
    (∀ n x, xs[n]? = some x → n ≠ m → g x = 0) → (∀ x, xs[m]? = some x → g x ≤ k) →
      (xs.map g).sum ≤ k
  | [], _, _, _ => Nat.zero_le _
  | x :: xs, 0, hother, hone => by
    have hnone : (xs.map g).sum = 0 := by
      apply sum_map_eq_zero
      intro y hy
      obtain ⟨n, hn⟩ := List.mem_iff_getElem?.mp hy
      exact hother (n + 1) y hn (Nat.succ_ne_zero n)
    have hx := hone x rfl
    simp only [List.map_cons, List.sum_cons]
    omega
  | x :: xs, m + 1, hother, hone => by
    have hx : g x = 0 := hother 0 x rfl (Nat.succ_ne_zero m).symm
    rw [List.map_cons, List.sum_cons, hx, Nat.zero_add]
    apply sum_map_le_of_only (m := m)
    · exact fun n y hy hn => hother (n + 1) y hy (fun hm => hn (Nat.succ.inj hm))
    · exact fun y hy => hone y hy

/-- A total is at least what the shared state and one action add to it. -/
theorem le_total {G : Type} [AddCommMonoid G] [PartialOrder G] [IsOrderedAddMonoid G]
    [CanonicallyOrderedAdd G] {f : σ → G} {w : α → G} {p : List α} {a : α} (hp : p ∈ c.threads)
    (ha : a ∈ p) : f c.shared + w a ≤ total f w c := by
  have hone : w a ≤ (p.map w).sum := List.le_sum_of_mem (List.mem_map_of_mem ha)
  have hall : (p.map w).sum ≤ (c.threads.map fun p => (p.map w).sum).sum :=
    List.le_sum_of_mem (List.mem_map_of_mem (f := fun p => (p.map w).sum) hp)
  exact add_le_add le_rfl (hone.trans hall)

theorem mem_sum_map {β γ : Type} {g : β → Multiset γ} {x : γ} {xs : List β} :
    x ∈ (xs.map g).sum ↔ ∃ b ∈ xs, x ∈ g b := by
  induction xs with
  | nil => simp
  | cons b xs ih => simp [ih]

/-- What a total of multisets holds is held by the shared state or by an action. -/
theorem mem_total {γ : Type} {f : σ → Multiset γ} {w : α → Multiset γ} {x : γ} :
    x ∈ total f w c ↔ x ∈ f c.shared ∨ ∃ p ∈ c.threads, ∃ a ∈ p, x ∈ w a := by
  simp only [total, Multiset.mem_add, mem_sum_map]

end Tombstone.Interleave
