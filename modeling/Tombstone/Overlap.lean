import Tombstone.Run

/- Clients that share a storage, and may overlap.

   A client has a memory of its own and works on a storage that outlives it; another client may be
   started on the same storage while it still runs. This file

   1. defines the system of any number of clients over one storage (`World`, `step`);
   2. proves the rule for clients that do not overlap: what is shown by a run in which no client is
      started while another one runs, a system of one client at a time shows as well (`alone_run`). -/
namespace Tombstone.Overlap

variable {D C β α τ γ δ : Type}

/-- A client is started on the storage, and takes its steps on it until it ends. -/
structure Host (D C β α : Type) where
  start : D → β → Option (D × C)
  act : D → C → α → Option (D × Option C)

structure World (D C : Type) where
  storage : D
  clients : List C

inductive Label (β α : Type) where
  | start (how : β)
  | client (k : Nat) (label : α)

/-- The client of this number is this one now, or has ended. -/
def put (clients : List C) (k : Nat) : Option C → List C
  | some c => clients.set k c
  | none => clients.eraseIdx k

def step (H : Host D C β α) (w : World D C) : Label β α → Option (World D C)
  | .start how => (H.start w.storage how).map fun r => ⟨r.1, w.clients ++ [r.2]⟩
  | .client k label => (w.clients[k]?).bind fun c =>
      (H.act w.storage c label).map fun r => ⟨r.1, put w.clients k r.2⟩

/-- No client is started while another one runs. -/
def Alone (w : World D C) : Label β α → Prop
  | .start _ => w.clients = []
  | .client _ _ => True

variable {H : Host D C β α} {w w' : World D C}

theorem start_cases {how : β} (h : step H w (.start how) = some w') :
    ∃ d c, H.start w.storage how = some (d, c) ∧ w' = ⟨d, w.clients ++ [c]⟩ := by
  obtain ⟨⟨d, c⟩, hstart, rfl⟩ := Option.map_eq_some_iff.1 h
  exact ⟨d, c, hstart, rfl⟩

theorem client_cases {k : Nat} {label : α} (h : step H w (.client k label) = some w') :
    ∃ c d o, w.clients[k]? = some c ∧ H.act w.storage c label = some (d, o) ∧ w' = ⟨d, put w.clients k o⟩ := by
  obtain ⟨c, hc, h⟩ := Option.bind_eq_some_iff.1 h
  obtain ⟨⟨d, o⟩, hact, rfl⟩ := Option.map_eq_some_iff.1 h
  exact ⟨c, d, o, hc, hact, rfl⟩

/-- The world with one client at most. -/
def one (d : D) (o : Option C) : World D C := ⟨d, o.toList⟩

section Alone

variable {single : τ → γ → Option τ} {R : D → Option C → τ → Prop}
  {Good : World D C → Label β α → World D C → Prop} {shows : World D C → Label β α → List δ}
  {shown : τ → γ → List δ}

/-- The single system answers a step: it takes some of its own, and shows the same. -/
def Answers (single : τ → γ → Option τ) (R : D → Option C → τ → Prop) (shown : τ → γ → List δ) (t : τ)
    (d : D) (o : Option C) (seen : List δ) : Prop :=
  ∃ ls t', Run.run single t ls = some t' ∧ R d o t' ∧ Run.trace single shown t ls = seen

/-- **Clients that do not overlap are one client at a time.** -/
theorem alone_run (halone : ∀ w l w', Good w l w' → Alone w l)
    (hstart : ∀ d how d' c t, R d none t → H.start d how = some (d', c) →
      Good (one d none) (.start how) (one d' (some c)) →
      Answers single R shown t d' (some c) (shows (one d none) (.start how)))
    (hact : ∀ d c label d' o t, R d (some c) t → H.act d c label = some (d', o) →
      Good (one d (some c)) (.client 0 label) (one d' o) →
      Answers single R shown t d' o (shows (one d (some c)) (.client 0 label))) :
    ∀ (ls : List (Label β α)) (d : D) (o : Option C) (t : τ), R d o t →
      Run.AllSteps (step H) Good (one d o) ls → Run.run (step H) (one d o) ls = some w' →
      ∃ d' o', w' = one d' o' ∧ Answers single R shown t d' o' (Run.trace (step H) shows (one d o) ls) := by
  intro ls
  induction ls with
  | nil =>
    intro d o t hR _ hrun
    obtain rfl := Option.some.inj hrun
    exact ⟨d, o, rfl, [], t, rfl, hR, rfl⟩
  | cons l ls ih =>
    intro d o t hR hgood hrun
    obtain ⟨u, hu, hrest⟩ := Run.run_cons_some.1 hrun
    obtain ⟨hl, hls⟩ := hgood u hu
    -- the world stays one of at most one client
    have hone : ∃ d' o', u = one d' o' ∧ Answers single R shown t d' o' (shows (one d o) l) := by
      cases l with
      | start how =>
        obtain ⟨d', c, hc, rfl⟩ := start_cases hu
        have hempty : o.toList = [] := halone _ _ _ hl
        obtain rfl := Option.toList_eq_nil_iff.1 hempty
        exact ⟨d', some c, rfl, hstart d how d' c t hR hc hl⟩
      | client k label =>
        obtain ⟨c, d', o', hk, hc, rfl⟩ := client_cases hu
        cases o with
        | none => cases hk
        | some c₀ =>
          obtain rfl : k = 0 := by
            have hlt := (List.getElem?_eq_some_iff.1 hk).1
            exact Nat.lt_one_iff.1 hlt
          obtain rfl : c₀ = c := Option.some.inj hk
          have hput : put [c₀] 0 o' = o'.toList := by cases o' <;> rfl
          have hu' : (⟨d', put (one d (some c₀)).clients 0 o'⟩ : World D C) = one d' o' :=
            congrArg (World.mk d') hput
          rw [hu'] at hl ⊢
          exact ⟨d', o', rfl, hact d c₀ label d' o' t hR hc hl⟩
    obtain ⟨d', o', rfl, ls₁, t₁, hrun₁, hR₁, hseen₁⟩ := hone
    obtain ⟨d'', o'', rfl, ls₂, t₂, hrun₂, hR₂, hseen₂⟩ := ih d' o' t₁ hR₁ hls hrest
    refine ⟨d'', o'', rfl, ls₁ ++ ls₂, t₂, Run.run_append_some.2 ⟨t₁, hrun₁, hrun₂⟩, hR₂, ?_⟩
    rw [Run.trace_append hrun₁, Run.trace_cons hu, hseen₁, hseen₂]

end Alone

end Tombstone.Overlap
