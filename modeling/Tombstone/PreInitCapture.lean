import Tombstone.Captures

/- Whether consent holds for what is captured before `tombstone_init`.

   The store keeps the last `set_consent` only, and every capture whatever the consent was.
   This file

   1. says what consent asks of a history of calls (`KeepsConsent`), and proves that a live
      client keeps it on every history (`live_keepsConsent`);
   2. computes what the store holds of a history, and what its replay records
      (`ofCalls_tracks`, `replay_records`);
   3. proves which histories keep their consent across `tombstone_init`
      (`preInit_keepsConsent_iff`). -/
namespace Tombstone

open PreInitStore (Crumb Track maxBreadcrumbs maxTracks)
open Buffers (lastOf)

variable {calls : List EarlyCall} {call : EarlyCall} {n : Nat}

/-! ## What consent asks -/

/-- The consent a call sets. -/
def EarlyCall.consent : EarlyCall → Option Bool
  | .state (.setConsent granted) => some granted
  | .state _ | .capture _ => none

/-- The latest `set_consent` of a history. -/
def latestConsent (calls : List EarlyCall) : Option Bool :=
  (calls.filterMap EarlyCall.consent).getLast?

/-- The latest `set_consent` before call `n`. -/
def consentBefore (calls : List EarlyCall) (n : Nat) : Option Bool := latestConsent (calls.take n)

/-- Consent is revoked after call `n`. -/
def RevokedAfter (calls : List EarlyCall) (n : Nat) : Prop :=
  EarlyCall.state (.setConsent false) ∈ calls.drop n

instance : Decidable (RevokedAfter calls n) := inferInstanceAs (Decidable (_ ∈ _))

/-- No record is of a capture made while the latest `set_consent` was 0, and no breadcrumb in
the trail is older than a revoke. -/
def KeepsConsent (calls : List EarlyCall) (c : CaptureClient) : Prop :=
  (∀ crumb ∈ c.breadcrumbs.snapshot,
    consentBefore calls crumb.serial ≠ some false ∧ ¬ RevokedAfter calls crumb.serial) ∧
  ∀ item ∈ c.tracked, consentBefore calls item.serial ≠ some false

instance (c : CaptureClient) : Decidable (KeepsConsent calls c) :=
  inferInstanceAs (Decidable (_ ∧ _))

theorem latestConsent_append (calls : List EarlyCall) (call : EarlyCall) :
    latestConsent (calls ++ [call]) = call.consent.or (latestConsent calls) := by
  unfold latestConsent
  rw [List.filterMap_append]
  cases h : call.consent with
  | none => simp [h]
  | some granted => simp [h]

theorem consentBefore_append (h : n ≤ calls.length) :
    consentBefore (calls ++ [call]) n = consentBefore calls n := by
  unfold consentBefore
  rw [List.take_append_of_le_length h]

theorem consentBefore_end (calls : List EarlyCall) (call : EarlyCall) :
    consentBefore (calls ++ [call]) calls.length = latestConsent calls := by
  unfold consentBefore
  rw [List.take_left']
  rfl

theorem revokedAfter_append (h : n ≤ calls.length) :
    RevokedAfter (calls ++ [call]) n ↔
      RevokedAfter calls n ∨ call = .state (.setConsent false) := by
  unfold RevokedAfter
  rw [List.drop_append_of_le_length h, List.mem_append, List.mem_singleton]
  exact or_congr_right eq_comm

/-! ## A live client -/

namespace CaptureClient

variable {c : CaptureClient} {serial : Nat} {i : CaptureInput} {input : Nat → CaptureInput}

theorem mem_snapshot_add {r : BreadcrumbRing} {level message tsIso : Bytes} {crumb : Breadcrumb}
    (h : crumb ∈ (r.add level message tsIso serial).snapshot) :
    crumb ∈ r.snapshot ∨ crumb.serial = serial := by
  by_cases hempty : message = []
  · subst hempty
    exact .inl (by simpa only [BreadcrumbRing.add_empty] using h)
  · rw [BreadcrumbRing.snapshot_add _ _ _ _ hempty, List.mem_append, List.mem_singleton] at h
    rcases h with h | rfl
    · exact .inl (List.mem_of_mem_drop h)
    · exact .inr rfl

/-- **What one capture records**: nothing while captures are not allowed, else at most itself. -/
theorem capture_records (c : CaptureClient) (serial : Nat) (i : CaptureInput) (k : CaptureCall) :
    (c.capture serial i k).1.initialized = c.initialized ∧
      (c.capture serial i k).1.consent = c.consent ∧
      (∀ crumb ∈ (c.capture serial i k).1.breadcrumbs.snapshot, crumb ∈ c.breadcrumbs.snapshot ∨
        c.captureAllowed = true ∧ crumb.serial = serial) ∧
      ∀ item ∈ (c.capture serial i k).1.tracked, item ∈ c.tracked ∨
        c.captureAllowed = true ∧ item.serial = serial := by
  have hsame : ∀ c' : CaptureClient, c' = c → c'.initialized = c.initialized ∧
      c'.consent = c.consent ∧
      (∀ crumb ∈ c'.breadcrumbs.snapshot, crumb ∈ c.breadcrumbs.snapshot ∨
        c.captureAllowed = true ∧ crumb.serial = serial) ∧
      ∀ item ∈ c'.tracked, item ∈ c.tracked ∨ c.captureAllowed = true ∧ item.serial = serial := by
    rintro c' rfl
    exact ⟨rfl, rfl, fun _ h => .inl h, fun _ h => .inl h⟩
  have htracked : ∀ item : Item, item.serial = serial → c.captureAllowed = true →
      ∀ x ∈ c.tracked ++ [item], x ∈ c.tracked ∨ c.captureAllowed = true ∧ x.serial = serial := by
    intro item hserial hallowed x hx
    rcases List.mem_append.mp hx with hx | hx
    · exact .inl hx
    · exact .inr ⟨hallowed, by rw [List.mem_singleton.mp hx, hserial]⟩
  cases k with
  | addBreadcrumb level message =>
    simp only [capture, addBreadcrumb]
    split
    · exact hsame _ rfl
    · split
      · exact hsame _ rfl
      · rename_i hallowed
        refine ⟨rfl, rfl, fun crumb hcrumb => ?_, fun _ h => .inl h⟩
        exact (mem_snapshot_add hcrumb).imp id fun h => ⟨by simpa using hallowed, h⟩
  | trackEvent name attributes =>
    simp only [capture, trackEvent]
    split
    · exact hsame _ rfl
    · cases attributes with
      | none => exact hsame _ rfl
      | some attributes =>
        dsimp only
        split
        · exact hsame _ rfl
        · rename_i hallowed
          split
          · exact hsame _ rfl
          · exact ⟨rfl, rfl, fun _ h => .inl h, htracked _ rfl (by simpa using hallowed)⟩
  | trackMetric name value unit =>
    simp only [capture, trackMetric]
    split
    · exact hsame _ rfl
    · split
      · exact hsame _ rfl
      · split
        · exact hsame _ rfl
        · rename_i hallowed
          split
          · exact hsame _ rfl
          · exact ⟨rfl, rfl, fun _ h => .inl h, htracked _ rfl (by simpa using hallowed)⟩

/-- The state of a live client after a history of calls: its consent is the latest, the trail
is empty while consent is off, and its records respect consent. -/
structure Live (granted : Bool) (calls : List EarlyCall) (c : CaptureClient) : Prop where
  consent : c.consent = (latestConsent calls).getD granted
  emptied : c.consent = false → c.breadcrumbs.snapshot = []
  crumbs : ∀ crumb ∈ c.breadcrumbs.snapshot, crumb.serial < calls.length ∧
    consentBefore calls crumb.serial ≠ some false ∧ ¬ RevokedAfter calls crumb.serial
  tracked : ∀ item ∈ c.tracked, item.serial < calls.length ∧
    consentBefore calls item.serial ≠ some false

/-- While a live client may capture, the latest `set_consent` was not 0. -/
theorem Live.allowed {granted : Bool} (h : Live granted calls c)
    (hallowed : c.captureAllowed = true) : latestConsent calls ≠ some false := by
  intro hlatest
  have hconsent : c.consent = true := (Bool.and_eq_true_iff.mp hallowed).2
  rw [h.consent, hlatest] at hconsent
  cases hconsent

theorem Live.record {granted : Bool} {c' : CaptureClient} (h : Live granted calls c)
    (hcall : call.consent = none) (hconsent : c'.consent = c.consent)
    (hcrumbs : ∀ crumb ∈ c'.breadcrumbs.snapshot, crumb ∈ c.breadcrumbs.snapshot ∨
      c.captureAllowed = true ∧ crumb.serial = calls.length)
    (htracked : ∀ item ∈ c'.tracked, item ∈ c.tracked ∨
      c.captureAllowed = true ∧ item.serial = calls.length) :
    Live granted (calls ++ [call]) c' := by
  have hrevoke : call ≠ .state (.setConsent false) := by
    rintro rfl
    cases hcall
  have hdrop : ¬ RevokedAfter calls calls.length := by simp [RevokedAfter]
  constructor
  · rw [hconsent, h.consent, latestConsent_append, hcall]
    rfl
  · intro hoff
    rw [hconsent] at hoff
    refine List.eq_nil_iff_forall_not_mem.mpr fun crumb hcrumb => ?_
    rcases hcrumbs crumb hcrumb with hold | ⟨hallowed, -⟩
    · rw [h.emptied hoff] at hold
      cases hold
    · rw [captureAllowed, hoff, Bool.and_false] at hallowed
      cases hallowed
  · intro crumb hcrumb
    rw [List.length_append, List.length_singleton]
    rcases hcrumbs crumb hcrumb with hold | ⟨hallowed, hserial⟩
    · obtain ⟨hlt, hon, hkept⟩ := h.crumbs crumb hold
      refine ⟨by omega, by rwa [consentBefore_append (by omega)], ?_⟩
      rw [revokedAfter_append (by omega)]
      exact fun hr => hr.elim hkept hrevoke
    · rw [hserial, consentBefore_end, revokedAfter_append (Nat.le_refl _)]
      exact ⟨by omega, h.allowed hallowed, fun hr => hr.elim hdrop hrevoke⟩
  · intro item hitem
    rw [List.length_append, List.length_singleton]
    rcases htracked item hitem with hold | ⟨hallowed, hserial⟩
    · obtain ⟨hlt, hon⟩ := h.tracked item hold
      exact ⟨by omega, by rwa [consentBefore_append (by omega)]⟩
    · rw [hserial, consentBefore_end]
      exact ⟨by omega, h.allowed hallowed⟩

theorem Live.setConsent {granted : Bool} (h : Live granted calls c) (on : Bool) :
    Live granted (calls ++ [.state (.setConsent on)]) (c.setConsent on) := by
  have htrail : (c.setConsent on).breadcrumbs.snapshot =
      if on then c.breadcrumbs.snapshot else [] := by
    cases on with
    | true => rfl
    | false =>
      cases hc : c.consent with
      | true => simp [CaptureClient.setConsent, hc]
      | false => simp [CaptureClient.setConsent, hc, h.emptied hc]
  constructor
  · rw [latestConsent_append]
    rfl
  · intro hoff
    have hoff : on = false := hoff
    rw [htrail, hoff]
    rfl
  · intro crumb hcrumb
    rw [htrail] at hcrumb
    cases on with
    | false => cases hcrumb
    | true =>
      obtain ⟨hlt, hon, hkept⟩ := h.crumbs crumb hcrumb
      rw [List.length_append, List.length_singleton, consentBefore_append (by omega),
        revokedAfter_append (by omega)]
      refine ⟨by omega, hon, ?_⟩
      rintro (hr | hr)
      · exact hkept hr
      · cases hr
  · intro item hitem
    obtain ⟨hlt, hon⟩ := h.tracked item hitem
    rw [List.length_append, List.length_singleton, consentBefore_append (by omega)]
    exact ⟨by omega, hon⟩

theorem Live.step {granted : Bool} (h : Live granted calls c) (input : Nat → CaptureInput)
    (call : EarlyCall) :
    Live granted (calls ++ [call]) (c.callLive input (call, calls.length)) := by
  cases call with
  | state s =>
    cases s
    case setConsent on => exact h.setConsent on
    all_goals exact h.record rfl rfl (fun _ hc => .inl hc) fun _ hi => .inl hi
  | capture k =>
    obtain ⟨-, hconsent, hcrumbs, htracked⟩ := c.capture_records calls.length (input calls.length) k
    exact h.record rfl hconsent hcrumbs htracked

/-- **A live client keeps its consent on every history of calls.** -/
theorem live_keepsConsent (granted : Bool) (buildVersion os arch sessionId : Bytes)
    (input : Nat → CaptureInput) (calls : List EarlyCall) :
    KeepsConsent calls ((afterInit granted buildVersion os arch sessionId).live input calls) := by
  have hlive : Live granted calls
      ((afterInit granted buildVersion os arch sessionId).live input calls) := by
    induction calls using List.reverseRecOn with
    | nil => exact ⟨rfl, fun _ => rfl, nofun, nofun⟩
    | append_singleton calls call ih =>
      have hstep := ih.step input call
      simpa only [live, List.zipIdx_append, List.foldl_append, List.zipIdx_singleton,
        List.foldl_cons, List.foldl_nil, Nat.zero_add] using hstep
  exact ⟨fun crumb hc => (hlive.crumbs crumb hc).2, fun item hi => (hlive.tracked item hi).2⟩

end CaptureClient

/-! ## What the store holds -/

/-- The breadcrumb an accepted call asks for. -/
def EarlyCall.crumb : EarlyCall × Nat → Option Crumb
  | (.capture (.addBreadcrumb level message), serial) =>
    if CString.blank message then none else some { level, message := message.getD [], serial }
  | _ => none

/-- The event or metric an accepted call asks for. -/
def EarlyCall.track : EarlyCall × Nat → Option Track
  | (.capture (.trackEvent name (some attributes)), serial) =>
    if CString.blank name then none
    else some { name := name.getD [], attributes := usableAttributes attributes, serial }
  | (.capture (.trackMetric name value unit), serial) =>
    if CString.blank name || !value.isFinite then none
    else some { isMetric := true, name := name.getD [], value, unit := unit.getD [], serial }
  | _ => none

/-- The accepted breadcrumbs of a history. -/
def acceptedCrumbs (calls : List EarlyCall) : List Crumb := calls.zipIdx.filterMap EarlyCall.crumb

/-- The accepted events and metrics of a history. -/
def acceptedTracks (calls : List EarlyCall) : List Track := calls.zipIdx.filterMap EarlyCall.track

namespace EarlyStore

theorem capture_state (p : EarlyStore) (serial : Nat) (k : CaptureCall) :
    (p.capture serial k).1.state = p.state := by
  cases k with
  | addBreadcrumb level message =>
    simp only [capture]
    split <;> rfl
  | trackEvent name attributes =>
    simp only [capture]
    split
    · rfl
    · cases attributes <;> rfl
  | trackMetric name value unit =>
    simp only [capture]
    split <;> rfl

theorem apply_eq (p : EarlyStore) (call : EarlyCall × Nat) :
    (p.apply call).breadcrumbs = (EarlyCall.crumb call).elim p.breadcrumbs
        (Buffers.pushDroppingOldest maxBreadcrumbs p.breadcrumbs) ∧
      (p.apply call).tracks = (EarlyCall.track call).elim p.tracks
        (Buffers.pushUnlessFull maxTracks p.tracks) ∧
      (p.apply call).state.consent = call.1.consent.or p.state.consent := by
  obtain ⟨call, serial⟩ := call
  cases call with
  | state s =>
    refine ⟨rfl, rfl, ?_⟩
    cases s
    case setConsent => rfl
    case setEnvironment environment => rcases environment with _ | _ | _ <;> rfl
    all_goals rfl
  | capture k =>
    refine ⟨?_, ?_, congrArg PreInitStore.consent (p.capture_state serial k)⟩
    · cases k with
      | addBreadcrumb level message =>
        simp only [apply, capture, EarlyCall.crumb]
        split <;> rfl
      | trackEvent name attributes =>
        simp only [apply, capture, EarlyCall.crumb]
        split
        · rfl
        · cases attributes <;> rfl
      | trackMetric name value unit =>
        simp only [apply, capture, EarlyCall.crumb]
        split <;> rfl
    · cases k with
      | addBreadcrumb level message =>
        simp only [apply, capture, EarlyCall.track]
        split <;> rfl
      | trackEvent name attributes =>
        cases attributes with
        | none =>
          simp only [apply, capture, EarlyCall.track]
          split <;> rfl
        | some attributes =>
          simp only [apply, capture, EarlyCall.track]
          split <;> rfl
      | trackMetric name value unit =>
        simp only [apply, capture, EarlyCall.track]
        split <;> rfl

/-- A history of calls fills the two buffers with the accepted captures, in order. -/
theorem foldl_apply (calls : List (EarlyCall × Nat)) (p : EarlyStore) :
    (calls.foldl apply p).breadcrumbs = (calls.filterMap EarlyCall.crumb).foldl
        (Buffers.pushDroppingOldest maxBreadcrumbs) p.breadcrumbs ∧
      (calls.foldl apply p).tracks = (calls.filterMap EarlyCall.track).foldl
        (Buffers.pushUnlessFull maxTracks) p.tracks := by
  induction calls generalizing p with
  | nil => exact ⟨rfl, rfl⟩
  | cons call calls ih =>
    obtain ⟨hcrumb, htrack, -⟩ := p.apply_eq call
    rw [List.foldl_cons, (ih (p.apply call)).1, (ih (p.apply call)).2, hcrumb, htrack]
    constructor
    · cases h : EarlyCall.crumb call <;> simp [h]
    · cases h : EarlyCall.track call <;> simp [h]

theorem ofCalls_breadcrumbs (calls : List EarlyCall) :
    (ofCalls calls).breadcrumbs = lastOf maxBreadcrumbs (acceptedCrumbs calls) := by
  have h := (foldl_apply calls.zipIdx {}).1
  rwa [Buffers.foldl_pushDroppingOldest (by decide)] at h

theorem ofCalls_tracks (calls : List EarlyCall) :
    (ofCalls calls).tracks = (acceptedTracks calls).take maxTracks := by
  have h := (foldl_apply calls.zipIdx {}).2
  rwa [Buffers.foldl_pushUnlessFull] at h

theorem ofCalls_consent (calls : List EarlyCall) :
    (ofCalls calls).state.consent = latestConsent calls := by
  induction calls using List.reverseRecOn with
  | nil => rfl
  | append_singleton calls call ih =>
    rw [latestConsent_append, ← ih]
    unfold ofCalls
    rw [List.zipIdx_append, List.foldl_append, List.zipIdx_singleton, List.foldl_cons,
      List.foldl_nil]
    exact (apply_eq _ _).2.2

end EarlyStore

theorem acceptedCrumbs_message : ∀ crumb ∈ acceptedCrumbs calls, crumb.message ≠ [] := by
  intro crumb hcrumb
  obtain ⟨⟨call, serial⟩, -, hcall⟩ := List.mem_filterMap.mp hcrumb
  unfold EarlyCall.crumb at hcall
  split at hcall
  · split at hcall
    · cases hcall
    · rename_i hblank
      obtain rfl := Option.some.inj hcall
      simpa [CString.blank] using hblank
  · cases hcall

theorem acceptedTracks_valid : ∀ track ∈ acceptedTracks calls,
    track.name ≠ [] ∧ (track.isMetric = true → track.value.isFinite = true) := by
  intro track htrack
  obtain ⟨⟨call, serial⟩, -, hcall⟩ := List.mem_filterMap.mp htrack
  unfold EarlyCall.track at hcall
  split at hcall
  · split at hcall
    · cases hcall
    · rename_i hblank
      obtain rfl := Option.some.inj hcall
      exact ⟨by simpa [CString.blank] using hblank, nofun⟩
  · split at hcall
    · cases hcall
    · rename_i hchecks
      obtain rfl := Option.some.inj hcall
      simp only [Bool.or_eq_true, not_or, CString.blank, Bool.not_eq_true', Bool.not_eq_false]
        at hchecks
      exact ⟨by simpa using hchecks.1, fun _ => hchecks.2⟩
  · cases hcall

/-! ## What the replay records -/

namespace CaptureClient

variable {c : CaptureClient} {input : Nat → CaptureInput}

theorem captureAll_disallowed (h : c.captureAllowed = false) (ks : List (CaptureCall × Nat)) :
    c.captureAll input ks = c := by
  have hone : ∀ (k : CaptureCall) (serial : Nat), (c.capture serial (input serial) k).1 = c := by
    intro k serial
    cases k with
    | addBreadcrumb level message =>
      simp only [capture, addBreadcrumb, h]
      split <;> rfl
    | trackEvent name attributes =>
      simp only [capture, trackEvent, h]
      split
      · rfl
      · cases attributes <;> rfl
    | trackMetric name value unit =>
      simp only [capture, trackMetric, h]
      split
      · rfl
      · split <;> rfl
  induction ks with
  | nil => rfl
  | cons k ks ih =>
    have hcons : c.captureAll input (k :: ks) =
        (c.capture k.2 (input k.2) k.1).1.captureAll input ks := rfl
    rw [hcons, hone, ih]

theorem captureAll_crumbs (input : Nat → CaptureInput) (crumbs : List Crumb) (h : c.captureAllowed = true)
    (hmessage : ∀ crumb ∈ crumbs, crumb.message ≠ [])
    (hfits : c.breadcrumbs.count + crumbs.length ≤ c.breadcrumbs.slots.length) :
    ((c.captureAll input (crumbs.map fun k => (k.call, k.serial))).breadcrumbs.snapshot.map
        Breadcrumb.serial = c.breadcrumbs.snapshot.map Breadcrumb.serial ++ crumbs.map Crumb.serial) ∧
      (c.captureAll input (crumbs.map fun k => (k.call, k.serial))).tracked = c.tracked ∧
      (c.captureAll input (crumbs.map fun k => (k.call, k.serial))).captureAllowed = true ∧
      (c.captureAll input (crumbs.map fun k => (k.call, k.serial))).sampler = c.sampler := by
  induction crumbs generalizing c with
  | nil => exact ⟨by simp [captureAll], rfl, h, rfl⟩
  | cons crumb crumbs ih =>
    have hne : crumb.message ≠ [] := hmessage crumb List.mem_cons_self
    have hblank : CString.blank (some crumb.message) = false := by simpa [CString.blank] using hne
    -- the client after the first crumb
    have hfirst : (c.capture crumb.serial (input crumb.serial) crumb.call).1 =
        { c with
          breadcrumbs := c.breadcrumbs.add (levelLabel crumb.level) crumb.message
            (input crumb.serial).stamp crumb.serial } := by
      simp [capture, Crumb.call, addBreadcrumb, hblank, h]
    obtain ⟨-, hcount, -, -⟩ := c.breadcrumbs.add_moves (levelLabel crumb.level)
      (input crumb.serial).stamp crumb.serial hne
    rw [List.length_cons] at hfits
    have hroom : c.breadcrumbs.overwritten = 0 := by
      unfold BreadcrumbRing.overwritten
      omega
    have hrest := ih (c := (c.capture crumb.serial (input crumb.serial) crumb.call).1)
      (by rw [hfirst]; exact h) (fun k hk => hmessage k (List.mem_cons_of_mem _ hk)) (by
        rw [hfirst]
        dsimp only
        rw [hcount, BreadcrumbRing.add_capacity, hroom]
        omega)
    obtain ⟨hsnapshot, htracked, hallowed, hsampler⟩ := hrest
    refine ⟨hsnapshot.trans ?_, htracked.trans ?_, hallowed, hsampler.trans ?_⟩
    · rw [hfirst]
      dsimp only
      rw [BreadcrumbRing.snapshot_add _ _ _ _ hne, hroom, List.drop_zero, List.map_append,
        List.append_assoc]
      rfl
    · rw [hfirst]
    · rw [hfirst]

theorem captureAll_tracks (input : Nat → CaptureInput) (tracks : List Track) (h : c.captureAllowed = true)
    (hsampler : c.sampler = {})
    (hvalid : ∀ t ∈ tracks, t.name ≠ [] ∧ (t.isMetric = true → t.value.isFinite = true)) :
    (c.captureAll input (tracks.map fun t => (t.call, t.serial))).tracked.map Item.serial =
        c.tracked.map Item.serial ++ tracks.map Track.serial ∧
      (c.captureAll input (tracks.map fun t => (t.call, t.serial))).breadcrumbs = c.breadcrumbs := by
  induction tracks generalizing c with
  | nil => exact ⟨by simp [captureAll], rfl⟩
  | cons t tracks ih =>
    obtain ⟨hname, hfinite⟩ := hvalid t List.mem_cons_self
    have hblank : CString.blank (some t.name) = false := by simpa [CString.blank] using hname
    have hkeep : ∀ name roll, c.sampler.shouldKeep name roll = true := by
      intro name roll
      rw [hsampler]
      rfl
    -- the client after the first one
    have hfirst : (c.capture t.serial (input t.serial) t.call).1.captureAllowed = true ∧
        (c.capture t.serial (input t.serial) t.call).1.sampler = {} ∧
        (c.capture t.serial (input t.serial) t.call).1.breadcrumbs = c.breadcrumbs ∧
        (c.capture t.serial (input t.serial) t.call).1.tracked.map Item.serial =
          c.tracked.map Item.serial ++ [t.serial] := by
      cases hmetric : t.isMetric with
      | true =>
        simp only [capture, Track.call, hmetric, if_true, trackMetric, hblank, hfinite hmetric,
          Bool.not_true, h, hkeep, Bool.false_eq_true, if_false]
        exact ⟨h, hsampler, trivial, by simp⟩
      | false =>
        simp only [capture, Track.call, hmetric, trackEvent, hblank, h, Bool.not_true, hkeep,
          Bool.false_eq_true, if_false]
        exact ⟨h, hsampler, trivial, by simp⟩
    obtain ⟨hallowed, hsampler', hring, htracked⟩ := hfirst
    obtain ⟨hall, hring'⟩ := ih (c := (c.capture t.serial (input t.serial) t.call).1) hallowed
      hsampler' fun u hu => hvalid u (List.mem_cons_of_mem _ hu)
    refine ⟨hall.trans ?_, hring'.trans hring⟩
    rw [htracked, List.append_assoc]
    rfl

/-- **What a replay records**: nothing where consent ends off, else everything the store
holds. -/
theorem replay_records (granted : Bool) (buildVersion os arch sessionId : Bytes)
    (input : Nat → CaptureInput) (calls : List EarlyCall) :
    let c := (afterInit granted buildVersion os arch sessionId).replayPreinit input (.ofCalls calls)
    if (latestConsent calls).getD granted = false then
      c.breadcrumbs.snapshot = [] ∧ c.tracked = []
    else
      c.breadcrumbs.snapshot.map Breadcrumb.serial =
          (lastOf maxBreadcrumbs (acceptedCrumbs calls)).map Crumb.serial ∧
        c.tracked.map Item.serial = ((acceptedTracks calls).take maxTracks).map Track.serial := by
  -- the client once the consent is replayed
  obtain ⟨c, hc⟩ : ∃ c, c = (afterInit granted buildVersion os arch sessionId).replayConsent
      (latestConsent calls) := ⟨_, rfl⟩
  have hfresh : c.captureAllowed = (latestConsent calls).getD granted ∧
      c.breadcrumbs.snapshot = [] ∧ c.breadcrumbs.count = 0 ∧
      c.breadcrumbs.slots.length = maxBreadcrumbs ∧ c.tracked = [] ∧ c.sampler = {} := by
    rw [hc]
    cases latestConsent calls with
    | none => exact ⟨rfl, rfl, rfl, rfl, rfl, rfl⟩
    | some on => cases on <;> cases granted <;> exact ⟨rfl, rfl, rfl, rfl, rfl, rfl⟩
  obtain ⟨hallowed, hsnapshot, hcount, hslots, htracked, hsampler⟩ := hfresh
  simp only [replayPreinit, EarlyStore.ofCalls_consent, ← hc, EarlyStore.ofCalls_breadcrumbs,
    EarlyStore.ofCalls_tracks]
  split
  · rename_i hoff
    rw [captureAll_disallowed (hallowed.trans hoff), captureAll_disallowed (hallowed.trans hoff)]
    exact ⟨hsnapshot, htracked⟩
  · rename_i hon
    have hcaptures : c.captureAllowed = true := hallowed.trans (by simpa using hon)
    obtain ⟨hcrumbs, htracked', hallowed', hsampler'⟩ := captureAll_crumbs input
      (lastOf maxBreadcrumbs (acceptedCrumbs calls)) hcaptures
      (fun crumb hcrumb => acceptedCrumbs_message crumb (List.mem_of_mem_drop hcrumb)) (by
        rw [hcount, hslots, Buffers.length_lastOf]
        omega)
    obtain ⟨htracks, hring⟩ := captureAll_tracks input
      ((acceptedTracks calls).take maxTracks) hallowed' (hsampler'.trans hsampler)
      fun t ht => acceptedTracks_valid t (List.mem_of_mem_take ht)
    refine ⟨?_, ?_⟩
    · rw [hring, hcrumbs, hsnapshot]
      rfl
    · rw [htracks, htracked', htracked]
      rfl

end CaptureClient

/-! ## Consent across `tombstone_init` -/

/-- Consent ends off, or no capture within the bounds of the store was made while the latest
`set_consent` was 0, and no breadcrumb within them is older than a revoke. -/
def KeepsEarlyConsent (granted : Bool) (calls : List EarlyCall) : Prop :=
  (latestConsent calls).getD granted = false ∨
    (∀ crumb ∈ lastOf maxBreadcrumbs (acceptedCrumbs calls),
      consentBefore calls crumb.serial ≠ some false ∧ ¬ RevokedAfter calls crumb.serial) ∧
    ∀ track ∈ (acceptedTracks calls).take maxTracks, consentBefore calls track.serial ≠ some false

theorem forall_serial {α β : Type} {f : α → Nat} {g : β → Nat} {l : List α} {m : List β}
    (h : l.map f = m.map g) (P : Nat → Prop) : (∀ a ∈ l, P (f a)) ↔ ∀ b ∈ m, P (g b) := by
  rw [← List.forall_mem_map (P := P), h, List.forall_mem_map]

/-- **The histories that keep their consent across `tombstone_init`** are those that end with
consent off, or whose surviving captures were all made under consent. -/
theorem preInit_keepsConsent_iff (granted : Bool) (buildVersion os arch sessionId : Bytes)
    (input : Nat → CaptureInput) (calls : List EarlyCall) :
    KeepsConsent calls ((CaptureClient.afterInit granted buildVersion os arch sessionId).replayPreinit
      input (.ofCalls calls)) ↔ KeepsEarlyConsent granted calls := by
  have hrecords := CaptureClient.replay_records granted buildVersion os arch sessionId input calls
  dsimp only at hrecords
  unfold KeepsConsent KeepsEarlyConsent
  split at hrecords
  · rename_i hoff
    rw [hrecords.1, hrecords.2]
    exact ⟨fun _ => .inl hoff, fun _ => ⟨nofun, nofun⟩⟩
  · rename_i hon
    rw [or_iff_right hon]
    exact and_congr
      (forall_serial hrecords.1 fun n => consentBefore calls n ≠ some false ∧ ¬ RevokedAfter calls n)
      (forall_serial hrecords.2 fun n => consentBefore calls n ≠ some false)

/-- An event that is tracked while consent is off is recorded once consent is back on. -/
theorem bufferedEvent_outlives_optOut : ¬ ∀ (granted : Bool) (buildVersion os arch sessionId : Bytes)
    (input : Nat → CaptureInput) (calls : List EarlyCall),
    KeepsConsent calls ((CaptureClient.afterInit granted buildVersion os arch sessionId).replayPreinit
      input (.ofCalls calls)) := by
  intro hall
  have hfails : ¬ KeepsConsent
      [.state (.setConsent false), .capture (.trackEvent (some (lit "level_up")) (some [])),
        .state (.setConsent true)]
      ((CaptureClient.afterInit true [] [] [] []).replayPreinit (fun _ => {}) (.ofCalls
        [.state (.setConsent false), .capture (.trackEvent (some (lit "level_up")) (some [])),
          .state (.setConsent true)])) := by
    decide
  exact hfails (hall true [] [] [] [] (fun _ => {}) _)

end Tombstone
