import Mathlib.Data.List.Forall2
import Tombstone.EarlyReplay
import Tombstone.PreInitCapture
import Tombstone.RingHistory

/- What the replay of `tombstone_init` records, beside what a client records of the same captures
   made after it.

   A capture is refused, or it asks for a breadcrumb, or for an event or a metric
   (`capture_cases`). So a client that may capture holds, of any run of captures, the last
   breadcrumbs and items that were asked for (`Recorded`), and the replay asks for what the calls
   before it asked for. -/
namespace Tombstone

open Buffers (lastOf lastOf_map lastOf_lastOf push_lastOf)
open PreInitStore (Crumb Track maxBreadcrumbs maxTracks)

/-! ## The same records -/

def SameCrumb (a b : Breadcrumb) : Prop :=
  a.level = b.level ∧ a.message = b.message ∧ a.serial = b.serial

/-- The bodies of one event, but for the time. -/
def SameEvent (a b : Item) : Prop :=
  a.serial = b.serial ∧ ∃ (p : EventPayload) (t : Bytes),
    a.text = buildEventJson p ∧ b.text = buildEventJson { p with occurredAtIso := t }

/-- The bodies of one metric, but for the time. -/
def SameMetric (printed : Double → Bytes) (a b : Item) : Prop :=
  a.serial = b.serial ∧ ∃ (p : MetricPayload) (t : Bytes),
    a.text = buildMetricJson printed p ∧ b.text = buildMetricJson printed { p with occurredAtIso := t }

/-- Two clients hold the same records, but for the times: the trail, the two batches, and the
order of all that was put in either. -/
structure SameRecords (printed : Double → Bytes) (c d : CaptureClient) : Prop where
  breadcrumbs : List.Forall₂ SameCrumb c.breadcrumbs.snapshot d.breadcrumbs.snapshot
  events : List.Forall₂ SameEvent c.eventBatch.items d.eventBatch.items
  metrics : List.Forall₂ (SameMetric printed) c.metricBatch.items d.metricBatch.items
  order : List.Forall₂ (fun a b => SameEvent a b ∨ SameMetric printed a b) c.tracked d.tracked

/-- What is supplied to the captures of a run in which nothing but the time changes. -/
def moment (base : CaptureInput) (times : Nat → Bytes × Nat) (n : Nat) : CaptureInput :=
  { base with stamp := (times n).1, now := (times n).2 }

def CaptureCall.isTrack : CaptureCall → Bool
  | .addBreadcrumb _ _ => false
  | .trackEvent _ _ | .trackMetric _ _ _ => true

/-! ## One capture -/

namespace PreInitStore

/-- The crumb in the ring. -/
def Crumb.record (i : CaptureInput) (crumb : Crumb) : Breadcrumb :=
  BreadcrumbRing.crumb (levelLabel crumb.level) crumb.message i.stamp crumb.serial

/-- The item in a batch. -/
def Track.item (c : CaptureClient) (i : CaptureInput) (t : Track) : Item :=
  ⟨if t.isMetric then c.metricJson i t.name t.value t.unit else c.eventJson i t.name t.attributes,
    t.serial⟩

end PreInitStore

namespace CaptureClient

variable {c : CaptureClient} {k : CaptureCall} {n : Nat} {i : CaptureInput}

/-- The client with one item more. -/
def put (c : CaptureClient) (i : CaptureInput) (t : Track) : CaptureClient :=
  if t.isMetric then
    { c with
      metricBatch := (c.metricBatch.add i.now (t.item c i)).1
      tracked := c.tracked ++ [t.item c i] }
  else
    { c with
      eventBatch := (c.eventBatch.add i.now (t.item c i)).1
      tracked := c.tracked ++ [t.item c i] }

/-- **What a capture does** where captures are allowed and nothing is sampled. -/
theorem capture_cases (hallowed : c.captureAllowed = true) (hsampler : c.sampler = {}) :
    (EarlyCall.crumb (.capture k, n) = none ∧ EarlyCall.track (.capture k, n) = none ∧
        (c.capture n i k).1 = c) ∨
      (∃ crumb, EarlyCall.crumb (.capture k, n) = some crumb ∧
        EarlyCall.track (.capture k, n) = none ∧ crumb.message ≠ [] ∧ crumb.serial = n ∧
        (c.capture n i k).1 = { c with
          breadcrumbs := c.breadcrumbs.add (levelLabel crumb.level) crumb.message i.stamp crumb.serial }) ∨
      ∃ t, EarlyCall.crumb (.capture k, n) = none ∧ EarlyCall.track (.capture k, n) = some t ∧
        t.serial = n ∧ (c.capture n i k).1 = c.put i t := by
  have hkeep : ∀ name, c.sampler.shouldKeep name i.roll = true := by
    intro name
    rw [hsampler]
    rfl
  cases k with
  | addBreadcrumb level message =>
    cases hblank : CString.blank message with
    | true => exact .inl (by simp [EarlyCall.crumb, EarlyCall.track, capture, addBreadcrumb, hblank])
    | false =>
      refine .inr (.inl ⟨⟨level, message.getD [], n⟩, ?_⟩)
      have hmessage : message.getD [] ≠ [] := by simpa [CString.blank] using hblank
      simp [EarlyCall.crumb, EarlyCall.track, capture, addBreadcrumb, hblank, hallowed, hmessage]
  | trackEvent name attributes =>
    cases attributes with
    | none => exact .inl (by simp [EarlyCall.crumb, EarlyCall.track, capture, trackEvent])
    | some attributes =>
      cases hblank : CString.blank name with
      | true => exact .inl (by simp [EarlyCall.crumb, EarlyCall.track, capture, trackEvent, hblank])
      | false =>
        refine .inr (.inr ⟨{ name := name.getD [], attributes := usableAttributes attributes, serial := n }, ?_⟩)
        simp [EarlyCall.crumb, EarlyCall.track, capture, trackEvent, hblank, hallowed, hkeep, put,
          Track.item]
  | trackMetric name value unit =>
    cases hchecks : CString.blank name || !value.isFinite with
    | true =>
      refine .inl ?_
      have hrefused : CString.blank name = true ∨ value.isFinite = false := by simpa using hchecks
      rcases hrefused with h | h <;>
        simp [EarlyCall.crumb, EarlyCall.track, capture, trackMetric, h]
    | false =>
      refine .inr (.inr ⟨{ isMetric := true, name := name.getD [], value, unit := unit.getD [], serial := n }, ?_⟩)
      have haccepted : CString.blank name = false ∧ value.isFinite = true := by simpa using hchecks
      simp [EarlyCall.crumb, EarlyCall.track, capture, trackMetric, haccepted, hallowed, hkeep, put,
        Track.item]

end CaptureClient

/-! ## A run of captures -/

/-- The breadcrumbs that a run asks for. -/
def crumbsOf (ks : List (CaptureCall × Nat)) : List Crumb :=
  ks.filterMap fun k => EarlyCall.crumb (.capture k.1, k.2)

/-- The events and metrics that a run asks for. -/
def tracksOf (ks : List (CaptureCall × Nat)) : List Track :=
  ks.filterMap fun k => EarlyCall.track (.capture k.1, k.2)

/-- What a client holds of a run of captures, where it started as `fresh`. -/
structure Recorded (fresh : CaptureClient) (input : Nat → CaptureInput) (ks : List (CaptureCall × Nat))
    (c : CaptureClient) : Prop where
  allowed : c.captureAllowed = true
  unsampled : c.sampler = {}
  capacity : c.breadcrumbs.slots.length = maxBreadcrumbs
  body : ∀ (i : CaptureInput) (t : Track), t.item c i = t.item fresh i
  crumbs : c.breadcrumbs.snapshot =
    lastOf maxBreadcrumbs ((crumbsOf ks).map fun crumb => crumb.record (input crumb.serial))
  events : c.eventBatch.items = lastOf Batch.maxItems
    (((tracksOf ks).filter fun t => !t.isMetric).map fun t => t.item fresh (input t.serial))
  metrics : c.metricBatch.items = lastOf Batch.maxItems
    (((tracksOf ks).filter fun t => t.isMetric).map fun t => t.item fresh (input t.serial))
  tracked : c.tracked = (tracksOf ks).map fun t => t.item fresh (input t.serial)

theorem batch_push (b : Batch) (now : Nat) (item : Item) :
    (b.add now item).1.items = Buffers.pushDroppingOldest Batch.maxItems b.items item := by
  simp [Batch.add, Buffers.pushDroppingOldest]

variable {fresh c : CaptureClient} {input : Nat → CaptureInput} {ks : List (CaptureCall × Nat)}

/-- A capture that asks for an event or a metric. -/
theorem Recorded.put (h : Recorded fresh input ks c) {k : CaptureCall × Nat} (t : Track)
    (hcrumb : EarlyCall.crumb (.capture k.1, k.2) = none)
    (htrack : EarlyCall.track (.capture k.1, k.2) = some t) :
    Recorded fresh input (ks ++ [k]) (c.put (input t.serial) t) := by
  have hcrumbs : crumbsOf (ks ++ [k]) = crumbsOf ks := by simp [crumbsOf, hcrumb]
  have htracks : tracksOf (ks ++ [k]) = tracksOf ks ++ [t] := by simp [tracksOf, htrack]
  have hitem := h.body (input t.serial) t
  have hpush : ∀ l : List Item, Buffers.pushDroppingOldest Batch.maxItems
      (lastOf Batch.maxItems l) (t.item fresh (input t.serial)) =
        lastOf Batch.maxItems (l ++ [t.item fresh (input t.serial)]) :=
    fun l => push_lastOf (by decide) l _
  cases hmetric : t.isMetric with
  | true =>
    rw [CaptureClient.put, if_pos hmetric, hitem]
    constructor
    · exact h.allowed
    · exact h.unsampled
    · exact h.capacity
    · exact h.body
    · rw [hcrumbs]
      exact h.crumbs
    · rw [htracks]
      simpa [hmetric] using h.events
    · show ((c.metricBatch.add _ _).1.items) = _
      rw [batch_push, h.metrics, hpush, htracks]
      simp [hmetric]
    · show c.tracked ++ _ = _
      rw [h.tracked, htracks, List.map_append, List.map_singleton]
  | false =>
    rw [CaptureClient.put, if_neg (by simp [hmetric]), hitem]
    constructor
    · exact h.allowed
    · exact h.unsampled
    · exact h.capacity
    · exact h.body
    · rw [hcrumbs]
      exact h.crumbs
    · show ((c.eventBatch.add _ _).1.items) = _
      rw [batch_push, h.events, hpush, htracks]
      simp [hmetric]
    · rw [htracks]
      simpa [hmetric] using h.metrics
    · show c.tracked ++ _ = _
      rw [h.tracked, htracks, List.map_append, List.map_singleton]

theorem Recorded.step (h : Recorded fresh input ks c) (k : CaptureCall × Nat) :
    Recorded fresh input (ks ++ [k]) (c.capture k.2 (input k.2) k.1).1 := by
  obtain ⟨hcrumb, htrack, hsame⟩ | ⟨crumb, hcrumb, htrack, hmessage, hserial, hnew⟩ |
      ⟨t, hcrumb, htrack, hserial, hnew⟩ :=
    CaptureClient.capture_cases (k := k.1) (n := k.2) (i := input k.2) h.allowed h.unsampled
  · have hcrumbs : crumbsOf (ks ++ [k]) = crumbsOf ks := by simp [crumbsOf, hcrumb]
    have htracks : tracksOf (ks ++ [k]) = tracksOf ks := by simp [tracksOf, htrack]
    rw [hsame]
    exact { h with
      crumbs := hcrumbs ▸ h.crumbs
      events := htracks ▸ h.events
      metrics := htracks ▸ h.metrics
      tracked := htracks ▸ h.tracked }
  · have hcrumbs : crumbsOf (ks ++ [k]) = crumbsOf ks ++ [crumb] := by simp [crumbsOf, hcrumb]
    have htracks : tracksOf (ks ++ [k]) = tracksOf ks := by simp [tracksOf, htrack]
    rw [hnew]
    constructor
    · exact h.allowed
    · exact h.unsampled
    · exact (BreadcrumbRing.add_capacity ..).trans h.capacity
    · exact h.body
    · show (c.breadcrumbs.add _ _ _ _).snapshot = _
      rw [BreadcrumbRing.snapshot_push _ hmessage, h.capacity, h.crumbs, push_lastOf (by decide),
        hcrumbs, List.map_append, List.map_singleton, Crumb.record, hserial]
    · exact htracks ▸ h.events
    · exact htracks ▸ h.metrics
    · exact htracks ▸ h.tracked
  · rw [hnew, ← hserial]
    exact h.put t hcrumb htrack

/-- **What a client holds of a run.** -/
theorem Recorded.run (h : Recorded fresh input [] c) (ks : List (CaptureCall × Nat)) :
    Recorded fresh input ks (c.captureAll input ks) := by
  induction ks using List.reverseRecOn with
  | nil => exact h
  | append_singleton ks k ih =>
    rw [CaptureClient.captureAll, List.foldl_append]
    exact ih.step k

theorem Recorded.start (buildVersion os arch sessionId : Bytes) (input : Nat → CaptureInput) :
    Recorded (.afterInit true buildVersion os arch sessionId) input []
      (.afterInit true buildVersion os arch sessionId) where
  allowed := rfl
  unsampled := rfl
  capacity := by simp [CaptureClient.afterInit, BreadcrumbRing.ofCapacity,
    BreadcrumbRing.defaultCapacity, maxBreadcrumbs]
  body := fun _ _ => rfl
  crumbs := by simp [CaptureClient.afterInit, crumbsOf, lastOf]
  events := by simp [CaptureClient.afterInit, tracksOf, lastOf]
  metrics := by simp [CaptureClient.afterInit, tracksOf, lastOf]
  tracked := rfl

/-! ## The replay as a run of captures -/

theorem usableAttributes_usable (attributes : List (CString × CString)) :
    usableAttributes ((usableAttributes attributes).map fun a => (some a.1, some a.2)) =
      usableAttributes attributes := by
  have hkeys : ∀ a ∈ usableAttributes attributes, CString.blank (some a.1) = false := by
    intro a ha
    obtain ⟨b, hb, rfl⟩ := List.mem_map.mp ha
    simpa [CString.blank] using (List.mem_filter.mp hb).2
  generalize usableAttributes attributes = kept at hkeys
  unfold usableAttributes
  rw [List.filter_eq_self.mpr, List.map_map]
  · exact List.map_id _
  · intro a ha
    obtain ⟨b, hb, rfl⟩ := List.mem_map.mp ha
    simp [hkeys b hb]

/-- A buffered breadcrumb is replayed as a call that asks for it. -/
theorem replayed_crumb {crumb : Crumb} (h : crumb ∈ crumbsOf ks) :
    EarlyCall.crumb (.capture crumb.call, crumb.serial) = some crumb := by
  obtain ⟨⟨k, n⟩, -, hcall⟩ := List.mem_filterMap.mp h
  cases k with
  | addBreadcrumb level message =>
    cases hblank : CString.blank message with
    | true => simp [EarlyCall.crumb, hblank] at hcall
    | false =>
      simp only [EarlyCall.crumb, hblank, Bool.false_eq_true, if_false, Option.some.injEq] at hcall
      subst hcall
      have hmessage : CString.blank (some (message.getD [])) = false := hblank
      simp [EarlyCall.crumb, Crumb.call, hmessage]
  | trackEvent name attributes => simp [EarlyCall.crumb] at hcall
  | trackMetric name value unit => simp [EarlyCall.crumb] at hcall

/-- And a buffered event or metric. -/
theorem replayed_track {t : Track} (h : t ∈ tracksOf ks) :
    EarlyCall.track (.capture t.call, t.serial) = some t := by
  obtain ⟨⟨k, n⟩, -, hcall⟩ := List.mem_filterMap.mp h
  cases k with
  | addBreadcrumb level message => simp [EarlyCall.track] at hcall
  | trackEvent name attributes =>
    cases attributes with
    | none => simp [EarlyCall.track] at hcall
    | some attributes =>
      cases hblank : CString.blank name with
      | true => simp [EarlyCall.track, hblank] at hcall
      | false =>
        simp only [EarlyCall.track, hblank, Bool.false_eq_true, if_false, Option.some.injEq] at hcall
        subst hcall
        have hname : CString.blank (some (name.getD [])) = false := hblank
        simp [EarlyCall.track, Track.call, hname, usableAttributes_usable]
  | trackMetric name value unit =>
    cases hchecks : CString.blank name || !value.isFinite with
    | true => simp only [EarlyCall.track, hchecks, if_true, reduceCtorEq] at hcall
    | false =>
      simp only [EarlyCall.track, hchecks, Bool.false_eq_true, if_false, Option.some.injEq] at hcall
      subst hcall
      have hname : (CString.blank (some (name.getD [])) || !value.isFinite) = false := hchecks
      simp only [EarlyCall.track, Track.call, if_true, hname, Bool.false_eq_true, if_false]
      rfl

/-- The captures of the replay. -/
def EarlyStore.captures (p : EarlyStore) : List (CaptureCall × Nat) :=
  p.breadcrumbs.map (fun crumb => (crumb.call, crumb.serial)) ++
    p.tracks.map fun t => (t.call, t.serial)

theorem filterMap_self {α β : Type} {f : α → β} {g : β → Option α} {l : List α}
    (h : ∀ a ∈ l, g (f a) = some a) : (l.map f).filterMap g = l := by
  have hsome : l.filterMap (g ∘ f) = l.filterMap some := List.filterMap_congr h
  rw [List.filterMap_map, hsome, List.filterMap_some]

theorem filterMap_none {α β γ : Type} {f : α → β} {g : β → Option γ} (l : List α)
    (h : ∀ a, g (f a) = none) : (l.map f).filterMap g = [] := by
  rw [List.filterMap_map, List.filterMap_eq_nil_iff]
  exact fun a _ => h a

theorem crumb_of_track (t : Track) (n : Nat) : EarlyCall.crumb (.capture t.call, n) = none := by
  unfold Track.call
  split <;> rfl

theorem captures_crumbs (ks : List (CaptureCall × Nat)) (p : EarlyStore) (h : p.breadcrumbs ⊆ crumbsOf ks) :
    crumbsOf p.captures = p.breadcrumbs := by
  have hcrumbs : crumbsOf (p.breadcrumbs.map fun crumb => (crumb.call, crumb.serial)) = p.breadcrumbs :=
    filterMap_self fun crumb hcrumb => replayed_crumb (h hcrumb)
  have htracks : crumbsOf (p.tracks.map fun t => (t.call, t.serial)) = [] :=
    filterMap_none _ fun t => crumb_of_track t t.serial
  unfold crumbsOf at hcrumbs htracks ⊢
  rw [EarlyStore.captures, List.filterMap_append, hcrumbs, htracks, List.append_nil]

theorem captures_tracks (ks : List (CaptureCall × Nat)) (p : EarlyStore) (h : p.tracks ⊆ tracksOf ks) :
    tracksOf p.captures = p.tracks := by
  have hcrumbs : tracksOf (p.breadcrumbs.map fun crumb => (crumb.call, crumb.serial)) = [] :=
    filterMap_none _ fun _ => rfl
  have htracks : tracksOf (p.tracks.map fun t => (t.call, t.serial)) = p.tracks :=
    filterMap_self fun t ht => replayed_track (h ht)
  unfold tracksOf at hcrumbs htracks ⊢
  rw [EarlyStore.captures, List.filterMap_append, hcrumbs, htracks, List.nil_append]

theorem tracksOf_length (ks : List (CaptureCall × Nat)) :
    (tracksOf ks).length ≤ (ks.map Prod.fst).countP CaptureCall.isTrack := by
  induction ks with
  | nil => exact Nat.le_refl _
  | cons k ks ih =>
    unfold tracksOf at ih ⊢
    rw [List.filterMap_cons, List.map_cons, List.countP_cons]
    obtain ⟨k, n⟩ := k
    cases k with
    | addBreadcrumb level message => exact ih
    | trackEvent name attributes =>
      simp only [CaptureCall.isTrack, if_true]
      split
      · omega
      · rw [List.length_cons]
        omega
    | trackMetric name value unit =>
      simp only [CaptureCall.isTrack, if_true]
      split
      · omega
      · rw [List.length_cons]
        omega

/-! ## The store against the live client -/

section Early

variable (calls : List CaptureCall)

/-- The captures before `tombstone_init`, as calls of its history. -/
def early : List EarlyCall := calls.map .capture

theorem early_zipIdx : (early calls).zipIdx = calls.zipIdx.map fun k => (.capture k.1, k.2) := by
  unfold early
  rw [List.zipIdx_map]
  rfl

theorem early_crumbs : acceptedCrumbs (early calls) = crumbsOf calls.zipIdx := by
  unfold acceptedCrumbs crumbsOf
  rw [early_zipIdx, List.filterMap_map]
  rfl

theorem early_tracks : acceptedTracks (early calls) = tracksOf calls.zipIdx := by
  unfold acceptedTracks tracksOf
  rw [early_zipIdx, List.filterMap_map]
  rfl

theorem early_consent : (EarlyStore.ofCalls (early calls)).state.consent = none := by
  rw [EarlyStore.ofCalls_consent]
  unfold latestConsent early
  rw [filterMap_none calls fun _ => rfl]
  rfl

/-- A live client takes the same calls as a run of captures. -/
theorem live_early (c : CaptureClient) (input : Nat → CaptureInput) :
    c.live input (early calls) = c.captureAll input calls.zipIdx := by
  unfold CaptureClient.live CaptureClient.captureAll
  rw [early_zipIdx, List.foldl_map]
  rfl

/-- And so does the replay. -/
theorem replay_early (c : CaptureClient) (input : Nat → CaptureInput) :
    c.replayPreinit input (.ofCalls (early calls)) =
      c.captureAll input (EarlyStore.ofCalls (early calls)).captures := by
  unfold CaptureClient.replayPreinit CaptureClient.captureAll EarlyStore.captures
  rw [early_consent, List.foldl_append]
  rfl

end Early

/-! ## Replayed exactly as live -/

theorem forall₂_map {α β : Type} {R : β → β → Prop} {f g : α → β} {l : List α}
    (h : ∀ a ∈ l, R (f a) (g a)) : List.Forall₂ R (l.map f) (l.map g) := by
  rw [List.forall₂_map_left_iff, List.forall₂_map_right_iff, List.forall₂_same]
  exact h

/-- What two clients hold of runs that ask for the same, at different times. -/
theorem SameRecords.of_recorded {base : CaptureInput} {times times' : Nat → Bytes × Nat}
    {ks' : List (CaptureCall × Nat)} {d : CaptureClient} (hc : Recorded fresh (moment base times) ks c)
    (hd : Recorded fresh (moment base times') ks' d)
    (hcrumbs : lastOf maxBreadcrumbs (crumbsOf ks) = lastOf maxBreadcrumbs (crumbsOf ks'))
    (htracks : tracksOf ks = tracksOf ks') : SameRecords base.printed c d := by
  have hevent : ∀ t : Track, t.isMetric = false →
      SameEvent (t.item fresh (moment base times t.serial)) (t.item fresh (moment base times' t.serial)) := by
    intro t hkind
    unfold Track.item
    rw [hkind]
    exact ⟨rfl, _, (times' t.serial).1, rfl, rfl⟩
  have hmetric : ∀ t : Track, t.isMetric = true → SameMetric base.printed
      (t.item fresh (moment base times t.serial)) (t.item fresh (moment base times' t.serial)) := by
    intro t hkind
    unfold Track.item
    rw [hkind]
    exact ⟨rfl, _, (times' t.serial).1, rfl, rfl⟩
  constructor
  · rw [hc.crumbs, hd.crumbs, lastOf_map, lastOf_map, hcrumbs]
    exact forall₂_map fun crumb _ => ⟨rfl, rfl, rfl⟩
  · rw [hc.events, hd.events, lastOf_map, lastOf_map, htracks]
    refine forall₂_map fun t ht => hevent t ?_
    simpa using (List.mem_filter.mp (List.mem_of_mem_drop ht)).2
  · rw [hc.metrics, hd.metrics, lastOf_map, lastOf_map, htracks]
    refine forall₂_map fun t ht => hmetric t ?_
    exact (List.mem_filter.mp (List.mem_of_mem_drop ht)).2
  · rw [hc.tracked, hd.tracked, htracks]
    refine forall₂_map fun t _ => ?_
    cases hkind : t.isMetric with
    | true => exact .inr (hmetric t hkind)
    | false => exact .inl (hevent t hkind)

/-- The result of a capture before `tombstone_init`. -/
theorem early_result (p : EarlyStore) (n : Nat) (k : CaptureCall) : (p.capture n k).2 =
    if (EarlyCall.capture k).refused then .invalidArgument else .ok := by
  cases k with
  | addBreadcrumb level message =>
    unfold EarlyStore.capture EarlyCall.refused
    dsimp only
    split <;> rfl
  | trackEvent name attributes =>
    unfold EarlyStore.capture EarlyCall.refused
    cases attributes <;> cases hblank : CString.blank name <;> simp [hblank]
  | trackMetric name value unit =>
    unfold EarlyStore.capture EarlyCall.refused
    dsimp only
    split <;> rfl

/-- The result of a capture on a client that holds what a run asked for. -/
theorem Recorded.result (h : Recorded fresh input ks c) (n : Nat) (i : CaptureInput) (k : CaptureCall) :
    (c.capture n i k).2 = if (EarlyCall.capture k).refused then .invalidArgument else .ok := by
  have hkeep : ∀ name, c.sampler.shouldKeep name i.roll = true := by
    intro name
    rw [h.unsampled]
    rfl
  cases k with
  | addBreadcrumb level message =>
    unfold CaptureClient.capture CaptureClient.addBreadcrumb EarlyCall.refused
    cases hblank : CString.blank message <;> simp [h.allowed, hblank]
  | trackEvent name attributes =>
    unfold CaptureClient.capture CaptureClient.trackEvent EarlyCall.refused
    cases attributes <;> cases hblank : CString.blank name <;> simp [h.allowed, hkeep, hblank]
  | trackMetric name value unit =>
    unfold CaptureClient.capture CaptureClient.trackMetric EarlyCall.refused
    cases hblank : CString.blank name <;> cases hfinite : value.isFinite <;>
      simp [h.allowed, hkeep, hblank, hfinite]

/-- **Captures before `tombstone_init` are replayed exactly as they are made live.** With consent
on and no sampling, the replay leaves the records, but for the times, of a client that gets the
same calls right after its init; and every call has the result it has there. -/
theorem preInit_replays_as_live (base : CaptureInput) (times times' : Nat → Bytes × Nat)
    (buildVersion os arch sessionId : Bytes) (calls : List CaptureCall)
    (h : calls.countP CaptureCall.isTrack ≤ 128) :
    let fresh := CaptureClient.afterInit true buildVersion os arch sessionId
    SameRecords base.printed (fresh.replayPreinit (moment base times) (.ofCalls (early calls)))
        (fresh.live (moment base times') (early calls)) ∧
      ∀ n k, calls[n]? = some k →
        ((EarlyStore.ofCalls (early (calls.take n))).capture n k).2 =
          ((fresh.live (moment base times') (early (calls.take n))).capture n (moment base times' n) k).2 := by
  intro fresh
  have hfresh : ∀ input, Recorded fresh input [] fresh := .start buildVersion os arch sessionId
  constructor
  · have hall : (tracksOf calls.zipIdx).length ≤ maxTracks := by
      have hlength := tracksOf_length calls.zipIdx
      rw [List.zipIdx_map_fst] at hlength
      exact Nat.le_trans hlength h
    have hbreadcrumbs : (EarlyStore.ofCalls (early calls)).breadcrumbs =
        lastOf maxBreadcrumbs (crumbsOf calls.zipIdx) := by
      rw [EarlyStore.ofCalls_breadcrumbs, early_crumbs]
    have htracks : (EarlyStore.ofCalls (early calls)).tracks = tracksOf calls.zipIdx := by
      rw [EarlyStore.ofCalls_tracks, early_tracks, List.take_of_length_le hall]
    rw [replay_early, live_early]
    apply SameRecords.of_recorded ((hfresh _).run _) ((hfresh _).run _)
    · rw [captures_crumbs calls.zipIdx, hbreadcrumbs, lastOf_lastOf]
      rw [hbreadcrumbs]
      exact List.drop_subset _ _
    · rw [captures_tracks calls.zipIdx, htracks]
      rw [htracks]
      exact List.Subset.refl _
  · intro n k _
    rw [live_early, early_result, ((hfresh _).run _).result]

/-- A breadcrumb among events, two of them refused. -/
theorem preInit_replays_as_live_mixed :
    let calls : List CaptureCall :=
      [.trackEvent (some (lit "level_up")) none, .addBreadcrumb 3 (some (lit "died")),
        .trackEvent none (some []),
        .trackEvent (some (lit "level_up")) (some [(none, some (lit "7")), (some (lit "level"), none)])]
    let fresh := CaptureClient.afterInit true (lit "1.0") (lit "linux") (lit "x64") (lit "s")
    SameRecords (fun _ => [])
      (fresh.replayPreinit (moment {} fun _ => (lit "later", 1)) (.ofCalls (early calls)))
      (fresh.live (moment {} fun n => (lit "now", n)) (early calls)) :=
  (preInit_replays_as_live {} (fun _ => (lit "later", 1)) (fun n => (lit "now", n)) (lit "1.0") (lit "linux")
    (lit "x64") (lit "s") _ (by decide)).1

end Tombstone
