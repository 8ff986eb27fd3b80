import Mathlib.Data.List.Nodup
import Tombstone.Captures

/- What `tombstone_init` replays (`replay_preinit`), and whose calls that is.

   The store keeps values, not calls. This file

   1. reads the replay off the store, with the call that each value comes from (`replay`;
      `Writers` has the call for the pieces of state, and is proof-only like the serials);
   2. says which calls of a history the documented bounds leave (`survivors`): the last of each
      piece of state, the last 64 breadcrumbs, the first 128 events and metrics;
   3. proves that these are what is replayed, each of them once (`replay_foldl`,
      `survivors_nodup`). -/
namespace Tombstone

open Buffers PreInitStore

/-- What a buffered call writes, in the order of `replay_preinit`. -/
inductive BufferKind where
  | consent
  | user
  | environment
  | userMetadata
  | breadcrumb
  | track
  | startSession
  deriving DecidableEq, Repr

namespace BufferKind

def order : List BufferKind :=
  [.consent, .user, .environment, .userMetadata, .breadcrumb, .track, .startSession]

variable {α : Type}

/-- What one more entry does to those there are. -/
def push : BufferKind → List α → α → List α
  | .breadcrumb => pushDroppingOldest maxBreadcrumbs
  | .track => pushUnlessFull maxTracks
  | _ => pushDroppingOldest 1

/-- What the documented bounds leave of the entries: last write wins, drop-oldest, drop-newest;
the start request is a latch. -/
def keep : BufferKind → List α → List α
  | .breadcrumb => lastOf maxBreadcrumbs
  | .track => List.take maxTracks
  | _ => lastOf 1

theorem foldl_push (k : BufferKind) (l : List α) : l.foldl k.push [] = k.keep l := by
  cases k
  case track => exact foldl_pushUnlessFull maxTracks l
  all_goals exact foldl_pushDroppingOldest (by decide) l

theorem keep_sublist (k : BufferKind) (l : List α) : (k.keep l).Sublist l := by
  cases k
  case track => exact List.take_sublist _ l
  all_goals exact List.drop_sublist _ l

theorem keep_map {β : Type} (k : BufferKind) (f : α → β) (l : List α) :
    k.keep (l.map f) = (k.keep l).map f := by
  cases k
  case track => exact List.map_take.symm
  all_goals
    show List.drop _ (l.map f) = (List.drop _ l).map f
    rw [List.length_map, List.map_drop]

end BufferKind

namespace EarlyCall

def kind : EarlyCall → BufferKind
  | .state (.setConsent _) => .consent
  | .state (.setUser _ _) => .user
  | .state (.setEnvironment _) => .environment
  | .state (.setUserMetadata _) => .userMetadata
  | .state .startSession => .startSession
  | .capture (.addBreadcrumb _ _) => .breadcrumb
  | .capture (.trackEvent _ _) | .capture (.trackMetric _ _ _) => .track

/-- The checks with which a buffering lambda refuses a call (`TOMBSTONE_ERROR_INVALID_ARGUMENT`). -/
def refused : EarlyCall → Bool
  | .state (.setEnvironment environment) => CString.blank environment
  | .state _ => false
  | .capture (.addBreadcrumb _ message) => CString.blank message
  | .capture (.trackEvent name attributes) => CString.blank name || attributes.isNone
  | .capture (.trackMetric name value _) => CString.blank name || !value.isFinite

/-- The call as it is replayed, from the values that the store keeps of it. -/
def stored : EarlyCall → EarlyCall
  | .state (.setUser userId steamId) =>
    .state (.setUser (some (userId.getD [])) (some (steamId.getD [])))
  | .state (.setUserMetadata entries) =>
    .state (.setUserMetadata (some ((clampUserMetadata entries).map fun e => (some e.1, some e.2))))
  | .capture (.addBreadcrumb level message) => .capture (.addBreadcrumb level (some (message.getD [])))
  | .capture (.trackEvent name attributes) =>
    .capture (.trackEvent (some (name.getD []))
      (some ((usableAttributes (attributes.getD [])).map fun a => (some a.1, some a.2))))
  | .capture (.trackMetric name value unit) =>
    .capture (.trackMetric (some (name.getD [])) value (some (unit.getD [])))
  | call => call

end EarlyCall

/-- The call that wrote each piece of the buffered state last. -/
structure Writers where
  consent : Nat := 0
  user : Nat := 0
  environment : Nat := 0
  userMetadata : Nat := 0
  startSession : Nat := 0
  deriving DecidableEq, Repr

def Writers.note (w : Writers) (call : EarlyCall × Nat) : Writers :=
  match call.1.kind with
  | .consent => { w with consent := call.2 }
  | .user => { w with user := call.2 }
  | .environment => { w with environment := call.2 }
  | .userMetadata => { w with userMetadata := call.2 }
  | .startSession => { w with startSession := call.2 }
  | .breadcrumb | .track => w

namespace EarlyStore

variable (p : EarlyStore) (w : Writers)

/-- The part of `replay_preinit` for one kind: the calls it makes, each with the call whose value
it is. -/
def replayOf : BufferKind → List (EarlyCall × Nat)
  | .consent => (p.state.consent.map fun granted => (.state (.setConsent granted), w.consent)).toList
  | .user =>
    (p.state.user.map fun user => (.state (.setUser (some user.1) (some user.2)), w.user)).toList
  | .environment =>
    (p.state.environment.map fun environment =>
      (.state (.setEnvironment (some environment)), w.environment)).toList
  | .userMetadata =>
    (p.state.userMetadata.map fun entries =>
      (.state (.setUserMetadata (some (entries.map fun e => (some e.1, some e.2)))),
        w.userMetadata)).toList
  | .breadcrumb => p.breadcrumbs.map fun crumb => (.capture crumb.call, crumb.serial)
  | .track => p.tracks.map fun track => (.capture track.call, track.serial)
  | .startSession =>
    if p.state.startSessionRequested then [(.state .startSession, w.startSession)] else []

/-- `replay_preinit`: the calls on the fresh client, in order. -/
def replay : List (EarlyCall × Nat) := BufferKind.order.flatMap (p.replayOf w)

end EarlyStore

/-- What the documented bounds leave of the calls, in the order of the replay. -/
def survivors (calls : List (EarlyCall × Nat)) : List (EarlyCall × Nat) :=
  BufferKind.order.flatMap fun k => k.keep (calls.filter fun call => call.1.kind = k)

/-! ## The replay is that of the survivors -/

namespace EarlyStore

variable {p : EarlyStore} {w : Writers} {calls : List (EarlyCall × Nat)}

/-- A refused call leaves the store as it is. -/
theorem apply_refused {call : EarlyCall × Nat} (h : call.1.refused = true) : p.apply call = p := by
  obtain ⟨call, n⟩ := call
  cases call with
  | state s =>
    cases s with
    | setEnvironment environment =>
      cases environment with
      | none => rfl
      | some value =>
        cases value with
        | nil => rfl
        | cons b bs => cases h
    | _ => cases h
  | capture k =>
    cases k with
    | addBreadcrumb level message =>
      have hblank : CString.blank message = true := h
      simp only [apply, capture, hblank, if_true]
    | trackEvent name attributes =>
      cases attributes with
      | none => simp only [apply, capture, ite_self]
      | some attributes =>
        have hblank : CString.blank name = true := by simpa [EarlyCall.refused] using h
        simp only [apply, capture, hblank, if_true]
    | trackMetric name value unit =>
      have hchecks : (CString.blank name || !value.isFinite) = true := h
      simp only [apply, capture, hchecks, if_true]

/-- And a live client refuses the same captures. -/
theorem capture_refused_iff (c : CaptureClient) (n : Nat) (i : CaptureInput) (k : CaptureCall) :
    (c.capture n i k).2 = .invalidArgument ↔ (EarlyCall.capture k).refused = true := by
  cases k with
  | addBreadcrumb level message =>
    simp only [CaptureClient.capture, CaptureClient.addBreadcrumb, EarlyCall.refused]
    split
    · simp [*]
    · split <;> simp [*]
  | trackEvent name attributes =>
    simp only [CaptureClient.capture, CaptureClient.trackEvent, EarlyCall.refused, Bool.or_eq_true]
    split
    · simp [*]
    · cases attributes with
      | none => simp
      | some attributes =>
        simp only [*]
        repeat' split
        all_goals simp
  | trackMetric name value unit =>
    simp only [CaptureClient.capture, CaptureClient.trackMetric, EarlyCall.refused, Bool.or_eq_true]
    split
    · simp [*]
    · split
      · simp [*]
      · repeat' split
        all_goals simp [*]

theorem push_toList {α : Type} (o : Option α) (a : α) : pushDroppingOldest 1 o.toList a = [a] := by
  cases o <;> rfl

theorem push_latch {α : Type} (set : Bool) (x a : α) :
    pushDroppingOldest 1 (if set then [x] else []) a = [a] := by
  cases set <;> rfl

theorem push_map {α β : Type} (f : α → β) (bound : Nat) (l : List α) (a : α) :
    (pushDroppingOldest bound l a).map f = pushDroppingOldest bound (l.map f) (f a) := by
  unfold pushDroppingOldest
  rw [List.length_map, List.map_append]
  split
  · rw [List.map_tail]
    rfl
  · rfl

theorem pushUnlessFull_map {α β : Type} (f : α → β) (bound : Nat) (l : List α) (a : α) :
    (pushUnlessFull bound l a).map f = pushUnlessFull bound (l.map f) (f a) := by
  unfold pushUnlessFull
  rw [List.length_map]
  split
  · rfl
  · rw [List.map_append]
    rfl

/-- **One call more in the store is one call more in its part of the replay.** -/
theorem replayOf_apply {call : EarlyCall × Nat} (h : call.1.refused = false) (k : BufferKind) :
    (p.apply call).replayOf (w.note call) k =
      if call.1.kind = k then k.push (p.replayOf w k) (call.1.stored, call.2)
      else p.replayOf w k := by
  obtain ⟨call, n⟩ := call
  cases call with
  | state s =>
    cases s with
    | setConsent granted =>
      cases k
      case consent => exact (push_toList _ _).symm
      all_goals rfl
    | setUser userId steamId =>
      cases k
      case user => exact (push_toList _ _).symm
      all_goals rfl
    | setEnvironment environment =>
      rcases environment with _ | _ | ⟨b, bs⟩
      · cases h
      · cases h
      · cases k
        case environment => exact (push_toList _ _).symm
        all_goals rfl
    | setUserMetadata entries =>
      cases k
      case userMetadata => exact (push_toList _ _).symm
      all_goals rfl
    | startSession =>
      cases k
      case startSession =>
        exact (push_latch p.state.startSessionRequested _ _).symm
      all_goals rfl
  | capture c =>
    cases c with
    | addBreadcrumb level message =>
      have hblank : CString.blank message = false := h
      have happly : p.apply (.capture (.addBreadcrumb level message), n) =
          p.addBreadcrumb { level, message := message.getD [], serial := n } := by
        simp only [apply, capture, hblank, Bool.false_eq_true, if_false]
      rw [happly]
      cases k
      case breadcrumb => exact push_map _ _ _ _
      all_goals rfl
    | trackEvent name attributes =>
      cases attributes with
      | none => simp [EarlyCall.refused] at h
      | some attributes =>
        have hblank : CString.blank name = false := by simpa [EarlyCall.refused] using h
        have happly : p.apply (.capture (.trackEvent name (some attributes)), n) = p.addTrack
            { name := name.getD [], attributes := usableAttributes attributes, serial := n } := by
          simp only [apply, capture, hblank, Bool.false_eq_true, if_false]
        rw [happly]
        cases k
        case track => exact pushUnlessFull_map _ _ _ _
        all_goals rfl
    | trackMetric name value unit =>
      have hchecks : (CString.blank name || !value.isFinite) = false := h
      have happly : p.apply (.capture (.trackMetric name value unit), n) = p.addTrack
          { isMetric := true, name := name.getD [], value, unit := unit.getD [], serial := n } := by
        simp only [apply, capture, hchecks, Bool.false_eq_true, if_false]
      rw [happly]
      cases k
      case track => exact pushUnlessFull_map _ _ _ _
      all_goals rfl

theorem replayOf_empty (k : BufferKind) : ({} : EarlyStore).replayOf {} k = [] := by
  cases k <;> rfl

/-- What a history of calls leaves to replay, kind by kind. -/
theorem replayOf_foldl (k : BufferKind) (h : ∀ call ∈ calls, call.1.refused = false) :
    (calls.foldl apply p).replayOf (calls.foldl Writers.note w) k =
      ((calls.filter fun call => call.1.kind = k).map fun call => (call.1.stored, call.2)).foldl
        k.push (p.replayOf w k) := by
  induction calls generalizing p w with
  | nil => rfl
  | cons call calls ih =>
    have hcall := h call List.mem_cons_self
    rw [List.foldl_cons, List.foldl_cons, ih fun c hc => h c (List.mem_cons_of_mem call hc),
      replayOf_apply hcall]
    by_cases hk : call.1.kind = k
    · simp only [hk, if_true, List.filter_cons, decide_true, List.map_cons, List.foldl_cons]
    · simp only [hk, if_false, List.filter_cons, decide_false, Bool.false_eq_true]

/-- **What is replayed is what the bounds leave of the calls that were buffered.** -/
theorem replay_foldl (h : ∀ call ∈ calls, call.1.refused = false) :
    (calls.foldl apply {}).replay (calls.foldl Writers.note {}) =
      (survivors calls).map fun call => (call.1.stored, call.2) := by
  unfold replay survivors
  rw [List.map_flatMap]
  congr 1
  funext k
  rw [replayOf_foldl k h, replayOf_empty, k.foldl_push, k.keep_map]

end EarlyStore

section Survivors

variable {calls : List (EarlyCall × Nat)}

theorem survivors_subset : survivors calls ⊆ calls := by
  intro call hcall
  obtain ⟨k, -, hmem⟩ := List.mem_flatMap.mp hcall
  exact (List.mem_filter.mp ((k.keep_sublist _).subset hmem)).1

/-- **Every call is replayed once at most.** -/
theorem survivors_nodup (h : (calls.map Prod.snd).Nodup) : ((survivors calls).map Prod.snd).Nodup := by
  have hcalls : calls.Nodup := List.Nodup.of_map Prod.snd h
  have hsurvivors : (survivors calls).Nodup := by
    unfold survivors
    rw [List.nodup_flatMap]
    constructor
    · exact fun k _ => (hcalls.filter _).sublist (k.keep_sublist _)
    · have hdisjoint : ∀ k k' : BufferKind, k ≠ k' →
          List.Disjoint (k.keep (calls.filter fun call => call.1.kind = k))
            (k'.keep (calls.filter fun call => call.1.kind = k')) := by
        intro k k' hne call hk hk'
        have hkind := (List.mem_filter.mp ((k.keep_sublist _).subset hk)).2
        have hkind' := (List.mem_filter.mp ((k'.keep_sublist _).subset hk')).2
        simp only [decide_eq_true_eq] at hkind hkind'
        exact hne (hkind.symm.trans hkind')
      exact List.Pairwise.imp (hdisjoint _ _) (by decide : BufferKind.order.Nodup)
  apply List.Nodup.map_on _ hsurvivors
  exact fun x hx y hy hxy =>
    List.inj_on_of_nodup_map h (survivors_subset hx) (survivors_subset hy) hxy

end Survivors

end Tombstone
