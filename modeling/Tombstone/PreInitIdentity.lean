import Mathlib.Data.List.Induction
import Tombstone.Sections
import Tombstone.Truncation

/- Whether a user and a map that are set before `tombstone_init` end up as they would on a
   live client.

   The store keeps the last user and the last map, and replays the user first. This file

   1. defines the two paths of one history of `set_user` and `set_user_metadata` calls, each
      as the sections of the client it performs (`replayed`, `live`);
   2. computes what either path leaves (`replayed_who`, `live_who`): the ids always agree,
      and the live path has dropped the map where a user left after it was set;
   3. proves which histories agree (`preInit_identity_iff`). -/
namespace Tombstone.Session

/-! ## Two paths of one history -/

/-- The calls that set who the client speaks of. A call that both paths refuse (a null array
with a positive count) changes nothing on either and is no call here. -/
inductive IdentityCall where
  | setUser (userId steamId : CString)
  | setUserMetadata (entries : Option (List (CString × CString)))
  deriving DecidableEq, Repr

namespace IdentityCall

/-- The call before `tombstone_init`. -/
def preInit : IdentityCall → PreInitCall
  | .setUser userId steamId => .setUser userId steamId
  | .setUserMetadata entries => .setUserMetadata entries

/-- The call on a live client. -/
def act : IdentityCall → Act
  | .setUser userId steamId => .setUser userId steamId
  | .setUserMetadata entries => .setUserMetadata entries

/-- Every string of the call is valid UTF-8. -/
def ValidUtf8 : IdentityCall → Prop
  | .setUser userId steamId => (∀ v ∈ userId, Utf8.Valid v) ∧ ∀ v ∈ steamId, Utf8.Valid v
  | .setUserMetadata entries => ∀ es ∈ entries, ValidEntries es

/-- The user a `set_user` sets. -/
def user : IdentityCall → Option (Bytes × Bytes)
  | .setUser userId steamId => some (clamped userId limits.userId, clamped steamId limits.steamId)
  | .setUserMetadata _ => none

/-- The map a `set_user_metadata` sets. -/
def map : IdentityCall → Option UserMetadataEntries
  | .setUser .. => none
  | .setUserMetadata entries => some (clampUserMetadata entries)

end IdentityCall

open IdentityCall (user map)

/-- Who the client speaks of: the user, the Steam account, and the metadata of the user. -/
structure Who where
  userId : Bytes := []
  steamId : Bytes := []
  userMetadata : UserMetadataEntries := []
  deriving DecidableEq, Repr

def State.who (s : State) : Who := ⟨s.identity.userId, s.identity.steamId, s.metadata.userMetadata⟩

/-- Sections one after the other, none of which leaves another one to do. -/
def performAll : State → List Act → Option State
  | s, [] => some s
  | s, a :: as =>
    match perform s a {} with
    | some (s', []) => performAll s' as
    | _ => none

/-- The calls came before `tombstone_init`, and were replayed. -/
def replayed (o : Launch) (calls : List IdentityCall) : Option State :=
  performAll (initialized o) (replayPreInit (.ofCalls (calls.map IdentityCall.preInit)))

/-- The client was initialized first. -/
def live (o : Launch) (calls : List IdentityCall) : Option State :=
  performAll (initialized o) (calls.map IdentityCall.act)

/-- Both clients speak of the same user, with the same map. -/
def SameWho (o : Launch) (calls : List IdentityCall) : Prop :=
  ∃ s t, replayed o calls = some s ∧ live o calls = some t ∧ s.who = t.who

/-! ## What one section does -/

/-- `set_user` and `set_user_metadata`. -/
def Who.call (w : Who) : IdentityCall → Who
  | .setUser userId steamId =>
    let next := clamped userId limits.userId
    { userId := next
      steamId := clamped steamId limits.steamId
      userMetadata := if next ≠ w.userId ∧ w.userId ≠ [] then [] else w.userMetadata }
  | .setUserMetadata entries => { w with userMetadata := clampUserMetadata entries }

theorem perform_call (s : State) (k : IdentityCall) :
    ∃ s', perform s k.act {} = some (s', []) ∧ s'.who = s.who.call k := by
  cases k with
  | setUser userId steamId =>
    refine ⟨_, rfl, ?_⟩
    have hid : (s.identity.setUser userId steamId).userId = clamped userId limits.userId := rfl
    have hsteam : (s.identity.setUser userId steamId).steamId = clamped steamId limits.steamId := rfl
    simp only [State.who, Who.call, hid, hsteam, Who.mk.injEq, true_and]
    by_cases hsame : clamped userId limits.userId = s.identity.userId
    · simp [hsame]
    · by_cases hold : s.identity.userId = []
      · simp only [hold, bne_iff_ne, ne_eq, not_true_eq_false, and_false, if_false]
        split <;> rfl
      · simp [hsame, hold, Metadata.changeUser]
  | setUserMetadata entries => exact ⟨_, rfl, rfl⟩

theorem performAll_who (s : State) (calls : List IdentityCall) :
    ∃ s', performAll s (calls.map IdentityCall.act) = some s' ∧ s'.who = calls.foldl Who.call s.who := by
  induction calls generalizing s with
  | nil => exact ⟨s, rfl, rfl⟩
  | cons k calls ih =>
    obtain ⟨u, hu, hwho⟩ := perform_call s k
    obtain ⟨s', hs', hrest⟩ := ih u
    refine ⟨s', ?_, ?_⟩
    · rw [List.map_cons, performAll, hu]
      exact hs'
    · rw [List.foldl_cons, hrest, hwho]

/-! ## What either path leaves -/

/-- The last user of a history. -/
def lastUser (calls : List IdentityCall) : Bytes × Bytes := (calls.filterMap user).getLast?.getD ([], [])

/-- The last map of a history. -/
def lastMap (calls : List IdentityCall) : UserMetadataEntries := (calls.filterMap map).getLast?.getD []

/-- A `set_user` after the last `set_user_metadata` switches away from a real id. -/
def LeavesMap (calls : List IdentityCall) : Prop :=
  ∃ n userId steamId, calls[n]? = some (.setUser userId steamId) ∧
    (∀ k ∈ calls.drop n, k.map = none) ∧ (lastUser (calls.take n)).1 ≠ [] ∧
    clamped userId limits.userId ≠ (lastUser (calls.take n)).1

section

variable (calls : List IdentityCall) (userId steamId : CString)
  (entries : Option (List (CString × CString)))

@[simp] theorem lastUser_setUser : lastUser (calls ++ [.setUser userId steamId]) =
    (clamped userId limits.userId, clamped steamId limits.steamId) := by
  simp [lastUser, user]

@[simp] theorem lastUser_setUserMetadata :
    lastUser (calls ++ [.setUserMetadata entries]) = lastUser calls := by
  simp [lastUser, user]

@[simp] theorem lastMap_setUser :
    lastMap (calls ++ [.setUser userId steamId]) = lastMap calls := by
  simp [lastMap, map]

@[simp] theorem lastMap_setUserMetadata :
    lastMap (calls ++ [.setUserMetadata entries]) = clampUserMetadata entries := by
  simp [lastMap, map]

theorem leavesMap_setUserMetadata : ¬ LeavesMap (calls ++ [.setUserMetadata entries]) := by
  rintro ⟨n, u, s, hn, hlast, -, -⟩
  obtain ⟨hlt, -⟩ := List.getElem?_eq_some_iff.mp hn
  rw [List.length_append, List.length_singleton] at hlt
  have hmem : IdentityCall.setUserMetadata entries ∈ 
      (calls ++ [IdentityCall.setUserMetadata entries]).drop n := by
    rw [List.drop_append_of_le_length (by omega)]
    exact List.mem_append_right _ List.mem_cons_self
  cases hlast _ hmem

theorem leavesMap_setUser : LeavesMap (calls ++ [.setUser userId steamId]) ↔
    LeavesMap calls ∨ (lastUser calls).1 ≠ [] ∧
      clamped userId limits.userId ≠ (lastUser calls).1 := by
  constructor
  · rintro ⟨n, u, s, hn, hlast, hreal, hswitch⟩
    obtain ⟨hlt, -⟩ := List.getElem?_eq_some_iff.mp hn
    rw [List.length_append, List.length_singleton] at hlt
    rw [List.take_append_of_le_length (by omega)] at hreal hswitch
    rcases Nat.lt_or_ge n calls.length with hold | hnew
    · rw [List.getElem?_append_left hold] at hn
      rw [List.drop_append_of_le_length (by omega)] at hlast
      exact .inl ⟨n, u, s, hn, fun k hk => hlast k (List.mem_append_left _ hk), hreal, hswitch⟩
    · obtain rfl : n = calls.length := by omega
      rw [List.getElem?_concat_length] at hn
      cases hn
      rw [List.take_length] at hreal hswitch
      exact .inr ⟨hreal, hswitch⟩
  · rintro (⟨n, u, s, hn, hlast, hreal, hswitch⟩ | ⟨hreal, hswitch⟩)
    · obtain ⟨hlt, -⟩ := List.getElem?_eq_some_iff.mp hn
      refine ⟨n, u, s, by rwa [List.getElem?_append_left hlt], fun k hk => ?_, ?_⟩
      · rw [List.drop_append_of_le_length (by omega)] at hk
        rcases List.mem_append.mp hk with hk | hk
        · exact hlast k hk
        · rw [List.mem_singleton.mp hk]
          rfl
      · rw [List.take_append_of_le_length (by omega)]
        exact ⟨hreal, hswitch⟩
    · refine ⟨calls.length, userId, steamId, List.getElem?_concat_length .., fun k hk => ?_, ?_⟩
      · rw [List.drop_left] at hk
        rw [List.mem_singleton.mp hk]
        rfl
      · rw [List.take_left]
        exact ⟨hreal, hswitch⟩

end

open Classical in
/-- **What a live client is left with**: the last user, and the last map, unless its user has
left since. -/
theorem live_who (o : Launch) (calls : List IdentityCall) :
    ∃ t, live o calls = some t ∧ t.who =
      ⟨(lastUser calls).1, (lastUser calls).2, if LeavesMap calls then [] else lastMap calls⟩ := by
  obtain ⟨t, ht, hwho⟩ := performAll_who (initialized o) calls
  refine ⟨t, ht, hwho.trans ?_⟩
  have hstart : (initialized o).who = {} := rfl
  rw [hstart]
  clear hwho ht
  induction calls using List.reverseRecOn with
  | nil =>
    have hnone : ¬ LeavesMap [] := by
      rintro ⟨n, u, s, hn, -⟩
      cases hn
    rw [if_neg hnone]
    rfl
  | append_singleton calls k ih =>
    rw [List.foldl_append, ih, List.foldl_cons, List.foldl_nil]
    cases k with
    | setUser userId steamId =>
      simp only [Who.call, lastUser_setUser, lastMap_setUser, leavesMap_setUser, Who.mk.injEq,
        true_and]
      by_cases hleft : LeavesMap calls
      · simp [hleft]
      · simp only [hleft, if_false, false_or]
        exact if_congr and_comm rfl rfl
    | setUserMetadata entries =>
      simp only [Who.call, lastUser_setUserMetadata, lastMap_setUserMetadata,
        leavesMap_setUserMetadata, if_false]

/-- The arguments a `set_user` leaves in the store. -/
def IdentityCall.stored : IdentityCall → Option (Bytes × Bytes)
  | .setUser userId steamId => some (userId.getD [], steamId.getD [])
  | .setUserMetadata _ => none

theorem store_ofCalls (calls : List IdentityCall) :
    PreInitStore.ofCalls (calls.map IdentityCall.preInit) =
      { user := (calls.filterMap IdentityCall.stored).getLast?
        userMetadata := (calls.filterMap map).getLast? } := by
  induction calls using List.reverseRecOn with
  | nil => rfl
  | append_singleton calls k ih =>
    unfold PreInitStore.ofCalls at ih ⊢
    rw [List.map_append, List.foldl_append, ih, List.map_singleton, List.foldl_cons, List.foldl_nil]
    cases k with
    | setUser userId steamId =>
      simp [IdentityCall.preInit, PreInitStore.apply, IdentityCall.stored, map]
    | setUserMetadata entries =>
      simp [IdentityCall.preInit, PreInitStore.apply, IdentityCall.stored, map]

/-- The calls a replay makes. -/
def replayedCalls (calls : List IdentityCall) : List IdentityCall :=
  (calls.filterMap IdentityCall.stored).getLast?.toList.map
      (fun u => .setUser (some u.1) (some u.2)) ++
    (calls.filterMap map).getLast?.toList.map fun m =>
      .setUserMetadata (some (m.map fun e => (some e.1, some e.2)))

theorem replayPreInit_calls (calls : List IdentityCall) :
    replayPreInit (.ofCalls (calls.map IdentityCall.preInit)) =
      (replayedCalls calls).map IdentityCall.act := by
  rw [store_ofCalls]
  simp only [replayPreInit, replayedCalls, Option.toList_none, List.map_nil, List.nil_append,
    Bool.false_eq_true, if_false, List.append_nil, List.map_append, List.map_map]
  rfl

theorem clamped_getD (value : CString) (n : Nat) : clamped (some (value.getD [])) n = clamped value n := by
  cases value with
  | none => exact utf8SafeTruncate_nil n
  | some v => rfl

/-- The stored user is clamped on the replay as it would have been on the call. -/
theorem lastUser_stored (calls : List IdentityCall) : lastUser calls =
    ((calls.filterMap IdentityCall.stored).getLast?.map fun u =>
      (clamped (some u.1) limits.userId, clamped (some u.2) limits.steamId)).getD ([], []) := by
  induction calls using List.reverseRecOn with
  | nil => rfl
  | append_singleton calls k ih =>
    cases k with
    | setUser userId steamId =>
      rw [lastUser_setUser]
      simp [IdentityCall.stored, clamped_getD]
    | setUserMetadata entries =>
      rw [lastUser_setUserMetadata, ih]
      simp [IdentityCall.stored]

theorem lastMap_clamped {calls : List IdentityCall} (hvalid : ∀ k ∈ calls, k.ValidUtf8)
    {m : UserMetadataEntries} (hm : (calls.filterMap map).getLast? = some m) :
    clampUserMetadata (some (m.map fun e => (some e.1, some e.2))) = m := by
  obtain ⟨k, hk, hmap⟩ := List.mem_filterMap.mp (List.mem_of_getLast? hm)
  cases k with
  | setUser userId steamId => cases hmap
  | setUserMetadata entries =>
    obtain rfl := Option.some.inj hmap
    exact clampUserMetadata_clamped (hvalid _ hk)

/-- **What a replay is left with**: the last user and the last map. -/
theorem replayed_who (o : Launch) (calls : List IdentityCall)
    (hvalid : ∀ k ∈ calls, k.ValidUtf8) :
    ∃ s, replayed o calls = some s ∧
      s.who = ⟨(lastUser calls).1, (lastUser calls).2, lastMap calls⟩ := by
  obtain ⟨s, hs, hwho⟩ := performAll_who (initialized o) (replayedCalls calls)
  refine ⟨s, ?_, hwho.trans ?_⟩
  · unfold replayed
    rw [replayPreInit_calls]
    exact hs
  · have hstart : (initialized o).who = {} := rfl
    have hmap : ∀ w : Who, ((calls.filterMap map).getLast?.toList.map fun m =>
        IdentityCall.setUserMetadata (some (m.map fun e => (some e.1, some e.2)))).foldl Who.call w =
        { w with userMetadata := (calls.filterMap map).getLast?.getD w.userMetadata } := by
      intro w
      cases hm : (calls.filterMap map).getLast? with
      | none => rfl
      | some m => exact congrArg (Who.mk _ _) (lastMap_clamped hvalid hm)
    rw [hstart, replayedCalls, List.foldl_append, hmap, lastUser_stored, lastMap]
    cases (calls.filterMap IdentityCall.stored).getLast? with
    | none => rfl
    | some u => simp [Who.call]

/-- **A user and a map from before `tombstone_init` end up as on a live client** exactly where
the last map is empty, or no user left after it was set. -/
theorem preInit_identity_iff (o : Launch) (calls : List IdentityCall)
    (hvalid : ∀ k ∈ calls, k.ValidUtf8) :
    SameWho o calls ↔ lastMap calls = [] ∨ ¬ LeavesMap calls := by
  classical
  obtain ⟨s, hs, hreplayed⟩ := replayed_who o calls hvalid
  obtain ⟨t, ht, hlive⟩ := live_who o calls
  have hsame : SameWho o calls ↔ s.who = t.who := by
    constructor
    · rintro ⟨s', t', hs', ht', h⟩
      obtain rfl := Option.some.inj (hs.symm.trans hs')
      obtain rfl := Option.some.inj (ht.symm.trans ht')
      exact h
    · exact fun h => ⟨s, t, hs, ht, h⟩
  rw [hsame, hreplayed, hlive]
  by_cases hleft : LeavesMap calls
  · simp [hleft]
  · simp [hleft]

theorem valid_setUser {userId : String} (h : lit userId = Utf8.encode userId.toList) :
    (IdentityCall.setUser (some (lit userId)) none).ValidUtf8 :=
  ⟨fun _ hv => Option.some.inj hv ▸ ⟨_, h⟩, nofun⟩

theorem valid_setUserMetadata {key value : String} (hkey : lit key = Utf8.encode key.toList)
    (hvalue : lit value = Utf8.encode value.toList) :
    (IdentityCall.setUserMetadata (some [(some (lit key), some (lit value))])).ValidUtf8 := by
  intro es hes e he
  obtain rfl := Option.some.inj hes
  obtain rfl := List.mem_singleton.mp he
  exact ⟨fun _ hv => Option.some.inj hv ▸ ⟨_, hkey⟩, fun _ hv => Option.some.inj hv ▸ ⟨_, hvalue⟩⟩

/-- A map that is set after the switch stays with the second user. -/
theorem preInit_identity_map_last : SameWho {}
    [.setUser (some (lit "alice")) none, .setUser (some (lit "bob")) none,
      .setUserMetadata (some [(some (lit "displayName"), some (lit "Bob"))])] := by
  refine (preInit_identity_iff {} _ fun k hk => ?_).mpr (.inr ?_)
  · simp only [List.mem_cons, List.not_mem_nil, or_false] at hk
    rcases hk with rfl | rfl | rfl
    · exact valid_setUser (by decide)
    · exact valid_setUser (by decide)
    · exact valid_setUserMetadata (by decide) (by decide)
  · exact leavesMap_setUserMetadata
      [.setUser (some (lit "alice")) none, .setUser (some (lit "bob")) none] _

/-- A map that was set under one user is attached to the next one. -/
theorem bufferedMap_follows_switch : ¬ ∀ (o : Launch) (calls : List IdentityCall),
    (∀ k ∈ calls, k.ValidUtf8) → SameWho o calls := by
  intro hall
  have hsame := hall {} [.setUser (some (lit "alice")) none,
      .setUserMetadata (some [(some (lit "displayName"), some (lit "Alice"))]),
      .setUser (some (lit "bob")) none] (by
    intro k hk
    simp only [List.mem_cons, List.not_mem_nil, or_false] at hk
    rcases hk with rfl | rfl | rfl
    · exact valid_setUser (by decide)
    · exact valid_setUserMetadata (by decide) (by decide)
    · exact valid_setUser (by decide))
  have hdiffer : (replayed {} [.setUser (some (lit "alice")) none,
      .setUserMetadata (some [(some (lit "displayName"), some (lit "Alice"))]),
      .setUser (some (lit "bob")) none]).map State.who ≠
      (live {} [.setUser (some (lit "alice")) none,
        .setUserMetadata (some [(some (lit "displayName"), some (lit "Alice"))]),
        .setUser (some (lit "bob")) none]).map State.who := by
    decide
  obtain ⟨s, t, hs, ht, hwho⟩ := hsame
  rw [hs, ht] at hdiffer
  exact hdiffer (congrArg some hwho)

end Tombstone.Session
