import Tombstone.BoundedTable
import Tombstone.Truncation

/- What the metadata clamp keeps of a caller's arrays, against its contract: the first keys,
   each with its last value.

   The loop ends at the first pair whose key is one too many, and so do the updates of the
   keys before it. -/
namespace Tombstone
open BoundedTable (eraseDups_concat_of_mem eraseDups_concat_of_not_mem)

variable {pairs front : List (Bytes × Bytes)} {key value : Bytes}

/-- A pair that is not skipped, cut to the limits. -/
def usablePair : CString × CString → Option (Bytes × Bytes)
  | (some (k :: ks), some (v :: vs)) =>
    some (utf8SafeTruncate (k :: ks) limits.userMetadataKey,
      utf8SafeTruncate (v :: vs) limits.userMetadataValue)
  | _ => none

def usable (entries : Option (List (CString × CString))) : List (Bytes × Bytes) :=
  (entries.getD []).filterMap usablePair

/-- The distinct keys in order of first appearance. -/
def distinctKeys (pairs : List (Bytes × Bytes)) : List Bytes := (pairs.map Prod.fst).eraseDups

/-- The first of them, as many as a map may have. -/
def keptKeys (pairs : List (Bytes × Bytes)) : List Bytes :=
  (distinctKeys pairs).take limits.userMetadataKeys

/-- The value of the last pair under `key`. -/
def lastValue (pairs : List (Bytes × Bytes)) (key : Bytes) : Bytes :=
  (pairs.reverse.lookup key).getD []

/-- What stands in front of the first pair with a key too many. -/
def beforeCap (pairs : List (Bytes × Bytes)) : List (Bytes × Bytes) :=
  pairs.takeWhile fun pair => (keptKeys pairs).contains pair.1

/-- The map of the contract: the first keys, each with its last value. -/
def firstKeysLastValues (pairs : List (Bytes × Bytes)) : UserMetadataEntries :=
  (keptKeys pairs).map fun key => (key, lastValue pairs key)

/-! ## Distinct keys -/

theorem nodup_distinctKeys (pairs : List (Bytes × Bytes)) : (distinctKeys pairs).Nodup := by
  unfold distinctKeys
  induction pairs.map Prod.fst using List.reverseRecOn with
  | nil => simp
  | append_singleton keys key ih =>
    by_cases h : key ∈ keys
    · rwa [eraseDups_concat_of_mem h]
    · rw [eraseDups_concat_of_not_mem h, List.nodup_append]
      refine ⟨ih, by simp, fun a ha b hb heq => h ?_⟩
      rw [← List.mem_singleton.mp hb, ← heq]
      exact List.mem_eraseDups.mp ha

theorem distinctKeys_front (front back : List (Bytes × Bytes)) :
    distinctKeys front <+: distinctKeys (front ++ back) := by
  unfold distinctKeys
  rw [List.map_append, List.eraseDups_append]
  exact List.prefix_append _ _

theorem distinctKeys_old (h : key ∈ distinctKeys pairs) :
    distinctKeys (pairs ++ [(key, value)]) = distinctKeys pairs := by
  unfold distinctKeys at h ⊢
  rw [List.map_append, List.map_singleton, eraseDups_concat_of_mem (List.mem_eraseDups.mp h)]

theorem distinctKeys_new (h : key ∉ distinctKeys pairs) :
    distinctKeys (pairs ++ [(key, value)]) = distinctKeys pairs ++ [key] := by
  unfold distinctKeys at h ⊢
  rw [List.map_append, List.map_singleton,
    eraseDups_concat_of_not_mem fun hmem => h (List.mem_eraseDups.mpr hmem)]

theorem lastValue_concat (other : Bytes) : lastValue (pairs ++ [(key, value)]) other =
    if other = key then value else lastValue pairs other := by
  unfold lastValue
  rw [List.reverse_append, List.reverse_singleton, List.singleton_append, List.lookup_cons]
  by_cases h : other = key
  · simp [h]
  · have hother : (other == key) = false := by simpa using h
    rw [hother, if_neg h]

/-! ## The loop -/

/-- The map that the pairs read so far make. -/
def shown (pairs : List (Bytes × Bytes)) : UserMetadataEntries :=
  (distinctKeys pairs).map fun key => (key, lastValue pairs key)

theorem keys_shown (pairs : List (Bytes × Bytes)) :
    (shown pairs).map Prod.fst = distinctKeys pairs := by
  simp [shown, Function.comp_def]

theorem replaceValue_map {keys : List Bytes} {f : Bytes → Bytes} (hkeys : keys.Nodup)
    (h : key ∈ keys) : replaceValue key value (keys.map fun k => (k, f k)) =
      some (keys.map fun k => (k, if k = key then value else f k)) := by
  induction keys with
  | nil => cases h
  | cons k keys ih =>
    obtain ⟨hk, hrest⟩ := List.nodup_cons.mp hkeys
    rw [List.map_cons, List.map_cons, replaceValue]
    by_cases hkey : k = key
    · subst hkey
      have hothers : ∀ other ∈ keys, (other, f other) =
          (other, if other = k then value else f other) := by
        intro other hother
        rw [if_neg fun heq : other = k => hk (heq ▸ hother)]
      rw [if_pos rfl, if_pos rfl, List.map_congr_left hothers]
    · rw [if_neg hkey, if_neg hkey, ih hrest ((List.mem_cons.mp h).resolve_left (Ne.symm hkey)),
        Option.map_some]

theorem replaceValue_shown (h : key ∈ distinctKeys pairs) :
    replaceValue key value (shown pairs) = some (shown (pairs ++ [(key, value)])) := by
  unfold shown
  rw [replaceValue_map (nodup_distinctKeys pairs) h, distinctKeys_old h]
  simp only [lastValue_concat]

theorem shown_new (h : key ∉ distinctKeys pairs) :
    shown (pairs ++ [(key, value)]) = shown pairs ++ [(key, value)] := by
  have hothers : ∀ other ∈ distinctKeys pairs,
      (other, lastValue (pairs ++ [(key, value)]) other) = (other, lastValue pairs other) := by
    intro other hother
    rw [lastValue_concat, if_neg fun heq : other = key => h (heq ▸ hother)]
  unfold shown
  rw [distinctKeys_new h, List.map_append, List.map_congr_left hothers, List.map_singleton,
    lastValue_concat, if_pos rfl]

/-- While the keys fit, they are the first keys of whatever follows. -/
theorem keptKeys_full (back : List (Bytes × Bytes))
    (h : (distinctKeys front).length = limits.userMetadataKeys) :
    keptKeys (front ++ back) = distinctKeys front := by
  unfold keptKeys
  rw [← h]
  exact (List.prefix_iff_eq_take.mp (distinctKeys_front front back)).symm

theorem mem_keptKeys (back : List (Bytes × Bytes))
    (h : (distinctKeys front).length ≤ limits.userMetadataKeys) (hkey : key ∈ distinctKeys front) :
    key ∈ keptKeys (front ++ back) := by
  obtain ⟨later, hlater⟩ := distinctKeys_front front back
  unfold keptKeys
  rw [← hlater, List.take_append, List.take_of_length_le h]
  exact List.mem_append_left _ hkey

theorem clampEntries_skip {out : UserMetadataEntries} {entry : CString × CString}
    {entries : List (CString × CString)} (h : usablePair entry = none) :
    clampEntries out (entry :: entries) = clampEntries out entries := by
  unfold usablePair at h
  split at h
  · cases h
  · next hskip =>
    obtain ⟨k, v⟩ := entry
    rw [clampEntries]
    intro k' ks v' vs hk hv
    exact hskip k' ks v' vs (by rw [hk, hv])

theorem clampEntries_pair {out : UserMetadataEntries} {entry : CString × CString}
    {entries : List (CString × CString)} (h : usablePair entry = some (key, value)) :
    clampEntries out (entry :: entries) =
      match replaceValue key value out with
      | some out' => clampEntries out' entries
      | none =>
        if limits.userMetadataKeys ≤ out.length then out
        else clampEntries (out ++ [(key, value)]) entries := by
  unfold usablePair at h
  split at h
  · obtain ⟨rfl, rfl⟩ := Prod.mk.inj (Option.some.inj h)
    rfl
  · cases h

/-- The loop, from a map that shows the pairs in front: it reads on as long as the keys are
among the first ones. -/
theorem clampEntries_shown (entries : List (CString × CString)) (front : List (Bytes × Bytes))
    (hsize : (distinctKeys front).length ≤ limits.userMetadataKeys) :
    let pairs := front ++ entries.filterMap usablePair
    clampEntries (shown front) entries = (keptKeys pairs).map fun key =>
      (key, lastValue (front ++ (entries.filterMap usablePair).takeWhile
        fun pair => (keptKeys pairs).contains pair.1) key) := by
  induction entries generalizing front with
  | nil =>
    intro pairs
    have hkept : keptKeys pairs = distinctKeys front := by
      simp only [pairs, keptKeys, List.filterMap_nil, List.append_nil]
      exact List.take_of_length_le hsize
    rw [hkept]
    simp [clampEntries, shown]
  | cons entry entries ih =>
    intro pairs
    cases hpair : usablePair entry with
    | none =>
      have hpairs : pairs = front ++ entries.filterMap usablePair := by
        simp [pairs, hpair]
      rw [clampEntries_skip hpair, ih front hsize, hpairs, List.filterMap_cons, hpair]
    | some pair =>
      obtain ⟨key, value⟩ := pair
      have hpairs : pairs = front ++ (key, value) :: entries.filterMap usablePair := by
        simp [pairs, hpair]
      have hpairs' : pairs = front ++ [(key, value)] ++ entries.filterMap usablePair := by
        simp [hpairs]
      rw [clampEntries_pair hpair, List.filterMap_cons, hpair]
      by_cases hkey : key ∈ distinctKeys front
      · -- an update: the keys stay
        have hkept : key ∈ keptKeys pairs := mem_keptKeys _ hsize hkey
        have hnext := ih (front ++ [(key, value)]) (by rwa [distinctKeys_old hkey])
        rw [replaceValue_shown hkey]
        rw [← hpairs'] at hnext
        simpa [hkept] using hnext
      · have hnew : replaceValue key value (shown front) = none := by
          rw [replaceValue_none, keys_shown]
          exact hkey
        have hlength : (shown front).length = (distinctKeys front).length := List.length_map _
        rw [hnew]
        dsimp only
        rw [hlength]
        by_cases hfull : limits.userMetadataKeys ≤ (distinctKeys front).length
        · -- the loop ends at a key too many
          have hkept : keptKeys pairs = distinctKeys front :=
            keptKeys_full _ (by omega)
          rw [if_pos hfull, hkept]
          simp [hkey, shown]
        · have hsize' : (distinctKeys (front ++ [(key, value)])).length ≤
              limits.userMetadataKeys := by
            rw [distinctKeys_new hkey, List.length_append, List.length_singleton]
            omega
          have hkept : key ∈ keptKeys pairs := by
            rw [hpairs']
            apply mem_keptKeys _ hsize'
            rw [distinctKeys_new hkey]
            simp
          have hnext := ih (front ++ [(key, value)]) hsize'
          rw [if_neg hfull, ← shown_new hkey]
          rw [← hpairs'] at hnext
          simpa [hkept] using hnext

/-- What the loop makes of the arrays: the first keys, each with its last value in front of
the first key too many. -/
theorem clampUserMetadata_eq (entries : Option (List (CString × CString))) :
    clampUserMetadata entries = (keptKeys (usable entries)).map fun key =>
      (key, lastValue (beforeCap (usable entries)) key) := by
  have hloop := clampEntries_shown (entries.getD []) [] (by decide)
  simp only [List.nil_append] at hloop
  exact hloop

/-- **The clamp keeps the contract exactly when no update comes too late**: the last value of
each kept key stands in front of the first key too many, or is the same as the last one
there. -/
theorem clampUserMetadata_iff (entries : Option (List (CString × CString))) :
    clampUserMetadata entries = firstKeysLastValues (usable entries) ↔
      ∀ key ∈ keptKeys (usable entries),
        lastValue (beforeCap (usable entries)) key = lastValue (usable entries) key := by
  rw [clampUserMetadata_eq, firstKeysLastValues, List.map_inj_left]
  simp

/-- Seventeen keys, and an update of the first. -/
def lateUpdate : List (CString × CString) :=
  (List.range 17).map (fun n => (some [ch 'k', UInt8.ofNat (n + 65)], some (lit "old"))) ++
    [(some (lit "kA"), some (lit "new"))]

/-- **The update is lost.** -/
theorem lateUpdate_lost :
    clampUserMetadata (some lateUpdate) ≠ firstKeysLastValues (usable (some lateUpdate)) := by
  decide +kernel

end Tombstone
