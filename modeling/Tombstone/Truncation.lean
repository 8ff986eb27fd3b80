import Tombstone.Payloads
import Tombstone.Utf8

/- What `utf8_safe_truncate` and `clamp_user_metadata` do to valid UTF-8.

   The cut backs off over continuation bytes, so on valid strings it is the longest valid
   prefix within the limit (`utf8SafeTruncate_eq`), and a map that was clamped once is
   clamped again to itself (`clampUserMetadata_clamped`). -/
namespace Tombstone

variable {value : Bytes} {n : Nat}

/-! ## The cut -/

theorem isContinuation_iff : ∀ b, isContinuation b = true ↔ Utf8.IsTail b := by
  apply forall_byte
  decide +kernel

/-- The loop stops at the last position that no continuation byte follows. -/
theorem backOff_spec (value : Bytes) (n : Nat) :
    backOff value n ≤ n ∧
      (backOff value n = 0 ∨ isContinuation (value.getD (backOff value n) 0) = false) ∧
      ∀ j, backOff value n < j → j ≤ n → isContinuation (value.getD j 0) = true := by
  induction n with
  | zero => exact ⟨Nat.le_refl _, .inl rfl, fun j h h' => by omega⟩
  | succ n ih =>
    unfold backOff
    split
    · rename_i htail
      obtain ⟨hle, hstop, hskipped⟩ := ih
      refine ⟨by omega, hstop, fun j hlt hj => ?_⟩
      rcases Nat.lt_or_ge n j with h | h
      · obtain rfl : j = n + 1 := by omega
        exact htail
      · exact hskipped j hlt h
    · rename_i hfirst
      exact ⟨Nat.le_refl _, .inr (by simpa using hfirst), fun j h h' => by omega⟩

theorem utf8SafeTruncate_length (value : Bytes) (n : Nat) :
    (utf8SafeTruncate value n).length ≤ n := by
  unfold utf8SafeTruncate
  split
  · assumption
  · rw [List.length_take]
    exact Nat.le_trans (Nat.min_le_left _ _) (backOff_spec value n).1

theorem length_clamped (value : CString) (n : Nat) : (clamped value n).length ≤ n := by
  cases value with
  | none => exact Nat.zero_le n
  | some value => exact utf8SafeTruncate_length value n

theorem utf8SafeTruncate_prefix (value : Bytes) (n : Nat) : utf8SafeTruncate value n <+: value := by
  unfold utf8SafeTruncate
  split
  · exact List.prefix_rfl
  · exact List.take_prefix _ _

theorem utf8SafeTruncate_valid (h : Utf8.Valid value) (n : Nat) :
    Utf8.Valid (utf8SafeTruncate value n) := by
  unfold utf8SafeTruncate
  split
  · exact h
  · rename_i hlong
    obtain ⟨hle, hstop, -⟩ := backOff_spec value n
    rw [Utf8.valid_take_iff h (by omega), ← isContinuation_iff]
    rcases hstop with hzero | hfirst
    · -- a cut before the first byte
      have hempty : Utf8.Valid (value.take 0) := Utf8.Valid.nil
      rw [Utf8.valid_take_iff h (by omega), ← isContinuation_iff] at hempty
      simpa only [hzero] using hempty
    · rw [List.getD_eq_getElem?_getD, List.getElem?_eq_getElem (by omega), Option.getD_some] at hfirst
      rw [hfirst]
      exact Bool.false_ne_true

/-- **On valid UTF-8 the cut is the longest valid prefix within the limit.** -/
theorem utf8SafeTruncate_eq (h : Utf8.Valid value) (n : Nat) :
    utf8SafeTruncate value n = Utf8.longestPrefix n value := by
  have hprefix := utf8SafeTruncate_prefix value n
  have hle : (utf8SafeTruncate value n).length ≤ (Utf8.longestPrefix n value).length :=
    Utf8.longestPrefix_longest hprefix (utf8SafeTruncate_length value n) (utf8SafeTruncate_valid h n)
  have hge : (Utf8.longestPrefix n value).length ≤ (utf8SafeTruncate value n).length := by
    have hlong := Utf8.longestPrefix_length n value
    have hpre := Utf8.longestPrefix_prefix n value
    have hvalid := Utf8.longestPrefix_valid n value
    unfold utf8SafeTruncate
    split
    · exact hpre.length_le
    · rename_i hcut
      rw [List.length_take]
      by_contra hshort
      -- a longer valid prefix would end before a continuation byte
      obtain ⟨-, -, hskipped⟩ := backOff_spec value n
      have htail := hskipped (Utf8.longestPrefix n value).length (by omega) hlong
      rw [List.prefix_iff_eq_take.mp hpre, Utf8.valid_take_iff h (by omega),
        ← isContinuation_iff] at hvalid
      rw [List.getD_eq_getElem?_getD, List.getElem?_eq_getElem (by omega), Option.getD_some] at htail
      exact hvalid htail
  rw [List.prefix_iff_eq_take.mp hprefix, Nat.le_antisymm hle hge]
  exact (List.prefix_iff_eq_take.mp (Utf8.longestPrefix_prefix n value)).symm

theorem utf8SafeTruncate_ne_nil (h : Utf8.Valid value) (hne : value ≠ []) (hn : 4 ≤ n) :
    utf8SafeTruncate value n ≠ [] := by
  obtain ⟨cs, rfl⟩ := h
  cases cs with
  | nil => exact absurd rfl hne
  | cons c cs =>
    obtain ⟨b, tail, hc, hlen, -, -⟩ := Utf8.encodeChar_shape c
    have htails := Utf8.tails_le b
    have hshort : (String.utf8EncodeChar c).length ≤ n := by
      rw [hc, List.length_cons]
      omega
    have hlead : String.utf8EncodeChar c <+: Utf8.encode (c :: cs) := List.prefix_append _ _
    have hfirst := Utf8.longestPrefix_longest hlead hshort ⟨[c], by simp [Utf8.encode]⟩
    rw [utf8SafeTruncate_eq ⟨c :: cs, rfl⟩]
    intro hnil
    rw [hnil, hc] at hfirst
    simp at hfirst

/-- `p` is the longest prefix of `text` within the limit that is valid UTF-8. -/
structure LongestValid (limit : Nat) (text p : Bytes) : Prop where
  start : p <+: text
  length_le : p.length ≤ limit
  valid : Utf8.Valid p
  longest : ∀ q, q <+: text → q.length ≤ limit → Utf8.Valid q → q.length ≤ p.length

theorem utf8SafeTruncate_longestValid (h : Utf8.Valid value) (n : Nat) :
    LongestValid n value (utf8SafeTruncate value n) := by
  have hfront := utf8SafeTruncate_prefix value n
  refine ⟨hfront, utf8SafeTruncate_length value n, utf8SafeTruncate_valid h n, ?_⟩
  intro q hq hlen hvalid
  rw [utf8SafeTruncate_eq h]
  exact Utf8.longestPrefix_longest hq hlen hvalid

theorem LongestValid.eq {limit : Nat} {text p q : Bytes} (hp : LongestValid limit text p)
    (hq : LongestValid limit text q) : p = q := by
  have hle := hq.longest p hp.start hp.length_le hp.valid
  have hge := hp.longest q hq.start hq.length_le hq.valid
  calc p = text.take p.length := List.prefix_iff_eq_take.mp hp.start
    _ = text.take q.length := by rw [Nat.le_antisymm hle hge]
    _ = q := (List.prefix_iff_eq_take.mp hq.start).symm

/-- The longest valid prefix of the longest valid prefix, under both limits. -/
theorem LongestValid.trans {m n : Nat} {text p q : Bytes} (hp : LongestValid m text p)
    (hq : LongestValid n p q) : LongestValid (min m n) text q := by
  refine ⟨hq.start.trans hp.start, ?_, hq.valid, fun r hr hlen hvalid => ?_⟩
  · have hshort := hq.start.length_le
    have hm := hp.length_le
    have hn := hq.length_le
    omega
  · have hlong := hp.longest r hr (by omega) hvalid
    exact hq.longest r (List.prefix_of_prefix_length_le hr hp.start hlong) (by omega) hvalid

/-- At most three bytes are dropped that were within the limit. -/
theorem utf8SafeTruncate_drops (h : Utf8.Valid value) (n : Nat) :
    min n value.length ≤ (utf8SafeTruncate value n).length + 3 := by
  obtain ⟨j, hle, hnear, hvalid⟩ := Utf8.exists_valid_take h (Nat.min_le_right n value.length)
  have hlen : (value.take j).length = j := by
    rw [List.length_take]
    omega
  have hlong := (utf8SafeTruncate_longestValid h n).longest (value.take j) (List.take_prefix j value)
    (by omega) hvalid
  omega

/-- **The cut is maximal**: the longest valid prefix within the limit, so that at most three bytes
are dropped, a limit of 4 leaves something of every text, and two cuts are one at the smaller
limit. -/
theorem utf8SafeTruncate_maximal (value : Bytes) (h : Utf8.Valid value) (m n : Nat) :
    LongestValid n value (utf8SafeTruncate value n) ∧
      min n value.length ≤ (utf8SafeTruncate value n).length + 3 ∧
      (value ≠ [] → 4 ≤ n → utf8SafeTruncate value n ≠ []) ∧
      utf8SafeTruncate (utf8SafeTruncate value m) n = utf8SafeTruncate value (min m n) := by
  have hfirst := utf8SafeTruncate_longestValid h m
  have htwice := hfirst.trans (utf8SafeTruncate_longestValid hfirst.valid n)
  exact ⟨utf8SafeTruncate_longestValid h n, utf8SafeTruncate_drops h n,
    utf8SafeTruncate_ne_nil h, htwice.eq (utf8SafeTruncate_longestValid h (min m n))⟩

/-- A euro sign behind two letters, cut inside the sign. -/
theorem utf8SafeTruncate_maximal_euro :
    utf8SafeTruncate [97, 98, 0xE2, 0x82, 0xAC] 4 = [97, 98] ∧
      LongestValid 4 [97, 98, 0xE2, 0x82, 0xAC] (utf8SafeTruncate [97, 98, 0xE2, 0x82, 0xAC] 4) := by
  have hvalid : Utf8.Valid [97, 98, 0xE2, 0x82, 0xAC] := ⟨['a', 'b', '€'], by decide⟩
  exact ⟨by decide, (utf8SafeTruncate_maximal _ hvalid 4 4).1⟩

/-! ## The clamped map -/

/-- The map is within the limits of the wire: no empty key or value, and no key twice. -/
structure ClampedMap (m : UserMetadataEntries) : Prop where
  keys : (m.map Prod.fst).Nodup
  size : m.length ≤ limits.userMetadataKeys
  entries : ∀ e ∈ m, e.1 ≠ [] ∧ e.1.length ≤ limits.userMetadataKey ∧
    e.2 ≠ [] ∧ e.2.length ≤ limits.userMetadataValue

theorem replaceValue_keys {key val : Bytes} {m m' : UserMetadataEntries}
    (h : replaceValue key val m = some m') :
    m'.map Prod.fst = m.map Prod.fst ∧ ∀ e ∈ m', e ∈ m ∨ e = (key, val) := by
  induction m generalizing m' with
  | nil => cases h
  | cons e m ih =>
    simp only [replaceValue] at h
    split at h
    · rename_i hkey
      obtain rfl := Option.some.inj h
      refine ⟨by simp [hkey], fun x hx => ?_⟩
      rcases List.mem_cons.mp hx with rfl | hx
      · exact .inr rfl
      · exact .inl (List.mem_cons_of_mem _ hx)
    · obtain ⟨m'', hrest, rfl⟩ := Option.map_eq_some_iff.mp h
      obtain ⟨hkeys, hmem⟩ := ih hrest
      refine ⟨by simp [hkeys], fun x hx => ?_⟩
      rcases List.mem_cons.mp hx with rfl | hx
      · exact .inl List.mem_cons_self
      · exact (hmem x hx).imp_left (List.mem_cons_of_mem _)

theorem replaceValue_none {key val : Bytes} {m : UserMetadataEntries} :
    replaceValue key val m = none ↔ key ∉ m.map Prod.fst := by
  induction m with
  | nil => simp [replaceValue]
  | cons e m ih =>
    simp only [replaceValue, List.map_cons, List.mem_cons, not_or]
    split
    · rename_i hkey
      simp [hkey]
    · rename_i hkey
      rw [Option.map_eq_none_iff, ih]
      exact ⟨fun h => ⟨fun h' => hkey h'.symm, h⟩, fun h => h.2⟩

/-- Valid entries of the caller. -/
def ValidEntries (entries : List (CString × CString)) : Prop :=
  ∀ e ∈ entries, (∀ k ∈ e.1, Utf8.Valid k) ∧ ∀ v ∈ e.2, Utf8.Valid v

theorem clampEntries_clamped {out : UserMetadataEntries} {entries : List (CString × CString)}
    (hout : ClampedMap out) (h : ValidEntries entries) : ClampedMap (clampEntries out entries) := by
  induction entries generalizing out with
  | nil => exact hout
  | cons e entries ih =>
    obtain ⟨key, value⟩ := e
    have hrest : ValidEntries entries := fun e he => h e (List.mem_cons_of_mem _ he)
    obtain ⟨hkey, hvalue⟩ := h _ List.mem_cons_self
    unfold clampEntries
    split
    · rename_i k ks v vs
      have hk := hkey _ rfl
      have hv := hvalue _ rfl
      -- the entry, clamped
      have hentry : ∀ e : Bytes × Bytes,
          e = (utf8SafeTruncate (k :: ks) limits.userMetadataKey,
            utf8SafeTruncate (v :: vs) limits.userMetadataValue) →
          e.1 ≠ [] ∧ e.1.length ≤ limits.userMetadataKey ∧ e.2 ≠ [] ∧
            e.2.length ≤ limits.userMetadataValue := by
        rintro e rfl
        exact ⟨utf8SafeTruncate_ne_nil hk (by simp) (by decide), utf8SafeTruncate_length _ _,
          utf8SafeTruncate_ne_nil hv (by simp) (by decide), utf8SafeTruncate_length _ _⟩
      dsimp only
      split
      · rename_i out' hreplaced
        obtain ⟨hkeys, hmem⟩ := replaceValue_keys hreplaced
        refine ih ⟨by rw [hkeys]; exact hout.keys, ?_, fun e he => ?_⟩ hrest
        · have hlen := congrArg List.length hkeys
          rw [List.length_map, List.length_map] at hlen
          rw [hlen]
          exact hout.size
        · exact (hmem e he).elim (hout.entries e) (hentry e)
      · rename_i hnew
        split
        · exact hout
        · rename_i hroom
          refine ih ⟨?_, ?_, fun e he => ?_⟩ hrest
          · rw [List.map_append]
            refine List.nodup_append.mpr ⟨hout.keys, by simp, ?_⟩
            intro a ha b hb hab
            rw [List.map_singleton, List.mem_singleton] at hb
            rw [hab, hb] at ha
            exact replaceValue_none.mp hnew ha
          · rw [List.length_append, List.length_singleton]
            omega
          · rcases List.mem_append.mp he with he | he
            · exact hout.entries e he
            · exact hentry e (List.mem_singleton.mp he)
    · exact ih hout hrest

theorem clampEntries_id {out m : UserMetadataEntries} (h : ClampedMap (out ++ m)) :
    clampEntries out (m.map fun e => (some e.1, some e.2)) = out ++ m := by
  induction m generalizing out with
  | nil => simp [clampEntries]
  | cons e m ih =>
    obtain ⟨key, value⟩ := e
    obtain ⟨hkey, hkeyLen, hvalue, hvalueLen⟩ := h.entries (key, value) (by simp)
    obtain ⟨k, ks, rfl⟩ := List.exists_cons_of_ne_nil hkey
    obtain ⟨v, vs, rfl⟩ := List.exists_cons_of_ne_nil hvalue
    have hnew : replaceValue (k :: ks) (v :: vs) out = none := by
      rw [replaceValue_none]
      have hkeys := h.keys
      rw [List.map_append, List.map_cons, List.nodup_append] at hkeys
      exact fun hmem => hkeys.2.2 _ hmem _ List.mem_cons_self rfl
    have hroom : ¬ limits.userMetadataKeys ≤ out.length := by
      have hsize := h.size
      rw [List.length_append, List.length_cons] at hsize
      omega
    rw [List.map_cons, clampEntries]
    rw [utf8SafeTruncate_of_le hkeyLen, utf8SafeTruncate_of_le hvalueLen, hnew]
    dsimp only
    rw [if_neg hroom, ih (by rwa [List.append_assoc]), List.append_assoc]
    rfl

/-- **Clamping a clamped map changes nothing.** -/
theorem clampUserMetadata_clamped {entries : Option (List (CString × CString))}
    (h : ∀ es ∈ entries, ValidEntries es) :
    clampUserMetadata (some ((clampUserMetadata entries).map fun e => (some e.1, some e.2))) =
      clampUserMetadata entries := by
  have hempty : ClampedMap [] := ⟨List.nodup_nil, Nat.zero_le _, nofun⟩
  have hclamped : ClampedMap (clampUserMetadata entries) := by
    cases entries with
    | none => exact hempty
    | some es => exact clampEntries_clamped hempty (h es rfl)
  have hstart : ClampedMap ([] ++ clampUserMetadata entries) := hclamped
  exact clampEntries_id hstart

end Tombstone
