import Mathlib.Data.Nat.Find
import Mathlib.Data.List.Basic

/- UTF-8 byte strings: the encodings of sequences of Unicode scalar values.

   This file

   1. defines validity (`Valid`) from the encoder of the core library, and reads off the
      shape of one encoded character: a first byte that tells its length, and continuation
      bytes (`encodeChar_shape`);
   2. proves that a valid string can be cut exactly before a byte that is no continuation
      byte (`valid_take_iff`);
   3. defines the longest valid prefix within a limit (`longestPrefix`). -/
namespace Tombstone.Utf8

def encode (cs : List Char) : List UInt8 := cs.flatMap String.utf8EncodeChar

/-- A valid UTF-8 string. -/
def Valid (bs : List UInt8) : Prop := ∃ cs, bs = encode cs

/-- A continuation byte. -/
def IsTail (b : UInt8) : Prop := 128 ≤ b.toNat ∧ b.toNat < 192

instance (b : UInt8) : Decidable (IsTail b) := inferInstanceAs (Decidable (_ ∧ _))

/-- How many continuation bytes follow a first byte. -/
def tails (b : UInt8) : Nat :=
  if b.toNat < 128 then 0 else if b.toNat < 224 then 1 else if b.toNat < 240 then 2 else 3

theorem tails_le (b : UInt8) : tails b ≤ 3 := by
  unfold tails
  split
  · omega
  · split
    · omega
    · split <;> omega

/-! ## One character -/

theorem isTail_ofNat (n : Nat) : IsTail (UInt8.ofNat (n % 64 + 128)) := by
  unfold IsTail
  rw [UInt8.toNat_ofNat_of_lt' (by simp only [UInt8.size]; omega)]
  omega

/-- A character is a first byte and the continuation bytes it announces. -/
theorem encodeChar_shape (c : Char) : ∃ b tail, String.utf8EncodeChar c = b :: tail ∧
    tail.length = tails b ∧ ¬ IsTail b ∧ ∀ t ∈ tail, IsTail t := by
  have hv : c.val.toNat < 1114112 := by
    have := c.valid
    simp only [UInt32.isValidChar, Nat.isValidChar] at this
    omega
  have hfirst : ∀ n, n < 256 → (UInt8.ofNat n).toNat = n := fun n hn =>
    UInt8.toNat_ofNat_of_lt' hn
  unfold String.utf8EncodeChar
  dsimp only
  split
  · refine ⟨_, [], rfl, ?_, ?_, nofun⟩
    · unfold tails
      rw [hfirst _ (by omega), if_pos (by omega)]
      rfl
    · unfold IsTail
      rw [hfirst _ (by omega)]
      omega
  · split
    · refine ⟨_, _, rfl, ?_, ?_, ?_⟩
      · unfold tails
        rw [hfirst _ (by omega), if_neg (by omega), if_pos (by omega)]
        rfl
      · unfold IsTail
        rw [hfirst _ (by omega)]
        omega
      · intro t ht
        rw [List.mem_singleton.mp ht]
        exact isTail_ofNat _
    · split
      · refine ⟨_, _, rfl, ?_, ?_, ?_⟩
        · unfold tails
          rw [hfirst _ (by omega), if_neg (by omega), if_neg (by omega), if_pos (by omega)]
          rfl
        · unfold IsTail
          rw [hfirst _ (by omega)]
          omega
        · intro t ht
          simp only [List.mem_cons, List.not_mem_nil, or_false] at ht
          rcases ht with rfl | rfl <;> exact isTail_ofNat _
      · refine ⟨_, _, rfl, ?_, ?_, ?_⟩
        · unfold tails
          rw [hfirst _ (by omega), if_neg (by omega), if_neg (by omega), if_neg (by omega)]
          rfl
        · unfold IsTail
          rw [hfirst _ (by omega)]
          omega
        · intro t ht
          simp only [List.mem_cons, List.not_mem_nil, or_false] at ht
          rcases ht with rfl | rfl | rfl <;> exact isTail_ofNat _

@[simp] theorem encode_nil : encode [] = [] := rfl

theorem encode_cons (c : Char) (cs : List Char) :
    encode (c :: cs) = String.utf8EncodeChar c ++ encode cs := rfl

theorem Valid.nil : Valid [] := ⟨[], rfl⟩

theorem Valid.append {x y : List UInt8} (hx : Valid x) (hy : Valid y) : Valid (x ++ y) := by
  obtain ⟨cs, rfl⟩ := hx
  obtain ⟨ds, rfl⟩ := hy
  exact ⟨cs ++ ds, by simp [encode]⟩

/-- ASCII characters are their own encoding. -/
theorem encodeChar_ascii {b : UInt8} (h : b < 0x80) :
    String.utf8EncodeChar (Char.ofNat b.toNat) = [b] := by
  have hall : ∀ n : Fin 128, String.utf8EncodeChar (Char.ofNat n) = [UInt8.ofNat n] := by
    decide +kernel
  have hb := hall ⟨b.toNat, h⟩
  rwa [UInt8.ofNat_toNat] at hb

theorem valid_of_ascii {bs : List UInt8} (h : ∀ b ∈ bs, b < 0x80) : Valid bs := by
  induction bs with
  | nil => exact Valid.nil
  | cons b bs ih =>
    have hone : Valid [b] :=
      ⟨[Char.ofNat b.toNat], by simp [encode, encodeChar_ascii (h b List.mem_cons_self)]⟩
    exact hone.append (ih fun c hc => h c (List.mem_cons_of_mem b hc))

/-- The same, by looking at every byte. -/
theorem valid_literal {bs : List UInt8} (h : (bs.all fun b => b < 0x80) = true) : Valid bs :=
  valid_of_ascii fun b hb => of_decide_eq_true (List.all_eq_true.1 h b hb)

/-- The first byte tells where the first character ends. -/
theorem valid_char_append (c : Char) (x : List UInt8) :
    Valid (String.utf8EncodeChar c ++ x) ↔ Valid x := by
  constructor
  · rintro ⟨cs, hcs⟩
    obtain ⟨b, tail, hc, hlen, -, -⟩ := encodeChar_shape c
    cases cs with
    | nil => simp [hc] at hcs
    | cons d cs =>
      obtain ⟨b', tail', hd, hlen', -, -⟩ := encodeChar_shape d
      rw [encode_cons, hc, hd, List.cons_append, List.cons_append] at hcs
      obtain ⟨rfl, hrest⟩ := List.cons.inj hcs
      exact ⟨cs, (List.append_inj hrest (by omega)).2⟩
  · rintro ⟨cs, rfl⟩
    exact ⟨c :: cs, rfl⟩

/-- A proper prefix of a character is no valid string, unless it is empty. -/
theorem not_valid_take_char (c : Char) {k : Nat} (hk : 0 < k)
    (hlt : k < (String.utf8EncodeChar c).length) : ¬ Valid ((String.utf8EncodeChar c).take k) := by
  rintro ⟨cs, hcs⟩
  obtain ⟨b, tail, hc, hlen, -, -⟩ := encodeChar_shape c
  obtain ⟨k, rfl⟩ : ∃ j, k = j + 1 := ⟨k - 1, by omega⟩
  rw [hc, List.take_succ_cons] at hcs
  cases cs with
  | nil => cases hcs
  | cons d cs =>
    obtain ⟨b', tail', hd, hlen', -, -⟩ := encodeChar_shape d
    rw [encode_cons, hd, List.cons_append] at hcs
    obtain ⟨rfl, hrest⟩ := List.cons.inj hcs
    have hlength := congrArg List.length hrest
    rw [List.length_take, List.length_append] at hlength
    rw [hc, List.length_cons] at hlt
    omega

/-! ## Cutting a valid string -/

/-- **A valid string can be cut exactly where no continuation byte follows.** -/
theorem valid_take_iff {bs : List UInt8} (h : Valid bs) {k : Nat} (hk : k < bs.length) :
    Valid (bs.take k) ↔ ¬ IsTail bs[k] := by
  obtain ⟨cs, rfl⟩ := h
  induction cs generalizing k with
  | nil => simp at hk
  | cons c cs ih =>
    obtain ⟨b, tail, hc, hlen, hfirst, htail⟩ := encodeChar_shape c
    rcases Nat.lt_or_ge k (String.utf8EncodeChar c).length with hlt | hge
    · -- the cut is inside the first character, or before it
      simp only [encode_cons] at hk ⊢
      rw [List.take_append_of_le_length (by omega), List.getElem_append_left hlt]
      cases k with
      | zero =>
        simp only [hc, List.take_zero, List.getElem_cons_zero]
        exact iff_of_true Valid.nil hfirst
      | succ k =>
        refine iff_of_false (not_valid_take_char c (Nat.succ_pos k) hlt) (not_not_intro ?_)
        simp only [hc, List.getElem_cons_succ]
        exact htail _ (List.getElem_mem _)
    · simp only [encode_cons] at hk ⊢
      rw [List.length_append] at hk
      rw [List.take_append, List.take_of_length_le hge, valid_char_append,
        List.getElem_append_right hge]
      exact ih (by omega)

theorem length_encodeChar (c : Char) : 0 < (String.utf8EncodeChar c).length ∧ (String.utf8EncodeChar c).length ≤ 4 := by
  obtain ⟨b, tail, hc, hlen, -, -⟩ := encodeChar_shape c
  have htails := tails_le b
  rw [hc, List.length_cons]
  omega

/-- **Every four places in a row** have one where a valid string can be cut. -/
theorem exists_valid_take {bs : List UInt8} (h : Valid bs) {k : Nat} (hk : k ≤ bs.length) :
    ∃ j, j ≤ k ∧ k ≤ j + 3 ∧ Valid (bs.take j) := by
  obtain ⟨cs, rfl⟩ := h
  induction cs generalizing k with
  | nil => exact ⟨0, Nat.zero_le k, Nat.le_trans hk (Nat.zero_le 3), Valid.nil⟩
  | cons c cs ih =>
    have hlength := length_encodeChar c
    rcases Nat.lt_or_ge k (String.utf8EncodeChar c).length with hlt | hge
    · -- before the first character
      exact ⟨0, Nat.zero_le k, by omega, Valid.nil⟩
    · rw [encode_cons, List.length_append] at hk
      obtain ⟨j, hle, hnear, hvalid⟩ := ih (k := k - (String.utf8EncodeChar c).length) (by omega)
      refine ⟨(String.utf8EncodeChar c).length + j, by omega, by omega, ?_⟩
      rw [encode_cons, List.take_length_add_append, valid_char_append]
      exact hvalid

/-! ## The longest valid prefix -/

open Classical in
/-- The longest valid prefix of `bs` of at most `limit` bytes. -/
noncomputable def longestPrefix (limit : Nat) (bs : List UInt8) : List UInt8 :=
  bs.take (Nat.findGreatest (fun k => Valid (bs.take k)) limit)

theorem longestPrefix_prefix (limit : Nat) (bs : List UInt8) : longestPrefix limit bs <+: bs :=
  List.take_prefix _ _

theorem longestPrefix_length (limit : Nat) (bs : List UInt8) :
    (longestPrefix limit bs).length ≤ limit := by
  classical
  unfold longestPrefix
  rw [List.length_take]
  exact Nat.le_trans (Nat.min_le_left _ _) (Nat.findGreatest_le _)

theorem longestPrefix_valid (limit : Nat) (bs : List UInt8) : Valid (longestPrefix limit bs) := by
  classical
  unfold longestPrefix
  exact Nat.findGreatest_spec (P := fun k => Valid (bs.take k)) (Nat.zero_le limit) Valid.nil

/-- No valid prefix within the limit is longer. -/
theorem longestPrefix_longest {limit : Nat} {bs p : List UInt8} (hp : p <+: bs)
    (hlen : p.length ≤ limit) (hvalid : Valid p) : p.length ≤ (longestPrefix limit bs).length := by
  classical
  have htake : bs.take p.length = p := (List.prefix_iff_eq_take.mp hp).symm
  have hle := Nat.le_findGreatest (P := fun k => Valid (bs.take k)) hlen (by rwa [htake])
  unfold longestPrefix
  rw [List.length_take]
  have := hp.length_le
  omega

end Tombstone.Utf8
