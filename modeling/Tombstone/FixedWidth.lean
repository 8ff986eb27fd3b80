import Tombstone.Decimal

/- Numbers in a fixed number of digits, with zeros in front: what a conversion such as `%02u`
   writes of a number that fits, what a reader of so many digits gets back, and that such texts
   compare as their numbers. -/
namespace Tombstone.FixedWidth
open Decimal (text value)

/-- The conversion: zeros in front, up to the width. -/
def padded (width n : Nat) : Bytes := List.replicate (width - (text n).length) (ch '0') ++ text n

/-- The last so many digits. -/
def digits : Nat → Nat → Bytes
  | 0, _ => []
  | k + 1, n => digits k (n / 10) ++ [(48 + n % 10).toUInt8]

/-- A reader: so many digits, and the byte `stop` behind them. -/
def readNumber (k : Nat) (stop : UInt8) (input : Bytes) : Option (Nat × Bytes) :=
  let front := input.take k
  if front.length = k ∧ (front.all fun c => 48 ≤ c && c ≤ 57) ∧ (input.drop k).head? = some stop then
    some (front.foldl (fun v c => v * 10 + value c) 0, input.drop (k + 1))
  else none

@[simp] theorem digits_length (k n : Nat) : (digits k n).length = k := by
  induction k generalizing n with
  | zero => rfl
  | succ k ih => rw [digits, List.length_append, ih, List.length_singleton]

/-- What fits is written in its digits. -/
theorem padded_eq (k n : Nat) (h : n < 10 ^ (k + 1)) : padded (k + 1) n = digits (k + 1) n := by
  induction k generalizing n with
  | zero =>
    have hn : n < 10 := by omega
    rw [padded, Decimal.text_of_lt hn, digits, Nat.mod_eq_of_lt hn]
    rfl
  | succ k ih =>
    rw [digits]
    by_cases hn : n < 10
    · have hzero : n / 10 = 0 := by omega
      have hpos : 0 < 10 ^ (k + 1) := Nat.pow_pos (by decide)
      have hzeros : padded (k + 1) 0 = List.replicate (k + 1) (ch '0') := by
        rw [padded, Decimal.text_of_lt (by decide), List.length_singleton, List.replicate_succ']
        rfl
      rw [hzero, ← ih 0 hpos, hzeros, padded, Decimal.text_of_lt hn, Nat.mod_eq_of_lt hn]
      rfl
    · have hfront := ih (n / 10) (by rw [Nat.pow_succ] at h; omega)
      rw [← hfront, padded, padded, Decimal.text_of_ge (by omega), List.length_append,
        List.length_singleton, Nat.add_sub_add_right, List.append_assoc]

private theorem digit_facts : ∀ a, a < 10 → ∀ b, b < 10 →
    (48 ≤ (48 + a).toUInt8 ∧ (48 + a).toUInt8 ≤ 57) ∧
      ((48 + a).toUInt8 < (48 + b).toUInt8 ↔ a < b) ∧
      ((48 + a).toUInt8 = (48 + b).toUInt8 ↔ a = b) := by
  decide

theorem mem_digits {k n : Nat} {c : UInt8} (h : c ∈ digits k n) : 48 ≤ c ∧ c ≤ 57 := by
  induction k generalizing n with
  | zero => exact absurd h List.not_mem_nil
  | succ k ih =>
    rw [digits, List.mem_append, List.mem_singleton] at h
    rcases h with h | rfl
    · exact ih h
    · exact (digit_facts (n % 10) (Nat.mod_lt n (by decide)) 0 (by decide)).1

theorem value_digits (k n : Nat) (h : n < 10 ^ k) :
    (digits k n).foldl (fun v c => v * 10 + value c) 0 = n := by
  induction k generalizing n with
  | zero =>
    rw [digits, List.foldl_nil]
    omega
  | succ k ih =>
    have hfront := ih (n / 10) (by rw [Nat.pow_succ] at h; omega)
    rw [digits, List.foldl_append, hfront, List.foldl_cons, List.foldl_nil,
      Decimal.value_digit (Nat.mod_lt n (by decide))]
    omega

/-- **What is written is read back.** -/
theorem readNumber_digits (k n : Nat) (h : n < 10 ^ k) (stop : UInt8) (rest : Bytes) :
    readNumber k stop (digits k n ++ stop :: rest) = some (n, rest) := by
  have hfront : (digits k n ++ stop :: rest).take k = digits k n := by
    rw [List.take_append_of_le_length (by simp), List.take_of_length_le (by simp)]
  have hrest : (digits k n ++ stop :: rest).drop k = stop :: rest := by
    rw [List.drop_append, List.drop_of_length_le (by simp), digits_length, Nat.sub_self]
    rfl
  have hdigits : ((digits k n).all fun c => 48 ≤ c && c ≤ 57) = true := by
    rw [List.all_eq_true]
    intro c hc
    simp [mem_digits hc]
  unfold readNumber
  dsimp only
  rw [hfront, hrest, ← List.drop_drop, hrest, value_digits k n h,
    if_pos ⟨digits_length k n, hdigits, rfl⟩]
  rfl

/-- **Texts compare as numbers**, and then as what follows. -/
theorem digits_lt_iff (k : Nat) {n m : Nat} (hn : n < 10 ^ k) (hm : m < 10 ^ k) (x y : Bytes) :
    digits k n ++ x < digits k m ++ y ↔ n < m ∨ n = m ∧ x < y := by
  induction k generalizing n m x y with
  | zero =>
    have hn : n = 0 := by omega
    have hm : m = 0 := by omega
    subst hn hm
    simp [digits]
  | succ k ih =>
    rw [Nat.pow_succ] at hn hm
    obtain ⟨-, hlt, heq⟩ := digit_facts (n % 10) (Nat.mod_lt n (by decide)) (m % 10)
      (Nat.mod_lt m (by decide))
    rw [digits, digits, List.append_assoc, List.append_assoc, List.singleton_append,
      List.singleton_append, ih (by omega) (by omega), List.cons_lt_cons_iff, hlt, heq]
    constructor
    · rintro (hless | ⟨hsame, hless | ⟨hlast, hrest⟩⟩)
      · exact .inl (by omega)
      · exact .inl (by omega)
      · exact .inr ⟨by omega, hrest⟩
    · rintro (hless | ⟨rfl, hrest⟩)
      · by_cases hfront : n / 10 < m / 10
        · exact .inl hfront
        · exact .inr ⟨by omega, .inl (by omega)⟩
      · exact .inr ⟨rfl, .inr ⟨rfl, hrest⟩⟩

/-- A number with a byte behind it. -/
theorem field_lt_iff (k : Nat) {n m : Nat} (hn : n < 10 ^ k) (hm : m < 10 ^ k) (c : UInt8) (x y : Bytes) :
    digits k n ++ c :: x < digits k m ++ c :: y ↔ n < m ∨ n = m ∧ x < y := by
  have hirrefl : ¬ c < c := UInt8.lt_irrefl c
  rw [digits_lt_iff k hn hm, List.cons_lt_cons_iff]
  simp [hirrefl]

end Tombstone.FixedWidth
