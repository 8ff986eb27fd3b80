import Mathlib.Algebra.Group.Nat.Defs
import Tombstone.Bytes

/- Natural numbers in decimal, as bytes: digit by digit, and what a reader that multiplies by
   ten gets back. -/
namespace Tombstone.Decimal

/-- The digits of a number, most significant first. -/
def text (n : Nat) : Bytes := (Nat.toDigits 10 n).map fun c => c.toNat.toUInt8

/-- The value a digit byte stands for. -/
def value (c : UInt8) : Nat := c.toNat - 48

private theorem digitChar_byte :
    ∀ d, d < 10 → (Nat.digitChar d).toNat.toUInt8 = (48 + d).toUInt8 := by
  decide

theorem text_of_lt {n : Nat} (h : n < 10) : text n = [(48 + n).toUInt8] := by
  rw [text, Nat.toDigits_of_lt_base h, List.map_singleton, digitChar_byte n h]

/-- The last digit. -/
theorem text_of_ge {n : Nat} (h : 10 ≤ n) :
    text n = text (n / 10) ++ [(48 + n % 10).toUInt8] := by
  rw [text, Nat.toDigits_of_base_le (by omega) h, List.map_append, List.map_singleton,
    digitChar_byte _ (Nat.mod_lt n (by omega)), text]

private theorem digit_bounds :
    ∀ d, d < 10 → 48 ≤ (48 + d).toUInt8 ∧ (48 + d).toUInt8 ≤ 57
      ∧ value (48 + d).toUInt8 = d := by
  decide

theorem value_digit {d : Nat} (h : d < 10) : value (48 + d).toUInt8 = d := (digit_bounds d h).2.2

theorem mem_text {n : Nat} {b : UInt8} (h : b ∈ text n) : 48 ≤ b ∧ b ≤ 57 := by
  induction n using Nat.strongRecOn with
  | ind n ih =>
    by_cases hn : n < 10
    · rw [text_of_lt hn, List.mem_singleton] at h
      rw [h]
      exact ⟨(digit_bounds n hn).1, (digit_bounds n hn).2.1⟩
    · rw [text_of_ge (by omega), List.mem_append, List.mem_singleton] at h
      rcases h with h | rfl
      · exact ih (n / 10) (by omega) h
      · have hlast := digit_bounds (n % 10) (Nat.mod_lt n (by omega))
        exact ⟨hlast.1, hlast.2.1⟩

theorem text_ne_nil (n : Nat) : text n ≠ [] := by
  by_cases hn : n < 10
  · rw [text_of_lt hn]; exact List.cons_ne_nil _ _
  · rw [text_of_ge (by omega)]; exact List.append_ne_nil_of_right_ne_nil _ (List.cons_ne_nil _ _)

/-- Read from the left, ten times what is already there plus the digit. -/
theorem foldl_text (n : Nat) : (text n).foldl (fun v c => v * 10 + value c) 0 = n := by
  induction n using Nat.strongRecOn with
  | ind n ih =>
    by_cases hn : n < 10
    · rw [text_of_lt hn, List.foldl_cons, List.foldl_nil, value_digit hn]
      omega
    · rw [text_of_ge (by omega), List.foldl_append, ih (n / 10) (by omega), List.foldl_cons,
        List.foldl_nil, value_digit (Nat.mod_lt n (by omega))]
      omega

theorem length_text_le (k n : Nat) (h : n < 10 ^ (k + 1)) : (text n).length ≤ k + 1 := by
  induction k generalizing n with
  | zero =>
    rw [text_of_lt (by simpa using h)]
    simp
  | succ k ih =>
    by_cases hn : n < 10
    · rw [text_of_lt hn]
      simp
    · have hfront := ih (n / 10) (by rw [Nat.pow_succ] at h; omega)
      rw [text_of_ge (by omega), List.length_append, List.length_singleton]
      omega

end Tombstone.Decimal
