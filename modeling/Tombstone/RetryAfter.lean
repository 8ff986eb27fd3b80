import Mathlib.Algebra.Group.Nat.Defs
import Tombstone.JsonScan

/- The wait before a retry (`retry_after.cpp`): exponential backoff, raised to a server's
   Retry-After and capped. Times are in nanoseconds of the steady clock. -/
namespace Tombstone

/-- `n` seconds of the steady clock. -/
def seconds (n : Nat) : Nat := n * 1000000000

def maxRetryAfterSeconds : Nat := 300

/-- `parse_retry_after_seconds`: 1 to 9 digits between optional white space, or `none` (the
source's -1). -/
def parseRetryAfterSeconds (value : Bytes) : Option Nat :=
  let text := ((value.dropWhile JsonScan.isSpace).reverse.dropWhile JsonScan.isSpace).reverse
  if text.isEmpty || decide (9 < text.length) then none
  else if text.all JsonScan.isDigit then
    some (text.foldl (fun out c => out * 10 + (c.toNat - 48)) 0)
  else none

/-- `retry_delay`, in seconds. -/
def retryDelay (attempt : Nat) (retryAfter : Option Nat) : Nat :=
  let backoff := 2 ^ (min (max attempt 1) 5)
  min (max backoff (retryAfter.getD 0)) maxRetryAfterSeconds

/-! ## What a Retry-After asks for -/

/-- The text asks for `n` seconds: a decimal of 1 to 9 digits, with optional white space around
it. -/
def AsksFor (value : Bytes) (n : Nat) : Prop :=
  ∃ before digits after, value = before ++ digits ++ after ∧
    (∀ c ∈ before, JsonScan.isSpace c = true) ∧ (∀ c ∈ after, JsonScan.isSpace c = true) ∧
    digits ≠ [] ∧ digits.length ≤ 9 ∧ (∀ c ∈ digits, JsonScan.isDigit c = true) ∧
    digits.foldl (fun out c => out * 10 + (c.toNat - 48)) 0 = n

theorem not_space_of_digit {c : UInt8} (h : JsonScan.isDigit c = true) : JsonScan.isSpace c = false := by
  have hdigit : 48 ≤ c ∧ c ≤ 57 := by simpa [JsonScan.isDigit] using h
  have hlow : (48 : UInt8) ≤ c := hdigit.1
  simp only [JsonScan.isSpace, Bool.or_eq_false_iff, beq_eq_false_iff_ne]
  refine ⟨⟨⟨?_, ?_⟩, ?_⟩, ?_⟩ <;>
  · rintro rfl
    revert hlow
    decide

/-- White space in front is skipped, up to a digit. -/
theorem dropWhile_space {before digits : Bytes} (after : Bytes)
    (hbefore : ∀ c ∈ before, JsonScan.isSpace c = true) (hne : digits ≠ [])
    (hdigits : ∀ c ∈ digits, JsonScan.isDigit c = true) :
    (before ++ digits ++ after).dropWhile JsonScan.isSpace = digits ++ after := by
  rw [List.append_assoc, List.dropWhile_append_of_pos hbefore]
  cases digits with
  | nil => exact absurd rfl hne
  | cons d digits =>
    have hd := not_space_of_digit (hdigits d List.mem_cons_self)
    simp [hd]

/-- **The parser reads just the texts that ask for a number of seconds.** -/
theorem parseRetryAfterSeconds_iff {value : Bytes} {n : Nat} :
    parseRetryAfterSeconds value = some n ↔ AsksFor value n := by
  constructor
  · intro h
    let rest := value.dropWhile JsonScan.isSpace
    let text := (rest.reverse.dropWhile JsonScan.isSpace).reverse
    have hrest : rest = text ++ (rest.reverse.takeWhile JsonScan.isSpace).reverse := by
      have hsplit := List.takeWhile_append_dropWhile (p := JsonScan.isSpace) (l := rest.reverse)
      have hrev := congrArg List.reverse hsplit
      rw [List.reverse_append, List.reverse_reverse] at hrev
      exact hrev.symm
    have hvalue : value = value.takeWhile JsonScan.isSpace ++ text ++
        (rest.reverse.takeWhile JsonScan.isSpace).reverse := by
      rw [List.append_assoc, ← hrest]
      exact List.takeWhile_append_dropWhile.symm
    have hparsed : (if text.isEmpty || decide (9 < text.length) then none
        else if text.all JsonScan.isDigit then
          some (text.foldl (fun out c => out * 10 + (c.toNat - 48)) 0)
        else none) = some n := h
    split at hparsed
    · cases hparsed
    · rename_i hlength
      split at hparsed
      · rename_i hdigits
        simp only [Bool.or_eq_true, List.isEmpty_iff, decide_eq_true_eq, not_or, Nat.not_lt] at hlength
        refine ⟨_, text, _, hvalue, List.all_eq_true.mp List.all_takeWhile, fun c hc => ?_,
          hlength.1, hlength.2, List.all_eq_true.mp hdigits, Option.some.inj hparsed⟩
        exact List.all_eq_true.mp List.all_takeWhile c (List.mem_reverse.mp hc)
      · cases hparsed
  · rintro ⟨before, digits, after, rfl, hbefore, hafter, hne, hlength, hdigits, rfl⟩
    have htrim : (((before ++ digits ++ after).dropWhile JsonScan.isSpace).reverse.dropWhile
        JsonScan.isSpace).reverse = digits := by
      have hback : (after.reverse ++ digits.reverse ++ []).dropWhile JsonScan.isSpace =
          digits.reverse ++ [] := by
        apply dropWhile_space
        · exact fun c hc => hafter c (List.mem_reverse.mp hc)
        · simpa using hne
        · exact fun c hc => hdigits c (List.mem_reverse.mp hc)
      rw [List.append_nil, List.append_nil] at hback
      rw [dropWhile_space after hbefore hne hdigits, List.reverse_append, hback, List.reverse_reverse]
    have hempty : digits.isEmpty = false := by simpa using hne
    have hshort : ¬ 9 < digits.length := by omega
    have hall : digits.all JsonScan.isDigit = true := List.all_eq_true.mpr hdigits
    simp only [parseRetryAfterSeconds, htrim, hempty, hshort, hall, decide_false, Bool.or_self,
      Bool.false_eq_true, if_false, if_true]

end Tombstone
