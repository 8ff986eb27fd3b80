import Mathlib.Data.List.Basic

/- Byte strings, and the one place where the SDK cuts them.

   A `std::string` is a list of bytes. A C string argument is an `Option Bytes`: `none` is
   the null pointer, and the bytes before the terminator are its value. -/
namespace Tombstone

abbrev Bytes := List UInt8

/-- A C string argument. -/
abbrev CString := Option Bytes

/-- The bytes of an ASCII literal of the source. -/
def lit (s : String) : Bytes := s.toList.map fun c => c.toNat.toUInt8

def ch (c : Char) : UInt8 := c.toNat.toUInt8

/-- A fact about every byte, from its 256 cases. -/
theorem forall_byte {P : UInt8 → Prop} (h : ∀ n : Fin 256, P (UInt8.ofNat n)) (b : UInt8) : P b := by
  have hb := h ⟨b.toNat, b.toNat_lt⟩
  rwa [UInt8.ofNat_toNat] at hb

/-- A byte of a class is no byte that the class leaves out. -/
theorem byte_ne {p : UInt8 → Bool} {c d : UInt8} (hc : p c = true) (hd : p d = false) : c ≠ d := by
  intro heq
  rw [heq, hd] at hc
  cases hc

/-- A fact about the bytes of a text, one by one. -/
theorem forall_mem_bytes {P : UInt8 → Prop} [DecidablePred P] {text : Bytes}
    (h : (text.all fun b => decide (P b)) = true) : ∀ b ∈ text, P b :=
  fun b hb => of_decide_eq_true (List.all_eq_true.1 h b hb)

/-- A UTF-8 continuation byte (`10xxxxxx`). -/
def isContinuation (b : UInt8) : Bool := b &&& 0xC0 == 0x80

/-- The backing-off loop of `utf8_safe_truncate`: the largest cut at or below `n` that does
not fall before a continuation byte. -/
def backOff (value : Bytes) : Nat → Nat
  | 0 => 0
  | n + 1 => if isContinuation (value.getD (n + 1) 0) then backOff value n else n + 1

/-- `utf8_safe_truncate`: at most `maxBytes`, never splitting a multi-byte sequence. -/
def utf8SafeTruncate (value : Bytes) (maxBytes : Nat) : Bytes :=
  if value.length ≤ maxBytes then value else value.take (backOff value maxBytes)

/-- `clamped`: a null argument is the empty string. -/
def clamped (value : CString) (maxBytes : Nat) : Bytes :=
  match value with
  | none => []
  | some v => utf8SafeTruncate v maxBytes

@[simp] theorem utf8SafeTruncate_nil (n : Nat) : utf8SafeTruncate [] n = [] := by
  simp [utf8SafeTruncate]

theorem utf8SafeTruncate_of_le {value : Bytes} {n : Nat} (h : value.length ≤ n) :
    utf8SafeTruncate value n = value := if_pos h

end Tombstone
