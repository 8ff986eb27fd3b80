import Mathlib.Analysis.SpecialFunctions.Pow.Real
import Mathlib.Data.Nat.Nth

/- SHA-256 as FIPS 180-4 states it, on strings of bits, and HMAC as RFC 2104 states it, for any
   hash.

   Nothing here is a table or a loop over an array: the constants are the fractions of roots of
   primes that the standard says they are, padding is by its congruence, and the schedule is its
   recurrence. `root_fraction` is how a table of constants is checked against the roots. -/
namespace Tombstone.Fips180

abbrev Word := BitVec 32

/-! ## Constants (sections 4.2.2 and 5.3.3) -/

/-- The first 32 bits of the fractional part of the `r`-th root of a number. -/
noncomputable def rootFraction (r p : ℕ) : Word :=
  BitVec.ofNat 32 ⌊Int.fract ((p : ℝ) ^ (1 / r : ℝ)) * 2 ^ 32⌋₊

noncomputable def K (t : ℕ) : Word := rootFraction 3 (Nat.nth Nat.Prime t)

/-- **Checking a constant** takes integers only: the root with 32 bits behind its point. -/
theorem root_fraction {r p q : ℕ} (hr : 0 < r) (hlow : q ^ r ≤ p * 2 ^ (32 * r))
    (hhigh : p * 2 ^ (32 * r) < (q + 1) ^ r) : rootFraction r p = BitVec.ofNat 32 q := by
  have hne : r ≠ 0 := Nat.ne_of_gt hr
  set x : ℝ := (p : ℝ) ^ (1 / r : ℝ) with hx
  have hnonneg : 0 ≤ x := Real.rpow_nonneg (Nat.cast_nonneg p) _
  have hroot : x ^ r = p := by
    rw [hx, one_div]
    exact Real.rpow_inv_natCast_pow (Nat.cast_nonneg p) hne
  have hscaled : (x * 2 ^ 32) ^ r = ((p * 2 ^ (32 * r) : ℕ) : ℝ) := by
    rw [mul_pow, hroot, ← pow_mul]
    push_cast
    rfl
  -- so `q` is the whole part of the root with its point moved
  have hle : (q : ℝ) ≤ x * 2 ^ 32 := by
    apply le_of_pow_le_pow_left₀ hne (by positivity)
    rw [hscaled]
    exact_mod_cast hlow
  have hlt : x * 2 ^ 32 < (q : ℝ) + 1 := by
    apply lt_of_pow_lt_pow_left₀ r (by positivity)
    rw [hscaled]
    exact_mod_cast hhigh
  obtain ⟨m, hm⟩ := Int.eq_ofNat_of_zero_le (Int.floor_nonneg.2 hnonneg)
  have hfract : Int.fract x = x - m := by
    rw [Int.fract, hm]
    rfl
  have hmx : (m : ℝ) ≤ x := by
    have := Int.floor_le x
    rw [hm] at this
    exact_mod_cast this
  have hmq : m * 2 ^ 32 ≤ q := by
    have hreal : (m : ℝ) * 2 ^ 32 < (q : ℝ) + 1 := lt_of_le_of_lt (by gcongr) hlt
    have hnat : m * 2 ^ 32 < q + 1 := by exact_mod_cast hreal
    omega
  have hfloor : ⌊Int.fract x * 2 ^ 32⌋₊ = q - m * 2 ^ 32 := by
    have hcast : ((q - m * 2 ^ 32 : ℕ) : ℝ) = q - m * 2 ^ 32 := by
      rw [Nat.cast_sub hmq]
      norm_num
    rw [Nat.floor_eq_iff (mul_nonneg (Int.fract_nonneg x) (by positivity)), hcast, hfract, sub_mul]
    constructor
    · linarith
    · linarith
  rw [rootFraction, ← hx, hfloor]
  apply BitVec.eq_of_toNat_eq
  rw [BitVec.toNat_ofNat, BitVec.toNat_ofNat]
  omega

/-- The first numbers of a kind are those that are found one after another. -/
theorem nth_eq_getD_filter (P : ℕ → Prop) [DecidablePred P] (n t : ℕ)
    (ht : t < ((List.range n).filter P).length) : Nat.nth P t = ((List.range n).filter P).getD t 0 := by
  induction n with
  | zero => cases ht
  | succ n ih =>
    rw [List.range_succ, List.filter_append] at ht ⊢
    by_cases hold : t < ((List.range n).filter P).length
    · rw [ih hold, List.getD_append _ _ _ _ hold]
    · by_cases hn : P n
      · rw [List.filter_singleton, decide_eq_true hn] at ht ⊢
        have hlast : t = ((List.range n).filter P).length := by
          rw [List.length_append, cond_true, List.length_singleton] at ht
          omega
        have hcount : Nat.count P n = t := by
          rw [hlast, Nat.count, List.countP_eq_length_filter]
        rw [List.getD_append_right _ _ _ _ (by omega), hlast, Nat.sub_self, ← hlast, ← hcount, Nat.nth_count hn]
        rfl
      · rw [List.filter_singleton, decide_eq_false hn, cond_false, List.append_nil] at ht
        exact absurd ht hold

/-! ## Functions (section 4.1.2) -/

def rotr (n : ℕ) (x : Word) : Word := x.rotateRight n

def shr (n : ℕ) (x : Word) : Word := x >>> n

def Ch (x y z : Word) : Word := (x &&& y) ^^^ (~~~x &&& z)

def Maj (x y z : Word) : Word := (x &&& y) ^^^ (x &&& z) ^^^ (y &&& z)

def bigSigma0 (x : Word) : Word := rotr 2 x ^^^ rotr 13 x ^^^ rotr 22 x

def bigSigma1 (x : Word) : Word := rotr 6 x ^^^ rotr 11 x ^^^ rotr 25 x

def smallSigma0 (x : Word) : Word := rotr 7 x ^^^ rotr 18 x ^^^ shr 3 x

def smallSigma1 (x : Word) : Word := rotr 17 x ^^^ rotr 19 x ^^^ shr 10 x

/-! ## Padding and parsing (sections 5.1.1 and 5.2.1) -/

/-- The value of a string of bits, the most significant one first. -/
def bitsValue (bits : List Bool) : ℕ := bits.foldl (fun v b => 2 * v + b.toNat) 0

/-- A number as a string of `w` bits. -/
def natBits (w n : ℕ) : List Bool := (List.range w).map fun i => n.testBit (w - 1 - i)

/-- How many zeros stand between the one and the length: the fewest that make a whole number of blocks. -/
def zeros (l : ℕ) : ℕ := (447 + (512 - l % 512)) % 512

def pad (message : List Bool) : List Bool :=
  message ++ true :: List.replicate (zeros message.length) false ++ natBits 64 message.length

/-- Word `j` of block `i` of a padded message. -/
def blockWord (padded : List Bool) (i j : ℕ) : Word :=
  BitVec.ofNat 32 (bitsValue ((padded.drop (512 * i + 32 * j)).take 32))

/-! ## The hash (section 6.2.2) -/

/-- The message schedule of a block. -/
def W (M : ℕ → Word) (t : ℕ) : Word :=
  if _ : t < 16 then M t
  else smallSigma1 (W M (t - 2)) + W M (t - 7) + smallSigma0 (W M (t - 15)) + W M (t - 16)

/-- The eight working variables, and the eight words of a hash value. -/
structure Words where
  a : Word
  b : Word
  c : Word
  d : Word
  e : Word
  f : Word
  g : Word
  h : Word
  deriving DecidableEq

def Words.toList (s : Words) : List Word := [s.a, s.b, s.c, s.d, s.e, s.f, s.g, s.h]

def Words.add (s s' : Words) : Words :=
  ⟨s.a + s'.a, s.b + s'.b, s.c + s'.c, s.d + s'.d, s.e + s'.e, s.f + s'.f, s.g + s'.g, s.h + s'.h⟩

noncomputable def initial : Words :=
  let H (t : ℕ) := rootFraction 2 (Nat.nth Nat.Prime t)
  ⟨H 0, H 1, H 2, H 3, H 4, H 5, H 6, H 7⟩

/-- Step `t` of the computation, with its constant and its word of the schedule. -/
def step (k w : Word) (s : Words) : Words :=
  let t1 := s.h + bigSigma1 s.e + Ch s.e s.f s.g + k + w
  let t2 := bigSigma0 s.a + Maj s.a s.b s.c
  ⟨t1 + t2, s.a, s.b, s.c, s.d + t1, s.e, s.f, s.g⟩

/-- The working variables after `t` steps. -/
noncomputable def steps (M : ℕ → Word) (s : Words) : ℕ → Words
  | 0 => s
  | t + 1 => step (K t) (W M t) (steps M s t)

/-- The hash value after one more block. -/
noncomputable def compress (s : Words) (M : ℕ → Word) : Words := (steps M s 64).add s

/-- The hash value after `n` blocks. -/
noncomputable def hashValue (padded : List Bool) : ℕ → Words
  | 0 => initial
  | i + 1 => compress (hashValue padded i) (blockWord padded i)

/-- The digest; the standard defines none for a message of 2^64 bits or more. -/
noncomputable def sha256 (message : List Bool) : Option (List Bool) :=
  if message.length < 2 ^ 64 then
    let padded := pad message
    some ((hashValue padded (padded.length / 512)).toList.flatMap fun w => natBits 32 w.toNat)
  else none

/-! ## The rules

A schedule reads sixteen words of its block, a number is the value of its bits, and a string of bits
that is written a byte at a time may be cut at bytes. -/

theorem W_lt {M : ℕ → Word} {t : ℕ} (h : t < 16) : W M t = M t := by
  rw [W, dif_pos h]

theorem W_ge {M : ℕ → Word} {t : ℕ} (h : 16 ≤ t) :
    W M t = smallSigma1 (W M (t - 2)) + W M (t - 7) + smallSigma0 (W M (t - 15)) + W M (t - 16) := by
  rw [W, dif_neg (by omega)]

theorem W_congr {M M' : ℕ → Word} (h : ∀ j < 16, M j = M' j) (t : ℕ) : W M t = W M' t := by
  induction t using Nat.strongRecOn with
  | ind t ih =>
    by_cases ht : t < 16
    · rw [W_lt ht, W_lt ht, h t ht]
    · rw [W_ge (Nat.le_of_not_lt ht), W_ge (Nat.le_of_not_lt ht), ih (t - 2) (by omega),
        ih (t - 7) (by omega), ih (t - 15) (by omega), ih (t - 16) (by omega)]

theorem compress_congr {M M' : ℕ → Word} (h : ∀ j < 16, M j = M' j) (s : Words) :
    compress s M = compress s M' := by
  have hsteps : ∀ t, steps M s t = steps M' s t := by
    intro t
    induction t with
    | zero => rfl
    | succ t ih => rw [steps, steps, ih, W_congr h]
  rw [compress, compress, hsteps]

theorem bitsValue_append (bits bits' : List Bool) :
    bitsValue (bits ++ bits') = bitsValue bits * 2 ^ bits'.length + bitsValue bits' := by
  have hfold : ∀ v, bits'.foldl (fun v b => 2 * v + b.toNat) v = v * 2 ^ bits'.length + bitsValue bits' := by
    induction bits' with
    | nil => simp [bitsValue]
    | cons b bits' ih =>
      intro v
      have hb : bitsValue (b :: bits') = b.toNat * 2 ^ bits'.length + bitsValue bits' := by
        rw [← ih, bitsValue, List.foldl_cons, Nat.mul_zero, Nat.zero_add]
      rw [List.foldl_cons, ih, hb, List.length_cons, Nat.pow_succ]
      ring
  rw [bitsValue, List.foldl_append]
  exact hfold _

theorem natBits_succ (w n : ℕ) : natBits (w + 1) n = n.testBit w :: natBits w n := by
  rw [natBits, List.range_succ_eq_map, List.map_cons, List.map_map, natBits]
  congr 1
  apply List.map_congr_left
  intro i _
  show n.testBit (w + 1 - 1 - (i + 1)) = n.testBit (w - 1 - i)
  congr 1
  omega

@[simp] theorem natBits_length (w n : ℕ) : (natBits w n).length = w := by
  simp [natBits]

theorem bitsValue_natBits (w n : ℕ) : bitsValue (natBits w n) = n % 2 ^ w := by
  induction w with
  | zero => simp [natBits, bitsValue, Nat.mod_one]
  | succ w ih =>
    have hcons : n.testBit w :: natBits w n = [n.testBit w] ++ natBits w n := rfl
    have hbit : bitsValue [n.testBit w] = n / 2 ^ w % 2 := by
      rw [← Nat.toNat_testBit]
      simp [bitsValue]
    rw [natBits_succ, hcons, bitsValue_append, ih, natBits_length, hbit, Nat.mod_pow_succ]
    ring

theorem natBits_add (v w n : ℕ) : natBits (v + w) n = natBits v (n >>> w) ++ natBits w n := by
  induction v with
  | zero => simp [natBits]
  | succ v ih =>
    rw [Nat.add_right_comm, natBits_succ, natBits_succ, ih, Nat.testBit_shiftRight, Nat.add_comm w v]
    rfl

theorem natBits_mod (w n : ℕ) : natBits w (n % 2 ^ w) = natBits w n := by
  apply List.map_congr_left
  intro i hi
  rw [List.mem_range] at hi
  have hlt : w - 1 - i < w := by omega
  simp [Nat.testBit_mod_two_pow, hlt]

/-! ## On bytes -/

def byteBits (bytes : List UInt8) : List Bool := bytes.flatMap fun b => natBits 8 b.toNat

def bitBytes (bits : List Bool) : List UInt8 :=
  (List.range (bits.length / 8)).map fun i => UInt8.ofNat (bitsValue ((bits.drop (8 * i)).take 8))

noncomputable def sha256Bytes (message : List UInt8) : Option (List UInt8) :=
  (sha256 (byteBits message)).map bitBytes

/-- A number as `m` bytes, the most significant one first. -/
def natBytes (m n : ℕ) : List UInt8 := (List.range m).map fun i => UInt8.ofNat (n >>> (8 * (m - 1 - i)))

theorem natBytes_succ (m n : ℕ) : natBytes (m + 1) n = UInt8.ofNat (n >>> (8 * m)) :: natBytes m n := by
  rw [natBytes, List.range_succ_eq_map, List.map_cons, List.map_map, natBytes]
  congr 1
  apply List.map_congr_left
  intro i _
  show UInt8.ofNat (n >>> (8 * (m + 1 - 1 - (i + 1)))) = UInt8.ofNat (n >>> (8 * (m - 1 - i)))
  congr 3
  omega

@[simp] theorem natBytes_length (m n : ℕ) : (natBytes m n).length = m := by
  simp [natBytes]

theorem byteBits_cons (b : UInt8) (bytes : List UInt8) :
    byteBits (b :: bytes) = natBits 8 b.toNat ++ byteBits bytes := rfl

theorem byteBits_append (bytes bytes' : List UInt8) :
    byteBits (bytes ++ bytes') = byteBits bytes ++ byteBits bytes' := List.flatMap_append

@[simp] theorem byteBits_length (bytes : List UInt8) : (byteBits bytes).length = 8 * bytes.length := by
  induction bytes with
  | nil => rfl
  | cons b bytes ih =>
    rw [byteBits_cons, List.length_append, natBits_length, ih, List.length_cons]
    omega

/-- **Cutting** at a byte. -/
theorem byteBits_drop (n : ℕ) (bytes : List UInt8) : (byteBits bytes).drop (8 * n) = byteBits (bytes.drop n) := by
  induction n generalizing bytes with
  | zero => rfl
  | succ n ih =>
    cases bytes with
    | nil => simp [byteBits]
    | cons b bytes =>
      have hskip : 8 * (n + 1) = (natBits 8 b.toNat).length + 8 * n := by
        rw [natBits_length]
        omega
      rw [byteBits_cons, hskip, List.drop_length_add_append, ih]
      rfl

theorem byteBits_take (n : ℕ) (bytes : List UInt8) : (byteBits bytes).take (8 * n) = byteBits (bytes.take n) := by
  induction n generalizing bytes with
  | zero => rfl
  | succ n ih =>
    cases bytes with
    | nil => simp [byteBits]
    | cons b bytes =>
      have hskip : 8 * (n + 1) = (natBits 8 b.toNat).length + 8 * n := by
        rw [natBits_length]
        omega
      rw [byteBits_cons, hskip, List.take_length_add_append, ih]
      rfl

theorem natBits_bytes (m n : ℕ) : natBits (8 * m) n = byteBits (natBytes m n) := by
  induction m with
  | zero => rfl
  | succ m ih =>
    have hbyte : natBits 8 (UInt8.ofNat (n >>> (8 * m))).toNat = natBits 8 (n >>> (8 * m)) := by
      rw [UInt8.toNat_ofNat']
      exact natBits_mod 8 _
    rw [Nat.mul_succ, Nat.add_comm, natBits_add, natBytes_succ, byteBits_cons, hbyte, ih]

theorem bitBytes_byteBits (bytes : List UInt8) : bitBytes (byteBits bytes) = bytes := by
  have hlength : (byteBits bytes).length / 8 = bytes.length := by
    rw [byteBits_length]
    omega
  apply List.ext_getElem
  · rw [bitBytes, List.length_map, List.length_range, hlength]
  · intro i hi hi'
    have hbyte : (bytes.drop i).take 1 = [bytes[i]] := by
      rw [List.drop_eq_getElem_cons hi', List.take_succ_cons, List.take_zero]
    have hvalue : bitsValue (byteBits [bytes[i]]) = bytes[i].toNat := by
      rw [byteBits_cons, byteBits, List.flatMap_nil, List.append_nil, bitsValue_natBits]
      exact Nat.mod_eq_of_lt bytes[i].toNat_lt
    have htake := byteBits_take 1 (bytes.drop i)
    simp only [bitBytes, List.getElem_map, List.getElem_range]
    rw [byteBits_drop, htake, hbyte, hvalue, UInt8.ofNat_toNat]

end Tombstone.Fips180

namespace Tombstone.Rfc2104

/-- A key of one block: a longer key is hashed, and zeros are appended to what is shorter. -/
def blockKey (H : List UInt8 → Option (List UInt8)) (B : ℕ) (key : List UInt8) : Option (List UInt8) :=
  (if B < key.length then H key else some key).map fun k => k ++ List.replicate (B - k.length) 0

/-- `H(K xor opad, H(K xor ipad, text))` over a hash with blocks of `B` bytes. -/
def hmac (H : List UInt8 → Option (List UInt8)) (B : ℕ) (key text : List UInt8) : Option (List UInt8) :=
  (blockKey H B key).bind fun k =>
    (H (k.map (· ^^^ 0x36) ++ text)).bind fun inner => H (k.map (· ^^^ 0x5C) ++ inner)

end Tombstone.Rfc2104
