import Tombstone.Signature
import Tombstone.HashStandards
import Tombstone.JsonFields
import Tombstone.Delimited
import Mathlib.Data.Nat.Prime.Nth

/- The hash and the signature of a request are those of the standards.

   The words of the code are those of FIPS 180-4 one by one: the tables are the fractions of the
   roots (`k_eq`, `initial_eq`), the loops its recurrences (`schedule_eq`, `rounds_eq`), and
   the one or two blocks that the code builds behind the whole ones the end of the padded message
   (`tail_eq`), for a message of any length. -/
namespace Tombstone.Signature
open Fips180

/-! ## Constants -/

def primes : List Nat :=
  [2, 3, 5, 7, 11, 13, 17, 19, 23, 29, 31, 37, 41, 43, 47, 53, 59, 61, 67, 71, 73, 79, 83, 89, 97, 101, 103, 107,
    109, 113, 127, 131, 137, 139, 149, 151, 157, 163, 167, 173, 179, 181, 191, 193, 197, 199, 211, 223, 227, 229,
    233, 239, 241, 251, 257, 263, 269, 271, 277, 281, 283, 293, 307, 311]

/-- No number up to 17 divides it but itself. -/
def indivisible (n : Nat) : Bool := (List.range 16).all fun m => decide (n ≤ m + 2) || n % (m + 2) != 0

theorem prime_iff_indivisible {n : Nat} (hn : n < 324) :
    Nat.Prime n ↔ (decide (2 ≤ n) && indivisible n) = true := by
  have hentry : ∀ m, (decide (n ≤ m + 2) || n % (m + 2) != 0) = true ↔ n ≤ m + 2 ∨ ¬ (m + 2) ∣ n := by
    intro m
    rw [Bool.or_eq_true, decide_eq_true_iff, bne_iff_ne, Nat.dvd_iff_mod_eq_zero]
  rw [Bool.and_eq_true, decide_eq_true_iff, indivisible, List.all_eq_true]
  simp only [hentry, List.mem_range]
  constructor
  · intro h
    refine ⟨h.two_le, fun m _ => ?_⟩
    by_contra hdivides
    rw [not_or, not_not] at hdivides
    rcases (Nat.dvd_prime h).1 hdivides.2 with h1 | hself
    · omega
    · omega
  · rintro ⟨htwo, hall⟩
    refine Nat.prime_def_le_sqrt.2 ⟨htwo, fun m hm hsqrt hdvd => ?_⟩
    have hsquare : m * m ≤ n := Nat.le_sqrt.1 hsqrt
    have hsmall : m < 18 := by
      by_contra hlarge
      have := Nat.mul_le_mul (Nat.le_of_not_lt hlarge) (Nat.le_of_not_lt hlarge)
      omega
    rcases hall (m - 2) (by omega) with hle | hnot
    · have := Nat.mul_le_mul hm (Nat.le_refl m)
      omega
    · rw [Nat.sub_add_cancel hm] at hnot
      exact hnot hdvd

theorem nth_prime (t : Nat) (ht : t < 64) : Nat.nth Nat.Prime t = primes.getD t 0 := by
  have hsieve : (List.range 312).filter (fun n => decide (2 ≤ n) && indivisible n) = primes := by
    decide +kernel
  have hfirst : (List.range 312).filter Nat.Prime = primes := by
    rw [← hsieve]
    apply List.filter_congr
    intro n hn
    have hlt := List.mem_range.1 hn
    rw [Bool.eq_iff_iff, decide_eq_true_iff]
    exact prime_iff_indivisible (by omega)
  rw [nth_eq_getD_filter Nat.Prime 312 t (by rw [hfirst]; exact ht), hfirst]

/-- A word with the whole part of the root in front of it. -/
theorem fraction_of_root {r p : Nat} {w : BitVec 32} (hr : 0 < r)
    (h : ∃ whole < 18, (whole * 2 ^ 32 + w.toNat) ^ r ≤ p * 2 ^ (32 * r) ∧
      p * 2 ^ (32 * r) < (whole * 2 ^ 32 + w.toNat + 1) ^ r) : rootFraction r p = w := by
  obtain ⟨whole, -, hlow, hhigh⟩ := h
  rw [root_fraction hr hlow hhigh]
  apply BitVec.eq_of_toNat_eq
  rw [BitVec.toNat_ofNat]
  have := w.isLt
  omega

/-- **The table `k`** has the constants of the standard. -/
theorem k_eq (t : Nat) (ht : t < 64) : k.getD t 0 = K t := by
  have hroots : ∀ t < 64, ∃ whole < 18,
      (whole * 2 ^ 32 + (k.getD t 0).toNat) ^ 3 ≤ primes.getD t 0 * 2 ^ (32 * 3) ∧
        primes.getD t 0 * 2 ^ (32 * 3) < (whole * 2 ^ 32 + (k.getD t 0).toNat + 1) ^ 3 := by
    decide +kernel
  rw [K, nth_prime t ht]
  exact (fraction_of_root (by decide) (hroots t ht)).symm

/-- The words of a state, as the standard names them. -/
def Sha256State.words (s : Sha256State) : Words := ⟨s.a, s.b, s.c, s.d, s.e, s.f, s.g, s.hh⟩

theorem initial_eq : ({} : Sha256State).words = initial := by
  have hroots : ∀ t < 8, ∃ whole < 18,
      (whole * 2 ^ 32 + (({} : Sha256State).words.toList.getD t 0).toNat) ^ 2 ≤ primes.getD t 0 * 2 ^ (32 * 2) ∧
        primes.getD t 0 * 2 ^ (32 * 2) <
          (whole * 2 ^ 32 + (({} : Sha256State).words.toList.getD t 0).toNat + 1) ^ 2 := by
    decide +kernel
  have hword : ∀ t < 8, rootFraction 2 (Nat.nth Nat.Prime t) = ({} : Sha256State).words.toList.getD t 0 := by
    intro t ht
    rw [nth_prime t (by omega)]
    exact fraction_of_root (by decide) (hroots t ht)
  rw [initial]
  simp only [hword _ (show 0 < 8 by decide), hword _ (show 1 < 8 by decide), hword _ (show 2 < 8 by decide),
    hword _ (show 3 < 8 by decide), hword _ (show 4 < 8 by decide), hword _ (show 5 < 8 by decide),
    hword _ (show 6 < 8 by decide), hword _ (show 7 < 8 by decide)]
  rfl

/-! ## One block -/

theorem rotr_eq (x : BitVec 32) (n : Nat) (h : n < 32) : rotr x n = Fips180.rotr n x := by
  rw [rotr, Fips180.rotr, BitVec.rotateRight, BitVec.rotateRightAux, Nat.mod_eq_of_lt h]

theorem getD_map_range {α : Type} (f : Nat → α) {n j : Nat} (h : j < n) (d : α) :
    ((List.range n).map f).getD j d = f j := by
  simp [h]

theorem schedule_eq (block : Bytes) (n : Nat) :
    schedule block n = (List.range (16 + n)).map (W (loadWord block)) := by
  induction n with
  | zero =>
    apply List.map_congr_left
    intro j hj
    exact (W_lt (List.mem_range.1 hj)).symm
  | succ n ih =>
    have hnext : nextWord (schedule block n) (16 + n) = W (loadWord block) (16 + n) := by
      rw [W_ge (by omega), ih, nextWord]
      simp only [getD_map_range _ (show 16 + n - 15 < 16 + n by omega),
        getD_map_range _ (show 16 + n - 2 < 16 + n by omega), getD_map_range _ (show 16 + n - 7 < 16 + n by omega),
        getD_map_range _ (show 16 + n - 16 < 16 + n by omega), smallSigma0, smallSigma1, shr,
        rotr_eq _ 7 (by decide), rotr_eq _ 18 (by decide), rotr_eq _ 17 (by decide), rotr_eq _ 19 (by decide)]
      ac_rfl
    calc schedule block (n + 1)
        = extended (schedule block n) (16 + n) := by
          rw [schedule, List.range'_concat, List.foldl_append, Nat.one_mul]
          rfl
      _ = (List.range (16 + n)).map (W (loadWord block)) ++ [W (loadWord block) (16 + n)] := by
          rw [extended, hnext, ih]
      _ = (List.range (16 + (n + 1))).map (W (loadWord block)) := by
          rw [← Nat.add_assoc, List.range_succ, List.map_append]
          rfl

theorem round_words (v : Sha256State) {w : List (BitVec 32)} {M : Nat → BitVec 32} {t : Nat} (ht : t < 64)
    (hw : w.getD t 0 = W M t) : (round w v t).words = step (K t) (W M t) v.words := by
  simp only [round, step, Sha256State.words, bigSigma0, bigSigma1, Ch, Maj, hw, k_eq t ht,
    rotr_eq _ 6 (by decide), rotr_eq _ 11 (by decide), rotr_eq _ 25 (by decide), rotr_eq _ 2 (by decide),
    rotr_eq _ 13 (by decide), rotr_eq _ 22 (by decide)]

/-- **A block** is compressed as the standard says. -/
theorem processBlock_words (h : Sha256State) (block : Bytes) :
    (h.processBlock block).words = compress h.words (loadWord block) := by
  have hrounds : ∀ t ≤ 64, ((List.range t).foldl (round (schedule block 48)) h).words =
      steps (loadWord block) h.words t := by
    intro t ht
    induction t with
    | zero => rfl
    | succ t ih =>
      have hw : (schedule block 48).getD t 0 = W (loadWord block) t := by
        rw [schedule_eq, getD_map_range _ (by omega)]
      rw [List.range_succ, List.foldl_append, steps, ← ih (by omega)]
      exact round_words _ (by omega) hw
  rw [compress, ← hrounds 64 (Nat.le_refl _)]
  simp only [Sha256State.processBlock, Sha256State.words, Words.add, BitVec.add_comm]

/-! ## Words from bytes, and bytes from words -/

theorem bitsValue_bytes (bytes : Bytes) :
    bitsValue (byteBits bytes) = bytes.foldl (fun v b => v * 256 + b.toNat) 0 := by
  have hfold : ∀ v, bytes.foldl (fun v b => v * 256 + b.toNat) v =
      v * 2 ^ (byteBits bytes).length + bitsValue (byteBits bytes) := by
    induction bytes with
    | nil => simp [byteBits, bitsValue]
    | cons b bytes ih =>
      intro v
      have hb : bitsValue (natBits 8 b.toNat) = b.toNat := by
        rw [bitsValue_natBits]
        exact Nat.mod_eq_of_lt b.toNat_lt
      rw [List.foldl_cons, ih, byteBits_cons, bitsValue_append, List.length_append, natBits_length, hb, pow_add]
      ring
  rw [hfold, Nat.zero_mul, Nat.zero_add]

/-- Four shifted bytes are the word that they spell. -/
theorem word_of_bytes (b₀ b₁ b₂ b₃ : UInt8) :
    (word b₀ <<< 24) ||| (word b₁ <<< 16) ||| (word b₂ <<< 8) ||| word b₃ =
      BitVec.ofNat 32 (bitsValue (byteBits [b₀, b₁, b₂, b₃])) := by
  have h₀ := b₀.toNat_lt
  have h₁ := b₁.toNat_lt
  have h₂ := b₂.toNat_lt
  have h₃ := b₃.toNat_lt
  have hshift : ∀ (b : UInt8) (n : Nat), n ≤ 24 → (word b <<< n).toNat = b.toNat <<< n := by
    intro b n hn
    have hb := b.toNat_lt
    have hpow : 2 ^ n ≤ 2 ^ 24 := Nat.pow_le_pow_right (by decide) hn
    have hlt : b.toNat * 2 ^ n < 2 ^ 32 := by
      calc b.toNat * 2 ^ n ≤ 255 * 2 ^ 24 := Nat.mul_le_mul (by omega) hpow
        _ < 2 ^ 32 := by decide
    rw [BitVec.toNat_shiftLeft, word, BitVec.toNat_ofNat, Nat.mod_eq_of_lt (by omega : b.toNat < 2 ^ 32),
      Nat.shiftLeft_eq, Nat.mod_eq_of_lt hlt]
  apply BitVec.eq_of_toNat_eq
  rw [BitVec.toNat_or, BitVec.toNat_or, BitVec.toNat_or, hshift b₀ 24 (by decide), hshift b₁ 16 (by decide),
    hshift b₂ 8 (by decide), Nat.or_assoc, Nat.or_assoc]
  have hlast : (word b₃).toNat = b₃.toNat := by
    rw [word, BitVec.toNat_ofNat, Nat.mod_eq_of_lt (by omega)]
  have htwo : b₂.toNat <<< 8 + b₃.toNat < 2 ^ 16 := by
    rw [Nat.shiftLeft_eq]
    omega
  have hthree : b₁.toNat <<< 16 + (b₂.toNat <<< 8 + b₃.toNat) < 2 ^ 24 := by
    rw [Nat.shiftLeft_eq]
    omega
  -- the bytes do not overlap
  rw [hlast, ← Nat.shiftLeft_add_eq_or_of_lt h₃, ← Nat.shiftLeft_add_eq_or_of_lt htwo,
    ← Nat.shiftLeft_add_eq_or_of_lt hthree, BitVec.toNat_ofNat, bitsValue_bytes]
  simp only [Nat.shiftLeft_eq, List.foldl_cons, List.foldl_nil]
  omega

theorem four_getD (block : Bytes) (i : Nat) (h : i + 4 ≤ block.length) :
    (block.drop i).take 4 = [block.getD i 0, block.getD (i + 1) 0, block.getD (i + 2) 0, block.getD (i + 3) 0] := by
  have hget : ∀ j, (hj : j < block.length) → block.getD j 0 = block[j] := fun j hj => List.getD_eq_getElem _ _ hj
  rw [List.drop_eq_getElem_cons (by omega), List.drop_eq_getElem_cons (by omega),
    List.drop_eq_getElem_cons (by omega), List.drop_eq_getElem_cons (by omega), hget _ (by omega),
    hget _ (by omega), hget _ (by omega), hget _ (by omega)]
  rfl

theorem loadWord_eq (block : Bytes) (i : Nat) (h : i * 4 + 4 ≤ block.length) :
    loadWord block i = BitVec.ofNat 32 (bitsValue (byteBits ((block.drop (i * 4)).take 4))) := by
  rw [loadWord, word_of_bytes, four_getD block (i * 4) h]

theorem lowByte_eq {n : Nat} (hn : 8 ≤ n) (x : BitVec n) : lowByte x = UInt8.ofNat x.toNat := by
  have hmask : (BitVec.ofNat n 0xFF).toNat = 2 ^ 8 - 1 := by
    have hpow : 2 ^ 8 ≤ 2 ^ n := Nat.pow_le_pow_right (by decide) hn
    exact Nat.mod_eq_of_lt (by omega)
  rw [lowByte, BitVec.toNat_and, hmask, Nat.and_two_pow_sub_one_eq_mod]
  exact UInt8.ofNat_mod_size

theorem digestWord_eq (w : BitVec 32) : digestWord w = natBytes 4 w.toNat := by
  rw [digestWord, lowByte_eq (by decide), lowByte_eq (by decide), lowByte_eq (by decide), lowByte_eq (by decide)]
  simp only [BitVec.toNat_ushiftRight]
  rfl

/-! ## Padding -/

/-- How many zero bytes stand between the one bit's byte and the length. -/
def zeroBytes (size : Nat) : Nat := (55 + (64 - size % 64)) % 64

/-- The padded message, a byte at a time. -/
def padBytes (data : Bytes) : Bytes :=
  data ++ 0x80 :: List.replicate (zeroBytes data.length) 0 ++ natBytes 8 (8 * data.length)

theorem pad_byteBits (data : Bytes) : pad (byteBits data) = byteBits (padBytes data) := by
  have hreplicate : ∀ n, byteBits (List.replicate n 0) = List.replicate (8 * n) false := by
    intro n
    induction n with
    | zero => rfl
    | succ n ih =>
      rw [List.replicate_succ, byteBits_cons, ih, Nat.mul_succ, Nat.add_comm, List.replicate_add]
      rfl
  have hzeros : zeros (8 * data.length) = 7 + 8 * zeroBytes data.length := by
    unfold zeros zeroBytes
    omega
  have hfirst : natBits 8 (0x80 : UInt8).toNat = true :: List.replicate 7 false := by decide
  rw [pad, byteBits_length, hzeros, padBytes, byteBits_append, byteBits_append, byteBits_cons, hreplicate,
    ← natBits_bytes, hfirst, List.replicate_add]
  simp only [List.append_assoc, List.cons_append]

theorem padBytes_length (data : Bytes) :
    (padBytes data).length = 64 * (data.length / 64 + tailBlocks data.length) := by
  have hlength : (padBytes data).length = data.length + 1 + zeroBytes data.length + 8 := by
    simp [padBytes]
    omega
  rw [hlength, zeroBytes, tailBlocks]
  split
  · omega
  · omega

/-- Setting the last bytes in front of a place, one by one. -/
theorem foldl_set (l : Bytes) (f : Nat → UInt8) {n p : Nat} (hn : n ≤ p) (hp : p ≤ l.length) :
    (List.range n).foldl (fun l i => l.set (p - 1 - i) (f i)) l =
      l.take (p - n) ++ ((List.range n).map f).reverse ++ l.drop p := by
  induction n with
  | zero => simp
  | succ n ih =>
    have hlast : p - (n + 1) < l.length := by omega
    have htake : l.take (p - n) = l.take (p - (n + 1)) ++ [l[p - (n + 1)]] := by
      rw [← List.take_succ_eq_append_getElem hlast]
      congr 1
      omega
    have hplace : p - 1 - n = (l.take (p - (n + 1))).length + 0 := by
      rw [List.length_take]
      omega
    rw [List.range_succ, List.foldl_append, ih (by omega), htake, List.foldl_cons, List.foldl_nil, hplace,
      List.append_assoc, List.append_assoc, List.set_append_right _ _ (by omega), Nat.add_sub_cancel_left,
      List.map_append, List.reverse_append]
    simp

theorem natBytes_eq (n : Nat) (x : BitVec 64) (hx : x.toNat = n % 2 ^ 64) :
    ((List.range 8).map fun i => lowByte (x >>> (8 * i))).reverse = natBytes 8 n := by
  have hbyte : ∀ i ≤ 7, lowByte (x >>> (8 * i)) = UInt8.ofNat (n >>> (8 * i)) := by
    intro i hi
    rw [lowByte_eq (by decide), BitVec.toNat_ushiftRight, hx]
    apply UInt8.toNat_inj.1
    rw [UInt8.toNat_ofNat', UInt8.toNat_ofNat']
    apply Nat.eq_of_testBit_eq
    intro j
    simp only [Nat.testBit_mod_two_pow, Nat.testBit_shiftRight]
    by_cases hj : j < 8
    · have hlt : 8 * i + j < 64 := by omega
      simp [hlt]
    · simp [hj]
  have hreverse : (List.range 8).reverse = (List.range 8).map fun i => 8 - 1 - i := by decide
  rw [← List.map_reverse, hreverse, List.map_map, natBytes]
  apply List.map_congr_left
  intro i _
  exact hbyte (8 - 1 - i) (by omega)

/-- **The final blocks** are the end of the padded message. -/
theorem tail_eq (data : Bytes) :
    (tail data).take (tailBlocks data.length * 64) = (padBytes data).drop (data.length / 64 * 64) := by
  obtain ⟨rest, hrest⟩ : ∃ rest, rest = data.drop (data.length / 64 * 64) := ⟨_, rfl⟩
  have hlength : rest.length = data.length % 64 := by
    rw [hrest, List.length_drop]
    omega
  have hblocks : data.length % 64 + 1 + zeroBytes data.length + 8 = tailBlocks data.length * 64 ∧
      tailBlocks data.length * 64 ≤ 128 := by
    rw [zeroBytes, tailBlocks]
    split
    · omega
    · omega
  -- the buffer with the remainder and the one bit in it
  have hmarked : (rest ++ List.replicate (128 - data.length % 64) (0 : UInt8)).set (data.length % 64) 0x80 =
      rest ++ 0x80 :: List.replicate (127 - data.length % 64) 0 := by
    obtain ⟨room, hroom⟩ : ∃ room, 128 - data.length % 64 = room + 1 := ⟨127 - data.length % 64, by omega⟩
    have hroom' : 127 - data.length % 64 = room := by omega
    rw [hroom, hroom', List.set_append_right _ _ (by omega), hlength, Nat.sub_self, List.replicate_succ]
    rfl
  have hfront : (rest ++ 0x80 :: List.replicate (127 - data.length % 64) (0 : UInt8)).take
      (tailBlocks data.length * 64 - 8) = rest ++ 0x80 :: List.replicate (zeroBytes data.length) 0 := by
    have hsplit : tailBlocks data.length * 64 - 8 = rest.length + (zeroBytes data.length + 1) := by omega
    rw [hsplit, List.take_length_add_append, List.take_succ_cons, List.take_replicate]
    congr 3
    omega
  have hnumber : (BitVec.ofNat 64 data.length * 8 : BitVec 64).toNat = (8 * data.length) % 2 ^ 64 := by
    rw [BitVec.toNat_mul, BitVec.toNat_ofNat]
    show data.length % 2 ^ 64 * 8 % 2 ^ 64 = _
    omega
  have hdrop : (padBytes data).drop (data.length / 64 * 64) =
      rest ++ 0x80 :: List.replicate (zeroBytes data.length) 0 ++ natBytes 8 (8 * data.length) := by
    rw [padBytes, List.append_assoc, List.drop_append_of_le_length (by omega), ← hrest, ← List.append_assoc]
  rw [tail, ← hrest, hmarked, foldl_set _ _ (by omega) (by simp; omega), hfront, natBytes_eq _ _ hnumber, hdrop]
  apply List.take_left'
  simp [hlength]
  omega

/-! ## The whole message -/

theorem blockWord_eq {block padded : Bytes} (i j : Nat) (hj : j < 16)
    (hblock : block.take 64 = (padded.drop (i * 64)).take 64) (hlength : 64 ≤ block.length) :
    loadWord block j = blockWord (byteBits padded) i j := by
  have hplace : 512 * i + 32 * j = 8 * (i * 64 + j * 4) := by omega
  have hfour : ∀ l : Bytes, (l.drop (j * 4)).take 4 = ((l.take 64).drop (j * 4)).take 4 := by
    intro l
    rw [List.drop_take, List.take_take, Nat.min_eq_left (by omega)]
  have htake := byteBits_take 4 (padded.drop (i * 64 + j * 4))
  rw [loadWord_eq block j (by omega), blockWord, hplace, byteBits_drop, htake, hfour, hblock, ← hfour,
    List.drop_drop]

/-- The state after `n` blocks of the padded message. -/
theorem foldl_blocks (padded text : Bytes) (first n : Nat) {state : Sha256State}
    (hstate : state.words = hashValue (byteBits padded) first)
    (hblocks : ∀ i < n, 64 ≤ (text.drop (i * 64)).length ∧
      (text.drop (i * 64)).take 64 = (padded.drop ((first + i) * 64)).take 64) :
    ((List.range n).foldl (fun (state : Sha256State) i => state.processBlock (text.drop (i * 64))) state).words =
      hashValue (byteBits padded) (first + n) := by
  induction n with
  | zero => exact hstate
  | succ n ih =>
    obtain ⟨hlength, hblock⟩ := hblocks n (Nat.lt_succ_self n)
    rw [List.range_succ, List.foldl_append, ← Nat.add_assoc, hashValue, ← ih fun i hi => hblocks i (by omega),
      List.foldl_cons, List.foldl_nil, processBlock_words]
    exact compress_congr (fun j hj => blockWord_eq (first + n) j hj hblock hlength) _

theorem wholeBlocks_words (data : Bytes) :
    ((List.range (data.length / 64)).foldl
      (fun (state : Sha256State) i => state.processBlock (data.drop (i * 64))) {}).words =
        hashValue (byteBits (padBytes data)) (data.length / 64) := by
  have hwhole := foldl_blocks (padBytes data) data 0 (data.length / 64) initial_eq ?_
  · rwa [Nat.zero_add] at hwhole
  · intro i hi
    have hlength : 64 ≤ (data.drop (i * 64)).length := by
      rw [List.length_drop]
      omega
    refine ⟨hlength, ?_⟩
    rw [Nat.zero_add, padBytes, List.append_assoc, List.drop_append_of_le_length (by omega),
      List.take_append_of_le_length hlength]

theorem finalBlocks_words (data : Bytes) {full : Sha256State}
    (h : full.words = hashValue (byteBits (padBytes data)) (data.length / 64)) :
    ((List.range (tailBlocks data.length)).foldl
      (fun (state : Sha256State) i => state.processBlock ((tail data).drop (i * 64))) full).words =
        hashValue (byteBits (padBytes data)) (data.length / 64 + tailBlocks data.length) := by
  have htail := tail_eq data
  have hlength : tailBlocks data.length * 64 ≤ (tail data).length := by
    have hsame := congrArg List.length htail
    rw [List.length_take, List.length_drop, padBytes_length] at hsame
    omega
  refine foldl_blocks _ (tail data) _ _ h fun i hi => ⟨?_, ?_⟩
  · rw [List.length_drop]
    omega
  · have hblock : ((tail data).drop (i * 64)).take 64 =
        (((tail data).take (tailBlocks data.length * 64)).drop (i * 64)).take 64 := by
      rw [List.drop_take, List.take_take, Nat.min_eq_left (by omega)]
    rw [hblock, htail, List.drop_drop, Nat.add_mul]

/-- **`sha256_raw` is SHA-256.** -/
theorem sha256Raw_standard {data : Bytes} (h : data.length < 2 ^ 61) :
    sha256Bytes data = some (sha256Raw data) := by
  have hshort : (byteBits data).length < 2 ^ 64 := by
    rw [byteBits_length]
    omega
  have hcount : (byteBits (padBytes data)).length / 512 = data.length / 64 + tailBlocks data.length := by
    rw [byteBits_length, padBytes_length]
    omega
  have hwords := finalBlocks_words data (wholeBlocks_words data)
  have hbits : ∀ w : BitVec 32, natBits 32 w.toNat = byteBits (digestWord w) := by
    intro w
    rw [digestWord_eq]
    exact natBits_bytes 4 w.toNat
  have hdigest : ∀ ws : List (BitVec 32),
      (ws.flatMap fun w => natBits 32 w.toNat) = byteBits (ws.flatMap digestWord) := by
    intro ws
    simp only [hbits, byteBits, List.flatMap_assoc]
  rw [sha256Bytes, sha256, if_pos hshort, Option.map_some, pad_byteBits]
  rw [hcount, ← hwords, hdigest, bitBytes_byteBits]
  rfl

/-! ## HMAC -/

theorem sha256Raw_length (data : Bytes) : (sha256Raw data).length = 32 := rfl

theorem keyBlock_standard {key : Bytes} (h : key.length < 2 ^ 61) :
    Rfc2104.blockKey sha256Bytes 64 key = some (keyBlock key) := by
  rw [Rfc2104.blockKey, keyBlock]
  split
  · rw [sha256Raw_standard h]
    rfl
  · rfl

theorem keyBlock_length (key : Bytes) : (keyBlock key).length = 64 := by
  have hshort : (if 64 < key.length then sha256Raw key else key).length ≤ 64 := by
    split
    · rw [sha256Raw_length]
      decide
    · omega
  rw [keyBlock, List.length_append, List.length_replicate]
  omega

/-- **`hmac_sha256_hex` is HMAC-SHA256**, for keys of any length. -/
theorem hmacSha256Raw_standard {key message : Bytes} (hkey : key.length < 2 ^ 61)
    (hmessage : message.length + 64 < 2 ^ 61) :
    Rfc2104.hmac sha256Bytes 64 key message = some (hmacSha256Raw key message) := by
  have hlength := keyBlock_length key
  rw [Rfc2104.hmac, keyBlock_standard hkey, Option.bind_some, sha256Raw_standard, Option.bind_some,
    sha256Raw_standard]
  · rfl
  · rw [List.length_append, List.length_map, sha256Raw_length]
    omega
  · rw [List.length_append, List.length_map]
    omega

/-! ## The header -/

/-- A number as the standard library of the language prints it. -/
def decimal (n : Int) : Bytes := lit (toString n)

/-- Two digits for each byte. -/
def hexLower (bytes : Bytes) : Bytes :=
  bytes.flatMap fun b => [ch (Nat.digitChar (b.toNat / 16)), ch (Nat.digitChar (b.toNat % 16))]

theorem intText_decimal (n : Int) : intText n = decimal n := by
  cases n with
  | ofNat n =>
    show (Nat.toDigits 10 n).map _ = lit (String.ofList (Nat.toDigits 10 n))
    rw [lit, String.toList_ofList]
  | negSucc n =>
    rw [intText, if_pos (Int.negSucc_lt_zero n)]
    show ch '-' :: (Nat.toDigits 10 (n + 1)).map _ = lit ("-" ++ String.ofList (Nat.toDigits 10 (n + 1)))
    rw [lit, String.toList_append, List.map_append, String.toList_ofList, String.toList_ofList]
    rfl

theorem toHex_eq (bytes : Bytes) : toHex bytes = hexLower bytes := by
  have hbyte : ∀ b : UInt8, [hexDigits.getD ((b >>> 4) &&& 0xF).toNat 0, hexDigits.getD (b &&& 0xF).toNat 0] =
      [ch (Nat.digitChar (b.toNat / 16)), ch (Nat.digitChar (b.toNat % 16))] := by
    apply forall_byte
    decide +kernel
  rw [toHex, hexLower]
  simp only [hbyte]

theorem dot_notMem (n : Int) : ch '.' ∉ intText n := by
  rw [JsonFields.intText_eq]
  intro h
  rcases List.mem_append.1 h with hsign | hdigit
  · split at hsign
    · exact absurd hsign (by decide)
    · cases hsign
  · exact absurd (Decimal.mem_text hdigit).1 (by decide)

theorem intText_injective {m n : Int} (h : intText m = intText n) : m = n := by
  have hvalue : ∀ n, (Decimal.text n).foldl (fun v c => v * 10 + Decimal.value c) 0 = n := Decimal.foldl_text
  have hhead : ∀ n, ch '-' ∉ Decimal.text n := fun n hn => absurd (Decimal.mem_text hn).1 (by decide)
  have habs : Decimal.text m.natAbs = Decimal.text n.natAbs → m.natAbs = n.natAbs := by
    intro htext
    rw [← hvalue m.natAbs, htext, hvalue]
  rw [JsonFields.intText_eq, JsonFields.intText_eq] at h
  by_cases hm : m < 0
  · by_cases hn : n < 0
    · rw [if_pos hm, if_pos hn] at h
      have := habs (List.append_cancel_left h)
      omega
    · rw [if_pos hm, if_neg hn] at h
      exact absurd (h ▸ List.mem_cons_self : ch '-' ∈ [] ++ Decimal.text n.natAbs) (hhead _)
  · by_cases hn : n < 0
    · rw [if_neg hm, if_pos hn] at h
      exact absurd (h ▸ List.mem_cons_self : ch '-' ∈ [] ++ Decimal.text m.natAbs) (hhead _)
    · rw [if_neg hm, if_neg hn] at h
      have := habs h
      omega

/-- **Two requests never sign the same text.** -/
theorem signedInput_injective {t t' : BitVec 64} {body body' : Bytes}
    (h : signedInput t body = signedInput t' body') : t = t' ∧ body = body' := by
  have hcut := Delimited.cut_append (dot_notMem t.toInt) body
  have hcut' := Delimited.cut_append (dot_notMem t'.toInt) body'
  have hsame : some (intText t.toInt, body) = some (intText t'.toInt, body') := by
    rw [← hcut, ← hcut']
    exact congrArg _ h
  obtain ⟨htext, hbody⟩ := Prod.mk.inj (Option.some.inj hsame)
  exact ⟨BitVec.eq_of_toInt_eq (intText_injective htext), hbody⟩

/-- The text that is signed is hardly longer than the body. -/
theorem signedInput_length (t : BitVec 64) (body : Bytes) : (signedInput t body).length ≤ body.length + 21 := by
  have hdigits : (Decimal.text t.toInt.natAbs).length ≤ 18 + 1 := by
    apply Decimal.length_text_le
    have hlow := BitVec.le_toInt t
    have hhigh := BitVec.toInt_lt (x := t)
    omega
  have hsign : (if t.toInt < 0 then [ch '-'] else []).length ≤ 1 := by
    split
    · exact Nat.le_refl 1
    · exact Nat.zero_le 1
  rw [signedInput, List.length_append, List.length_cons, JsonFields.intText_eq, List.length_append]
  omega

/-- **Request signing follows the standards.** The header is the second and the HMAC-SHA256 of the
second, a dot and the body; the text that is signed says which second and which body. -/
theorem buildIngestSignatureHeader_standard {key body : Bytes} (t : BitVec 64) (hkey : key.length ≤ 2 ^ 60)
    (hbody : body.length ≤ 2 ^ 60) :
    (∃ mac, Rfc2104.hmac sha256Bytes 64 key (decimal t.toInt ++ ch '.' :: body) = some mac ∧
      buildIngestSignatureHeader key body t = lit "t=" ++ decimal t.toInt ++ lit ",v1=" ++ hexLower mac) ∧
    ∀ t' body', decimal t.toInt ++ ch '.' :: body = decimal t'.toInt ++ ch '.' :: body' →
      t = t' ∧ body = body' := by
  have hlength := signedInput_length t body
  have hmac := @hmacSha256Raw_standard key (signedInput t body) (by omega) (by omega)
  simp only [← intText_decimal]
  refine ⟨⟨_, hmac, ?_⟩, fun t' body' h => signedInput_injective h⟩
  rw [buildIngestSignatureHeader, hmacSha256Hex, toHex_eq]

/-- A key, a body and a second of the tests. -/
theorem buildIngestSignatureHeader_boot :
    ∃ mac, Rfc2104.hmac sha256Bytes 64 (lit "tmb_secret") (lit "1700000123.\x7b\"name\":\"boot\"\x7d") = some mac ∧
      buildIngestSignatureHeader (lit "tmb_secret") (lit "\x7b\"name\":\"boot\"\x7d") 1700000123#64 =
        lit "t=1700000123,v1=" ++ hexLower mac := by
  obtain ⟨⟨mac, hmac, hheader⟩, -⟩ := @buildIngestSignatureHeader_standard (lit "tmb_secret")
    (lit "\x7b\"name\":\"boot\"\x7d") 1700000123#64 (by decide) (by decide)
  have hsigned : decimal (1700000123#64 : BitVec 64).toInt ++ ch '.' :: lit "\x7b\"name\":\"boot\"\x7d" =
      lit "1700000123.\x7b\"name\":\"boot\"\x7d" := by decide
  rw [hsigned] at hmac
  exact ⟨mac, hmac, hheader⟩

end Tombstone.Signature
