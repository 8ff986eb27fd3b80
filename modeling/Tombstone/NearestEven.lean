import Mathlib.Algebra.Order.Field.Basic
import Mathlib.Algebra.Order.Ring.Nat
import Mathlib.Data.Rat.Cast.Order
import Mathlib.Order.Monotone.Basic
import Mathlib.Tactic.Linarith
import Mathlib.Tactic.Ring

/- Numbers of a format with limited precision, and arithmetic that rounds to the nearest of them.

   A format is an increasing sequence of values, numbered by their bit patterns, up to a last
   one that stands for infinity; it holds the numbers that are not negative. This file

   1. searches for the greatest number that has a downward closed property, bit by bit
      (`search`);
   2. rounds to the nearest point of a format, ties to the even one (`Grid.round`), keeping the
      points themselves (`round_val`) and the order (`round_mono`);
   3. defines sums, products and quotients as the exact ones rounded, with infinity and with
      `none` for what is not a number (`Point.add`, `Point.mul`, `Point.div`);
   4. gives the format of the binary floating-point numbers (`binary`). -/
namespace Tombstone.NearestEven

/-! ## Bit by bit -/

/-- Sets each of the lower `k` bits of `n`, from the highest one, where the property allows it. -/
def search (p : ℕ → Bool) : ℕ → ℕ → ℕ
  | 0, n => n
  | k + 1, n => search p k (if p (n + 2 ^ k) then n + 2 ^ k else n)

theorem search_cases (p : ℕ → Bool) : ∀ k n, search p k n = n ∨ p (search p k n) = true
  | 0, _ => .inl rfl
  | k + 1, n => by
    cases hset : p (n + 2 ^ k) with
    | true =>
      simp only [search, hset, if_true]
      rcases search_cases p k (n + 2 ^ k) with hsame | hfound
      · rw [hsame]
        exact .inr hset
      · exact .inr hfound
    | false =>
      simp only [search, hset, Bool.false_eq_true, if_false]
      exact search_cases p k n

theorem search_spec {p : ℕ → Bool} (hp : ∀ m n, m ≤ n → p n = true → p m = true) : ∀ k n, p n = true →
    p (search p k n) = true ∧ ∀ m, p m = true → m < n + 2 ^ k → m ≤ search p k n
  | 0, n, hn => by
    refine ⟨hn, fun m _ hlt => ?_⟩
    simp only [pow_zero] at hlt
    exact Nat.le_of_lt_succ hlt
  | k + 1, n, hn => by
    have hpow : 2 ^ (k + 1) = 2 ^ k + 2 ^ k := by ring
    cases hset : p (n + 2 ^ k) with
    | true =>
      obtain ⟨hfound, hgreatest⟩ := search_spec hp k (n + 2 ^ k) hset
      simp only [search, hset, if_true]
      refine ⟨hfound, fun m hm hlt => hgreatest m hm ?_⟩
      omega
    | false =>
      obtain ⟨hfound, hgreatest⟩ := search_spec hp k n hn
      simp only [search, hset, Bool.false_eq_true, if_false]
      refine ⟨hfound, fun m hm _ => hgreatest m hm ?_⟩
      by_contra hge
      have hbit := hp (n + 2 ^ k) m (by omega) hm
      rw [hset] at hbit
      cases hbit

/-! ## Rounding -/

variable {K : Type} [Field K] [LinearOrder K]

/-- The values of a format, by their bit patterns; the pattern `top` is that of infinity. -/
structure Grid (K : Type) [Field K] [LinearOrder K] where
  val : ℕ → K
  width : ℕ
  top : ℕ
  val_zero : val 0 = 0
  val_lt : StrictMono val
  top_lt : top < 2 ^ width

namespace Grid

variable {G : Grid K} {x y : K} {m n : ℕ}

def below (G : Grid K) (x : K) (n : ℕ) : Bool := decide (n ≤ G.top) && decide (G.val n ≤ x)

/-- The greatest point that is not above `x`. -/
def floor (G : Grid K) (x : K) : ℕ := search (G.below x) G.width 0

/-- The nearest point to `x`; of two, the one with the even pattern. -/
def round (G : Grid K) (x : K) : ℕ :=
  let n := G.floor x
  if n = G.top then n
  else if x - G.val n < G.val (n + 1) - x then n
  else if G.val (n + 1) - x < x - G.val n then n + 1
  else if n % 2 = 0 then n
  else n + 1

theorem below_iff : G.below x n = true ↔ n ≤ G.top ∧ G.val n ≤ x := by
  simp [below]

theorem floor_le_top (G : Grid K) (x : K) : G.floor x ≤ G.top := by
  rcases search_cases (G.below x) G.width 0 with hstart | hfound
  · simp [floor, hstart]
  · exact (below_iff.1 hfound).1

/-- Rounding goes down or up. -/
theorem round_cases (G : Grid K) (x : K) :
    G.round x = G.floor x ∨ G.floor x ≠ G.top ∧ G.round x = G.floor x + 1 := by
  unfold round
  dsimp only
  split
  · exact .inl rfl
  · rename_i hne
    split
    · exact .inl rfl
    · split
      · exact .inr ⟨hne, rfl⟩
      · split
        · exact .inl rfl
        · exact .inr ⟨hne, rfl⟩

theorem round_le_top (G : Grid K) (x : K) : G.round x ≤ G.top := by
  have hfloor := floor_le_top G x
  have hround := round_cases G x
  omega

theorem floor_spec (hx : 0 ≤ x) : G.val (G.floor x) ≤ x ∧
    ∀ m ≤ G.top, G.val m ≤ x → m ≤ G.floor x := by
  have hclosed : ∀ m n, m ≤ n → G.below x n = true → G.below x m = true := by
    intro m n hmn hn
    obtain ⟨htop, hval⟩ := below_iff.1 hn
    exact below_iff.2 ⟨hmn.trans htop, (G.val_lt.monotone hmn).trans hval⟩
  have hzero : G.below x 0 = true := below_iff.2 ⟨Nat.zero_le _, G.val_zero.trans_le hx⟩
  obtain ⟨hfound, hgreatest⟩ := search_spec hclosed G.width 0 hzero
  refine ⟨(below_iff.1 hfound).2, fun m hm hval => hgreatest m (below_iff.2 ⟨hm, hval⟩) ?_⟩
  have hlt := G.top_lt
  omega

theorem floor_mono (hx : 0 ≤ x) (h : x ≤ y) : G.floor x ≤ G.floor y := by
  apply (floor_spec (hx.trans h)).2 _ (floor_le_top G x)
  exact (floor_spec hx).1.trans h

theorem floor_val (hn : n ≤ G.top) : G.floor (G.val n) = n := by
  have hnonneg : 0 ≤ G.val n := G.val_zero ▸ G.val_lt.monotone (Nat.zero_le n)
  obtain ⟨hval, hgreatest⟩ := floor_spec hnonneg
  exact Nat.le_antisymm (G.val_lt.le_iff_le.1 hval) (hgreatest n hn le_rfl)

variable [IsStrictOrderedRing K]

/-- Between the same two points, what is higher is not rounded lower. -/
theorem round_mono_of_floor (hxy : x ≤ y) (h : G.floor x = G.floor y) : G.round x ≤ G.round y := by
  rcases eq_or_lt_of_le hxy with rfl | hlt
  · exact le_rfl
  · unfold round
    rw [h]
    dsimp only
    split_ifs <;> first | omega | (exfalso; linarith)

/-- **Rounding keeps the order.** -/
theorem round_mono (hx : 0 ≤ x) (hxy : x ≤ y) : G.round x ≤ G.round y := by
  rcases Nat.eq_or_lt_of_le (floor_mono (G := G) hx hxy) with heq | hlt
  · exact round_mono_of_floor hxy heq
  · have hdown := round_cases G x
    have hup := round_cases G y
    omega

/-- **Rounding keeps the points.** -/
theorem round_val (hn : n ≤ G.top) : G.round (G.val n) = n := by
  have hnext : G.val n < G.val (n + 1) := G.val_lt (Nat.lt_succ_self n)
  unfold round
  rw [floor_val hn]
  dsimp only
  split
  · rfl
  · rw [if_pos]
    rw [sub_self]
    exact sub_pos.2 hnext

theorem le_round (hn : n ≤ G.top) (h : G.val n ≤ x) : n ≤ G.round x := by
  have hnonneg : 0 ≤ G.val n := G.val_zero ▸ G.val_lt.monotone (Nat.zero_le n)
  calc n = G.round (G.val n) := (round_val hn).symm
    _ ≤ G.round x := round_mono hnonneg h

theorem round_le (hn : n ≤ G.top) (hx : 0 ≤ x) (h : x ≤ G.val n) : G.round x ≤ n := by
  calc G.round x ≤ G.round (G.val n) := round_mono hx h
    _ = n := round_val hn

end Grid

/-! ## Arithmetic -/

/-- A number of the format, or infinity. -/
@[ext] structure Point (G : Grid K) where
  index : ℕ
  le_top : index ≤ G.top

namespace Point

variable {G : Grid K} {a b c : Point G} {x y : K}

instance : LinearOrder (Point G) := LinearOrder.lift' index fun _ _ => Point.ext

def value (a : Point G) : K := G.val a.index

def zero : Point G := ⟨0, Nat.zero_le _⟩

def infinity : Point G := ⟨G.top, le_rfl⟩

/-- The number of the format for `x`, which is not negative. -/
def ofExact (x : K) : Point G := ⟨G.round x, Grid.round_le_top G x⟩

def add (a b : Point G) : Point G :=
  if a = infinity ∨ b = infinity then infinity else ofExact (a.value + b.value)

/-- Nothing times infinity is not a number. -/
def mul (a b : Point G) : Option (Point G) :=
  if a = infinity ∨ b = infinity then
    if a = zero ∨ b = zero then none else some infinity
  else some (ofExact (a.value * b.value))

/-- Nothing by nothing, and infinity by infinity, are not numbers. -/
def div (a b : Point G) : Option (Point G) :=
  if a = infinity then
    if b = infinity then none else some infinity
  else if b = infinity then some zero
  else if b = zero then
    if a = zero then none else some infinity
  else some (ofExact (a.value / b.value))

theorem le_infinity (a : Point G) : a ≤ infinity := a.le_top

theorem zero_le (a : Point G) : zero ≤ a := Nat.zero_le a.index

theorem value_le : a.value ≤ b.value ↔ a ≤ b := G.val_lt.le_iff_le

@[simp] theorem value_zero : (zero : Point G).value = 0 := G.val_zero

theorem value_nonneg (a : Point G) : 0 ≤ a.value := by
  rw [← value_zero (G := G)]
  exact value_le.2 (zero_le a)

theorem mul_finite (ha : a < infinity) (hb : b < infinity) :
    a.mul b = some (ofExact (a.value * b.value)) := by
  rw [mul, if_neg]
  exact not_or.2 ⟨ha.ne, hb.ne⟩

/-- Only nothing by nothing, and infinity by infinity, are not numbers. -/
theorem div_isSome (ha : a < infinity) (hb : zero < b) : ∃ q, a.div b = some q := by
  unfold div
  rw [if_neg ha.ne]
  split
  · exact ⟨_, rfl⟩
  · rw [if_neg hb.ne']
    exact ⟨_, rfl⟩

variable [IsStrictOrderedRing K]

theorem ofExact_mono (hx : 0 ≤ x) (h : x ≤ y) : (ofExact x : Point G) ≤ ofExact y := Grid.round_mono hx h

theorem le_ofExact (h : a.value ≤ x) : a ≤ ofExact x := Grid.le_round a.le_top h

theorem ofExact_le (hx : 0 ≤ x) (h : x ≤ a.value) : ofExact x ≤ a := Grid.round_le a.le_top hx h

/-- A number that the format has, is kept. -/
theorem ofExact_value (a : Point G) : ofExact a.value = a := Point.ext (Grid.round_val a.le_top)

/-- A sum is not below what is added. -/
theorem le_add (a b : Point G) : b ≤ a.add b := by
  unfold add
  split
  · exact le_infinity b
  · apply le_ofExact
    exact le_add_of_nonneg_left a.value_nonneg

end Point

/-! ## Binary floating-point numbers -/

/-- The pattern's number in units of the smallest one above zero. Below `2 ^ p` the patterns
count units; from there on, each `2 ^ p` patterns are twice as far apart as the ones before. -/
def units (p n : ℕ) : ℕ :=
  if n < 2 ^ p then n else (2 ^ p + n % 2 ^ p) * 2 ^ (n / 2 ^ p - 1)

theorem units_split {p e f : ℕ} (hf : f < 2 ^ p) :
    units p (2 ^ p * e + f) = if e = 0 then f else (2 ^ p + f) * 2 ^ (e - 1) := by
  have hpos : 0 < 2 ^ p := Nat.two_pow_pos p
  unfold units
  cases e with
  | zero => simp [hf]
  | succ e =>
    have hge : ¬ 2 ^ p * (e + 1) + f < 2 ^ p := by
      rw [Nat.mul_succ]
      omega
    rw [if_neg hge, if_neg (Nat.succ_ne_zero e), Nat.mul_add_mod, Nat.mod_eq_of_lt hf, Nat.mul_add_div hpos,
      Nat.div_eq_of_lt hf, Nat.add_zero]

theorem units_lt_succ (p n : ℕ) : units p n < units p (n + 1) := by
  have hpos : 0 < 2 ^ p := Nat.two_pow_pos p
  have hf : n % 2 ^ p < 2 ^ p := Nat.mod_lt n hpos
  rw [← Nat.div_add_mod n (2 ^ p)]
  generalize n / 2 ^ p = e at *
  generalize n % 2 ^ p = f at *
  rw [units_split hf]
  by_cases hnext : f + 1 < 2 ^ p
  · rw [Nat.add_assoc, units_split hnext]
    split
    · exact Nat.lt_succ_self f
    · apply Nat.mul_lt_mul_of_pos_right
      · omega
      · exact Nat.two_pow_pos _
  · -- the first pattern of the next power of two
    have hcarry : 2 ^ p * e + f + 1 = 2 ^ p * (e + 1) + 0 := by
      rw [Nat.mul_succ]
      omega
    rw [hcarry, units_split hpos, if_neg (Nat.succ_ne_zero e)]
    cases e with
    | zero => simpa using hf
    | succ e =>
      rw [if_neg (Nat.succ_ne_zero e), Nat.add_zero, Nat.succ_sub_one, Nat.succ_sub_one, Nat.pow_succ,
        Nat.mul_comm (2 ^ e) 2, ← Nat.mul_assoc]
      apply Nat.mul_lt_mul_of_pos_right
      · omega
      · exact Nat.two_pow_pos e

theorem units_lt (p : ℕ) : StrictMono (units p) := strictMono_nat_of_lt_succ (units_lt_succ p)

/-- Every whole number that fits in the fraction is a number of units, and so is it times a power of
two. -/
theorem exists_units {p n s : ℕ} (hpos : 0 < n) (hn : n < 2 ^ (p + 1)) (hs : p ≤ s) :
    ∃ i < 2 ^ p * (s + 2), units p i = n * 2 ^ s := by
  -- the power of two below it, and what is left
  have hlow : 2 ^ n.log2 ≤ n := Nat.log2_self_le hpos.ne'
  have hhigh : n < 2 ^ (n.log2 + 1) := Nat.lt_log2_self
  have hlog : n.log2 ≤ p := Nat.le_of_lt_succ ((Nat.log2_lt hpos.ne').2 hn)
  generalize n.log2 = k at hlow hhigh hlog
  have hsplit : 2 ^ k * 2 ^ (p - k) = 2 ^ p := by rw [← Nat.pow_add, Nat.add_sub_cancel' hlog]
  have hf : (n - 2 ^ k) * 2 ^ (p - k) < 2 ^ p := by
    rw [← hsplit]
    apply Nat.mul_lt_mul_of_pos_right
    · rw [Nat.pow_succ] at hhigh
      omega
    · exact Nat.two_pow_pos _
  refine ⟨2 ^ p * (k + (s - p) + 1) + (n - 2 ^ k) * 2 ^ (p - k), ?_, ?_⟩
  · calc 2 ^ p * (k + (s - p) + 1) + (n - 2 ^ k) * 2 ^ (p - k) < 2 ^ p * (k + (s - p) + 1) + 2 ^ p :=
          Nat.add_lt_add_left hf _
      _ = 2 ^ p * (k + (s - p) + 2) := by ring
      _ ≤ 2 ^ p * (s + 2) := Nat.mul_le_mul_left _ (by omega)
  · rw [units_split hf, if_neg (Nat.succ_ne_zero _), Nat.succ_sub_one]
    calc (2 ^ p + (n - 2 ^ k) * 2 ^ (p - k)) * 2 ^ (k + (s - p))
        = (2 ^ k + (n - 2 ^ k)) * 2 ^ (p - k) * 2 ^ (k + (s - p)) := by rw [← hsplit]; ring
      _ = n * 2 ^ (p - k + (k + (s - p))) := by
        rw [Nat.add_sub_cancel' hlow, Nat.mul_assoc, ← Nat.pow_add]
      _ = n * 2 ^ s := by
        congr 2
        omega

theorem scaled_units_lt (K : Type) [Field K] [LinearOrder K] [IsStrictOrderedRing K] (p s : ℕ) :
    StrictMono fun n => (units p n : K) / ((2 ^ s : ℕ) : K) := by
  intro m n h
  apply div_lt_div_of_pos_right
  · exact Nat.cast_lt.2 (units_lt p h)
  · exact Nat.cast_pos.2 (Nat.two_pow_pos s)

theorem scaled_units_zero (K : Type) [Field K] (p s : ℕ) : (units p 0 : K) / ((2 ^ s : ℕ) : K) = 0 := by
  simp [units]

theorem patterns_lt (p e : ℕ) : (2 ^ e - 1) * 2 ^ p < 2 ^ (e + p) := by
  rw [pow_add]
  apply Nat.mul_lt_mul_of_pos_right
  · exact Nat.sub_lt (Nat.two_pow_pos e) Nat.one_pos
  · exact Nat.two_pow_pos p

/-- The numbers, not negative, of the binary format with `p` bits of fraction and `e` of exponent. -/
def binary (K : Type) [Field K] [LinearOrder K] [IsStrictOrderedRing K] (p e : ℕ) : Grid K where
  val n := units p n / ((2 ^ (2 ^ (e - 1) - 2 + p) : ℕ) : K)
  width := e + p
  top := (2 ^ e - 1) * 2 ^ p
  val_zero := scaled_units_zero K p _
  val_lt := scaled_units_lt K p _
  top_lt := patterns_lt p e

/-- Whole numbers that fit in the fraction are points of the format, and so are they times a power of
two. -/
theorem exists_value (K : Type) [Field K] [LinearOrder K] [IsStrictOrderedRing K] {p e n j : ℕ}
    (hn : n < 2 ^ (p + 1)) (hj : p + j + 1 < 2 ^ (e - 1)) :
    ∃ a : Point (binary K p e), a < Point.infinity ∧ a.value = n * 2 ^ j := by
  have hhalf : 2 ^ e = 2 ^ (e - 1) + 2 ^ (e - 1) := by
    have he : e ≠ 0 := by
      rintro rfl
      omega
    rw [← Nat.sub_one_add_one he, Nat.add_sub_cancel, Nat.pow_succ, Nat.mul_two]
  have htop : ∀ i, i < 2 ^ p * (2 ^ e - 1) → i < (binary K p e).top := fun i hi =>
    hi.trans_eq (Nat.mul_comm _ _)
  rcases Nat.eq_zero_or_pos n with rfl | hpos
  · refine ⟨Point.zero, htop 0 (Nat.mul_pos (Nat.two_pow_pos p) (by omega)), ?_⟩
    rw [Point.value_zero, Nat.cast_zero, zero_mul]
  · obtain ⟨i, hlt, hunits⟩ := exists_units (s := j + (2 ^ (e - 1) - 2 + p)) hpos hn (by omega)
    have hi : i < (binary K p e).top := htop i (hlt.trans_le (Nat.mul_le_mul_left _ (by omega)))
    refine ⟨⟨i, hi.le⟩, hi, ?_⟩
    show (units p i : K) / ((2 ^ (2 ^ (e - 1) - 2 + p) : ℕ) : K) = n * 2 ^ j
    have hscale : (0 : K) < ((2 ^ (2 ^ (e - 1) - 2 + p) : ℕ) : K) := Nat.cast_pos.2 (Nat.two_pow_pos _)
    rw [hunits, div_eq_iff hscale.ne', Nat.cast_mul, Nat.cast_pow, Nat.cast_pow, Nat.cast_ofNat, pow_add,
      mul_assoc]

end Tombstone.NearestEven
