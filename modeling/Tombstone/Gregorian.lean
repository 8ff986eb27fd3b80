import Mathlib.Algebra.Group.Nat.Defs

/- The proleptic Gregorian calendar from the year 0 on: leap years, the lengths of months and
   years, the number of a day, and of a millisecond, counted from the first one; every number
   is that of one date, and numbers compare as dates do.

   Years, months and the parts of a day are all steps of one kind: `f k` is where the `k`-th
   begins, and a number within it is `f k + r` (`step_lt_iff`, `exists_step`). -/
namespace Tombstone.Gregorian

/-! ## Steps -/

theorem step_mono {f : Nat → Nat} (hf : ∀ k, f k ≤ f (k + 1)) {i j : Nat} (h : i ≤ j) :
    f i ≤ f j := by
  induction j with
  | zero => exact Nat.le_of_eq (congrArg f (Nat.le_zero.mp h))
  | succ j ih =>
    by_cases heq : i = j + 1
    · exact Nat.le_of_eq (congrArg f heq)
    · exact Nat.le_trans (ih (by omega)) (hf j)

/-- **Numbers compare step by step.** -/
theorem step_lt_iff {f : Nat → Nat} (hf : ∀ k, f k ≤ f (k + 1)) {i j r s : Nat}
    (hr : f i + r < f (i + 1)) (hs : f j + s < f (j + 1)) :
    f i + r < f j + s ↔ i < j ∨ i = j ∧ r < s := by
  rcases Nat.lt_trichotomy i j with hij | rfl | hij
  · have hle : f (i + 1) ≤ f j := step_mono hf hij
    exact ⟨fun _ => .inl hij, fun _ => by omega⟩
  · exact ⟨fun h => .inr ⟨rfl, by omega⟩, fun h => by omega⟩
  · have hle : f (j + 1) ≤ f i := step_mono hf hij
    constructor
    · intro h
      omega
    · intro h
      omega

theorem exists_step {f : Nat → Nat} (h0 : f 0 = 0) {n k : Nat} (h : n < f k) :
    ∃ i < k, f i ≤ n ∧ n < f (i + 1) := by
  induction k with
  | zero => omega
  | succ k ih =>
    by_cases hk : n < f k
    · obtain ⟨i, hi, hin⟩ := ih hk
      exact ⟨i, by omega, hin⟩
    · exact ⟨k, by omega, by omega, h⟩

/-! ## The calendar -/

def isLeap (year : Nat) : Bool := year % 4 == 0 && (year % 100 != 0 || year % 400 == 0)

def yearLength (year : Nat) : Nat := if isLeap year then 366 else 365

/-- The months go from 1 to 12. -/
def monthLength (year : Nat) : Nat → Nat
  | 2 => if isLeap year then 29 else 28
  | 4 | 6 | 9 | 11 => 30
  | _ => 31

def daysBeforeYear : Nat → Nat
  | 0 => 0
  | year + 1 => daysBeforeYear year + yearLength year

/-- The days of the first `k` months. -/
def daysOfMonths (year : Nat) : Nat → Nat
  | 0 => 0
  | k + 1 => daysOfMonths year k + monthLength year (k + 1)

structure Date where
  year : Nat
  month : Nat
  day : Nat
  month_pos : 1 ≤ month
  month_le : month ≤ 12
  day_pos : 1 ≤ day
  day_le : day ≤ monthLength year month

/-- The days before a date, from the first of January of the year 0 on. -/
def Date.number (d : Date) : Nat :=
  daysBeforeYear d.year + (daysOfMonths d.year (d.month - 1) + (d.day - 1))

/-- A date and a time of day. -/
structure Time where
  date : Date
  hour : Nat
  minute : Nat
  second : Nat
  millis : Nat
  hour_lt : hour < 24
  minute_lt : minute < 60
  second_lt : second < 60
  millis_lt : millis < 1000

/-- The milliseconds before a time, from the beginning of the year 0 on. -/
def Time.number (t : Time) : Nat :=
  (((t.date.number * 24 + t.hour) * 60 + t.minute) * 60 + t.second) * 1000 + t.millis

theorem isLeap_iff (year : Nat) :
    isLeap year = true ↔ year % 4 = 0 ∧ (year % 100 ≠ 0 ∨ year % 400 = 0) := by
  simp [isLeap]

theorem div_up (n : Nat) {k : Nat} (hk : 0 < k) : (n + (k - 1)) / k = n / k + if n % k = 0 then 0 else 1 := by
  have hdiv := Nat.div_add_mod n k
  have hlt := Nat.mod_lt n hk
  have hsum : n + (k - 1) = n % k + (k - 1) + k * (n / k) := by omega
  rw [hsum, Nat.add_mul_div_left _ _ hk]
  split
  · next hzero =>
    rw [hzero, Nat.zero_add, Nat.div_eq_of_lt (Nat.sub_lt hk Nat.one_pos), Nat.add_comm]
  · next hpos =>
    have hback : n % k + (k - 1) = n % k - 1 + k := by omega
    have hless : n % k - 1 < k := by omega
    rw [hback, Nat.add_div_right _ hk, Nat.div_eq_of_lt hless, Nat.add_comm]

/-- Every fourth year is a leap year, but for every hundredth, but for every four hundredth. -/
theorem leap_count (year : Nat) :
    (if year % 4 = 0 then 0 else 1) + (if year % 400 = 0 then 0 else 1) + (if isLeap year then 1 else 0) =
      1 + if year % 100 = 0 then 0 else 1 := by
  have hleap := isLeap_iff year
  have hcentury : year % 400 = 0 → year % 100 = 0 := by omega
  have hfourth : year % 100 = 0 → year % 4 = 0 := by omega
  by_cases h4 : year % 4 = 0
  · by_cases h100 : year % 100 = 0
    · by_cases h400 : year % 400 = 0
      · simp [hleap, h4, h100, h400]
      · simp [hleap, h100, h400, hfourth h100]
    · have h400 : ¬ year % 400 = 0 := fun h => h100 (hcentury h)
      simp [hleap, h4, h100, h400]
  · have h100 : ¬ year % 100 = 0 := fun h => h4 (hfourth h)
    have h400 : ¬ year % 400 = 0 := fun h => h100 (hcentury h)
    simp [hleap, h4, h100, h400]

/-- The days of a year in leap years and others. -/
theorem daysBeforeYear_eq (year : Nat) :
    daysBeforeYear year + (year + 99) / 100 =
      365 * year + (year + 3) / 4 + (year + 399) / 400 := by
  induction year with
  | zero => rfl
  | succ year ih =>
    have hcount := leap_count year
    have hlength : yearLength year = 365 + if isLeap year then 1 else 0 := by
      unfold yearLength
      split <;> rfl
    have h100 : (year + 1 + 99) / 100 = year / 100 + 1 := by omega
    have h4 : (year + 1 + 3) / 4 = year / 4 + 1 := by omega
    have h400 : (year + 1 + 399) / 400 = year / 400 + 1 := by omega
    rw [daysBeforeYear, hlength, h100, h4, h400]
    rw [div_up year (show 0 < 100 by decide), div_up year (show 0 < 4 by decide),
      div_up year (show 0 < 400 by decide)] at ih
    omega

theorem le_daysBeforeYear (year : Nat) : year ≤ daysBeforeYear year := by
  have hdays := daysBeforeYear_eq year
  omega

theorem daysBeforeYear_mono (year : Nat) : daysBeforeYear year ≤ daysBeforeYear (year + 1) :=
  Nat.le_add_right _ _

theorem daysOfMonths_mono (year k : Nat) : daysOfMonths year k ≤ daysOfMonths year (k + 1) :=
  Nat.le_add_right _ _

theorem daysOfMonths_year (year : Nat) : daysOfMonths year 12 = yearLength year := by
  unfold yearLength
  cases h : isLeap year <;> simp [daysOfMonths, monthLength, h]

/-! ## Dates -/

variable (d e : Date)

theorem Date.within_month : daysOfMonths d.year (d.month - 1) + (d.day - 1) <
    daysOfMonths d.year (d.month - 1 + 1) := by
  have hpos := d.month_pos
  have hday := d.day_pos
  have hle := d.day_le
  rw [daysOfMonths, show d.month - 1 + 1 = d.month by omega]
  omega

theorem Date.within_year : daysBeforeYear d.year + (daysOfMonths d.year (d.month - 1) + (d.day - 1)) <
    daysBeforeYear (d.year + 1) := by
  have hle := d.month_le
  have hmonth := d.within_month
  have hyear : daysOfMonths d.year (d.month - 1 + 1) ≤ daysOfMonths d.year 12 :=
    step_mono (daysOfMonths_mono d.year) (by omega)
  rw [daysOfMonths_year] at hyear
  rw [daysBeforeYear]
  omega

/-- **Days are numbered in the order of their dates.** -/
theorem Date.number_lt_iff : d.number < e.number ↔ d.year < e.year ∨ d.year = e.year ∧
    (d.month < e.month ∨ d.month = e.month ∧ d.day < e.day) := by
  unfold number
  rw [step_lt_iff daysBeforeYear_mono d.within_year e.within_year]
  apply or_congr_right
  apply and_congr_right
  intro hyear
  have hd := d.within_month
  have he := e.within_month
  rw [← hyear] at he ⊢
  rw [step_lt_iff (daysOfMonths_mono d.year) hd he]
  have hdmonth := d.month_pos
  have hemonth := e.month_pos
  have hdday := d.day_pos
  have heday := e.day_pos
  omega

theorem Date.number_eq_iff :
    d.number = e.number ↔ d.year = e.year ∧ d.month = e.month ∧ d.day = e.day := by
  have hless := d.number_lt_iff e
  have hmore := e.number_lt_iff d
  omega

/-- **Every number is that of a date.** -/
theorem exists_date (n : Nat) : ∃ d : Date, d.number = n := by
  have hyears := le_daysBeforeYear (n + 1)
  obtain ⟨year, -, hyear, hnext⟩ := exists_step (f := daysBeforeYear) rfl (show n < _ from hyears)
  have hmonths : n - daysBeforeYear year < daysOfMonths year 12 := by
    rw [daysBeforeYear] at hnext
    rw [daysOfMonths_year]
    omega
  obtain ⟨month, hmonth, hday, hlast⟩ := exists_step (f := daysOfMonths year) rfl hmonths
  rw [daysOfMonths] at hlast
  let d : Date :=
    { year
      month := month + 1
      day := n - daysBeforeYear year - daysOfMonths year month + 1
      month_pos := by omega
      month_le := by omega
      day_pos := by omega
      day_le := by omega }
  refine ⟨d, ?_⟩
  show daysBeforeYear year + (daysOfMonths year (month + 1 - 1) +
    (n - daysBeforeYear year - daysOfMonths year month + 1 - 1)) = n
  rw [Nat.add_sub_cancel, Nat.add_sub_cancel]
  omega

/-! ## Times -/

variable (t u : Time)

/-- A part of a day, or of a smaller unit. -/
theorem unit_lt_iff (b : Nat) {i j r s : Nat} (hr : r < b) (hs : s < b) :
    i * b + r < j * b + s ↔ i < j ∨ i = j ∧ r < s := by
  have hstep : ∀ k, k * b ≤ (k + 1) * b := fun k => Nat.mul_le_mul_right b (Nat.le_succ k)
  apply step_lt_iff (f := fun k => k * b) hstep
  · show i * b + r < (i + 1) * b
    rw [Nat.succ_mul]
    omega
  · show j * b + s < (j + 1) * b
    rw [Nat.succ_mul]
    omega

theorem unit_eq_iff (b : Nat) {i j r s : Nat} (hr : r < b) (hs : s < b) :
    i * b + r = j * b + s ↔ i = j ∧ r = s := by
  have hlt := unit_lt_iff b (i := i) (j := j) hr hs
  have hgt := unit_lt_iff b (i := j) (j := i) hs hr
  omega

/-- **Milliseconds are numbered in the order of their times.** -/
theorem Time.number_lt_iff : t.number < u.number ↔
    t.date.number < u.date.number ∨ t.date.number = u.date.number ∧
      (t.hour < u.hour ∨ t.hour = u.hour ∧ (t.minute < u.minute ∨ t.minute = u.minute ∧
        (t.second < u.second ∨ t.second = u.second ∧ t.millis < u.millis))) := by
  have hhour := t.hour_lt
  have hhour' := u.hour_lt
  unfold number
  rw [unit_lt_iff 1000 t.millis_lt u.millis_lt, unit_lt_iff 60 t.second_lt u.second_lt,
    unit_lt_iff 60 t.minute_lt u.minute_lt, unit_lt_iff 24 hhour hhour',
    unit_eq_iff 60 t.second_lt u.second_lt, unit_eq_iff 60 t.minute_lt u.minute_lt,
    unit_eq_iff 24 hhour hhour']
  grind

/-- **Every number is that of a time.** -/
theorem exists_time (n : Nat) : ∃ t : Time, t.number = n := by
  obtain ⟨d, hd⟩ := exists_date (n / 86400000)
  let t : Time :=
    { date := d
      hour := n / 3600000 % 24
      minute := n / 60000 % 60
      second := n / 1000 % 60
      millis := n % 1000
      hour_lt := Nat.mod_lt _ (by decide)
      minute_lt := Nat.mod_lt _ (by decide)
      second_lt := Nat.mod_lt _ (by decide)
      millis_lt := Nat.mod_lt _ (by decide) }
  refine ⟨t, ?_⟩
  show (((d.number * 24 + n / 3600000 % 24) * 60 + n / 60000 % 60) * 60 + n / 1000 % 60) * 1000 +
    n % 1000 = n
  omega

theorem newYear_number (hmonth : d.month = 1) (hday : d.day = 1) :
    d.number = daysBeforeYear d.year := by
  unfold Date.number
  rw [hmonth, hday, daysOfMonths, Nat.sub_self, Nat.add_zero]

theorem midnight_number (hhour : t.hour = 0) (hminute : t.minute = 0) (hsecond : t.second = 0)
    (hmillis : t.millis = 0) : t.number = t.date.number * 86400000 := by
  unfold Time.number
  omega

/-- A time is in a year when its number is between the beginnings of the year and the next. -/
theorem Time.year_lt_iff (year : Nat) :
    t.number < daysBeforeYear year * 86400000 ↔ t.date.year < year := by
  have hstart : daysBeforeYear t.date.year ≤ t.date.number := Nat.le_add_right _ _
  have hend := t.date.within_year
  have hhour := t.hour_lt
  have hminute := t.minute_lt
  have hsecond := t.second_lt
  have hmillis := t.millis_lt
  have hday : t.number < (t.date.number + 1) * 86400000 ∧ t.date.number * 86400000 ≤ t.number := by
    unfold number
    omega
  constructor
  · intro h
    refine Nat.lt_of_not_le fun hge => ?_
    have hle := step_mono daysBeforeYear_mono hge
    omega
  · intro hlt
    have hle : daysBeforeYear (t.date.year + 1) ≤ daysBeforeYear year :=
      step_mono daysBeforeYear_mono hlt
    unfold Date.number at hday
    omega

end Tombstone.Gregorian
