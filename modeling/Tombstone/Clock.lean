import Tombstone.FixedWidth
import Tombstone.Gregorian

/- The wire time stamps (`clock.cpp`). Signed 64-bit integers are integers, with the division
   that rounds towards zero; unsigned ones are natural numbers. None of them overflows at any
   64-bit count. -/
namespace Tombstone.Clock
open FixedWidth Gregorian

def msPerDay : Int := 86400000

structure CivilDate where
  year : Int
  month : Nat
  day : Nat
  deriving DecidableEq, Repr

/-- `yoe`: the year of the era that the day `doe` of the era is in. -/
def yearOfEra (doe : Nat) : Nat := (doe - doe / 1460 + doe / 36524 - doe / 146096) / 365

/-- `civil_from_days`, for the days since 1970-01-01. -/
def civilFromDays (z : Int) : CivilDate :=
  let z := z + 719468
  let era := (if z ≥ 0 then z else z - 146096).tdiv 146097
  let doe := (z - era * 146097).toNat
  let yoe := yearOfEra doe
  let y := (yoe : Int) + era * 400
  let doy := doe - (365 * yoe + yoe / 4 - yoe / 100)
  let mp := (5 * doy + 2) / 153
  let d := doy - (153 * mp + 2) / 5 + 1
  let m := if mp < 10 then mp + 3 else mp - 9
  { year := y + (if m ≤ 2 then 1 else 0), month := m, day := d }

/-- `%0*lld`: the sign counts towards the width. -/
def zeroPadded (width : Nat) (n : Int) : Bytes :=
  if n < 0 then ch '-' :: padded (width - 1) n.natAbs else padded width n.natAbs

/-- `format_iso8601_utc_ms`. -/
def formatIso8601UtcMs (msSinceEpoch : Int) : Bytes :=
  let days := msSinceEpoch.tdiv msPerDay
  let msOfDay := msSinceEpoch.tmod msPerDay
  let (days, msOfDay) := if msOfDay < 0 then (days - 1, msOfDay + msPerDay) else (days, msOfDay)
  let date := civilFromDays days
  let hour := msOfDay.tdiv 3600000
  let minute := (msOfDay.tdiv 60000).tmod 60
  let second := (msOfDay.tdiv 1000).tmod 60
  let millis := msOfDay.tmod 1000
  zeroPadded 4 date.year ++ ch '-' :: (zeroPadded 2 date.month ++ ch '-' :: (zeroPadded 2 date.day ++
    ch 'T' :: (zeroPadded 2 hour ++ ch ':' :: (zeroPadded 2 minute ++ ch ':' :: (zeroPadded 2 second ++
      ch '.' :: (zeroPadded 3 millis ++ [ch 'Z']))))))

/-! ## The calendar's side -/

/-- 1970-01-01T00:00:00.000Z. -/
def epoch : Time where
  date := ⟨1970, 1, 1, by decide, by decide, by decide, by decide⟩
  hour := 0
  minute := 0
  second := 0
  millis := 0
  hour_lt := by decide
  minute_lt := by decide
  second_lt := by decide
  millis_lt := by decide

/-- The milliseconds since the epoch. -/
def count (t : Time) : Int := (t.number : Int) - epoch.number

/-- The first millisecond of a year. -/
def yearStart (year : Nat) : Int := ((daysBeforeYear year * 86400000 : Nat) : Int) - epoch.number

/-- The ISO 8601 text of a time. -/
def isoText (t : Time) : Bytes :=
  digits 4 t.date.year ++ ch '-' :: (digits 2 t.date.month ++ ch '-' :: (digits 2 t.date.day ++
    ch 'T' :: (digits 2 t.hour ++ ch ':' :: (digits 2 t.minute ++ ch ':' :: (digits 2 t.second ++
      ch '.' :: (digits 3 t.millis ++ [ch 'Z']))))))

/-- A reader of such texts: the milliseconds since the epoch of the time they name. -/
def parseIso8601 (input : Bytes) : Option Int := do
  let (year, rest) ← readNumber 4 (ch '-') input
  let (month, rest) ← readNumber 2 (ch '-') rest
  let (day, rest) ← readNumber 2 (ch 'T') rest
  let (hour, rest) ← readNumber 2 (ch ':') rest
  let (minute, rest) ← readNumber 2 (ch ':') rest
  let (second, rest) ← readNumber 2 (ch '.') rest
  let (millis, rest) ← readNumber 3 (ch 'Z') rest
  if h : (1 ≤ month ∧ month ≤ 12) ∧ (1 ≤ day ∧ day ≤ monthLength year month) ∧
      hour < 24 ∧ minute < 60 ∧ second < 60 ∧ millis < 1000 ∧ rest = [] then
    let date : Date := ⟨year, month, day, h.1.1, h.1.2, h.2.1.1, h.2.1.2⟩
    some (count ⟨date, hour, minute, second, millis, h.2.2.1, h.2.2.2.1, h.2.2.2.2.1, h.2.2.2.2.2.1⟩)
  else none

/-! ## Years of an era -/

theorem yearOfEra_step (doe : Nat) : yearOfEra doe ≤ yearOfEra (doe + 1) := by
  unfold yearOfEra
  omega

/-- The first day of a year of the era, which begins in March. -/
def yearBegin (yoe : Nat) : Nat := 365 * yoe + yoe / 4 - yoe / 100

/-- It is right on the first and the last day of every year. -/
theorem yearOfEra_ends : ∀ yoe < 400, yearOfEra (yearBegin yoe) = yoe ∧
    yearOfEra (yearBegin yoe + if isLeap (yoe + 1) then 365 else 364) = yoe := by
  decide +kernel

theorem yearOfEra_eq {yoe doy : Nat} (hyoe : yoe < 400)
    (hdoy : doy ≤ if isLeap (yoe + 1) then 365 else 364) :
    yearOfEra (yearBegin yoe + doy) = yoe := by
  obtain ⟨hfirst, hlast⟩ := yearOfEra_ends yoe hyoe
  have hlow : yearOfEra (yearBegin yoe) ≤ yearOfEra (yearBegin yoe + doy) :=
    step_mono yearOfEra_step (Nat.le_add_right _ _)
  have hhigh : yearOfEra (yearBegin yoe + doy) ≤
      yearOfEra (yearBegin yoe + if isLeap (yoe + 1) then 365 else 364) :=
    step_mono yearOfEra_step (by omega)
  omega

theorem yearBegin_add (yoe : Nat) : yearBegin yoe + yoe / 100 = 365 * yoe + yoe / 4 := by
  unfold yearBegin
  omega

theorem day_lt_era {yoe doy : Nat} (hyoe : yoe < 400)
    (hdoy : doy ≤ if isLeap (yoe + 1) then 365 else 364) : yearBegin yoe + doy < 146097 := by
  have hbegin := yearBegin_add yoe
  by_cases hlast : yoe = 399
  · have hleap : isLeap (yoe + 1) = true := by
      rw [hlast]
      decide
    rw [hleap, if_pos rfl] at hdoy
    omega
  · have hless : doy ≤ 365 := by
      split at hdoy
      · exact hdoy
      · omega
    omega

theorem era_eq (era : Int) {doe : Nat} (h : doe < 146097) :
    (if era * 146097 + doe ≥ 0 then era * 146097 + doe
      else era * 146097 + doe - 146096).tdiv 146097 = era := by
  split
  · next hpos =>
    rw [Int.tdiv_eq_ediv_of_nonneg hpos]
    omega
  · next hneg =>
    have hnegated : era * 146097 + doe - 146096 = -(146096 - (era * 146097 + doe)) := by omega
    rw [hnegated, Int.neg_tdiv, Int.tdiv_eq_ediv_of_nonneg (by omega)]
    omega

/-- **The algorithm, from the parts of a day number**: an era, a year of it, a month from March
on, and a day. -/
theorem civilFromDays_parts (era : Int) {yoe mp k : Nat} (hyoe : yoe < 400) (hmp : mp < 12)
    (hk : (153 * mp + 2) / 5 + k < (153 * (mp + 1) + 2) / 5)
    (hdoy : (153 * mp + 2) / 5 + k ≤ if isLeap (yoe + 1) then 365 else 364) :
    civilFromDays (era * 146097 + ((yearBegin yoe + ((153 * mp + 2) / 5 + k) : Nat) : Int) - 719468) =
      { year := (yoe : Int) + era * 400 + (if mp < 10 then 0 else 1)
        month := if mp < 10 then mp + 3 else mp - 9
        day := k + 1 } := by
  have hdoe := day_lt_era hyoe hdoy
  generalize hdoydef : (153 * mp + 2) / 5 + k = doy at *
  have hmonth : (5 * doy + 2) / 153 = mp := by omega
  have hyear := yearOfEra_eq hyoe hdoy
  have hera := era_eq era hdoe
  have hmarch : ((if mp < 10 then mp + 3 else mp - 9) ≤ 2) ↔ ¬ mp < 10 := by
    split <;> omega
  generalize hdoedef : yearBegin yoe + doy = doe at *
  have hstart : doe - (365 * yoe + yoe / 4 - yoe / 100) = doy := by
    have hbegin : yearBegin yoe = 365 * yoe + yoe / 4 - yoe / 100 := rfl
    omega
  have hback : (era * 146097 + (doe : Int) - era * 146097).toNat = doe := by omega
  unfold civilFromDays
  simp only [Int.sub_add_cancel, hera, hback, hyear, hstart, hmonth, hmarch]
  congr 1
  · by_cases hmp' : mp < 10 <;> simp [hmp']
  · omega

/-! ## Dates by their parts -/

theorem months_march (year mp : Nat) (h : mp < 10) :
    daysOfMonths year (mp + 2) =
        59 + (if isLeap year then 1 else 0) + (153 * mp + 2) / 5 ∧
      (153 * mp + 2) / 5 + monthLength year (mp + 3) = (153 * (mp + 1) + 2) / 5 := by
  have hmp : mp = 0 ∨ mp = 1 ∨ mp = 2 ∨ mp = 3 ∨ mp = 4 ∨ mp = 5 ∨ mp = 6 ∨ mp = 7 ∨ mp = 8 ∨
      mp = 9 := by omega
  rcases hmp with rfl | rfl | rfl | rfl | rfl | rfl | rfl | rfl | rfl | rfl <;>
    cases hleap : isLeap year <;> simp [daysOfMonths, monthLength, hleap]

theorem daysBeforeMarch (year : Nat) :
    daysBeforeYear year + (if isLeap year then 1 else 0) + year / 100 =
      365 * year + year / 4 + year / 400 + 1 := by
  have hyears := daysBeforeYear_eq year
  have hcount := leap_count year
  rw [div_up year (show 0 < 100 by decide), div_up year (show 0 < 4 by decide),
    div_up year (show 0 < 400 by decide)] at hyears
  omega

theorem year_in_era (year : Nat) : year / 4 = 100 * (year / 400) + year % 400 / 4 ∧
    year / 100 = 4 * (year / 400) + year % 400 / 100 := by
  omega

theorem number_march (d : Date) (h : 2 < d.month) :
    ((d.number : Nat) : Int) - 60 = ((d.year / 400 : Nat) : Int) * 146097 +
      ((yearBegin (d.year % 400) + ((153 * (d.month - 3) + 2) / 5 + (d.day - 1)) : Nat) : Int) := by
  obtain ⟨hmonths, -⟩ := months_march d.year (d.month - 3) (by have := d.month_le; omega)
  have hyears := daysBeforeMarch d.year
  have hbegin := yearBegin_add (d.year % 400)
  obtain ⟨hfour, hhundred⟩ := year_in_era d.year
  have hera := Nat.div_add_mod d.year 400
  rw [show d.month - 3 + 2 = d.month - 1 by omega] at hmonths
  unfold Date.number
  rw [hmonths]
  generalize (if isLeap d.year then 1 else 0) = leap at hyears ⊢
  omega

/-- January and February are in the year, and the era, before. -/
theorem number_winter (d : Date) (h : d.month ≤ 2) :
    ((d.number : Nat) : Int) - 60 = (((d.year + 399) / 400 : Nat) - 1 : Int) * 146097 +
      ((yearBegin ((d.year + 399) % 400) + ((153 * (d.month + 9) + 2) / 5 + (d.day - 1)) : Nat) : Int) := by
  have hpos := d.month_pos
  have hyears := daysBeforeYear_eq d.year
  have hbegin := yearBegin_add ((d.year + 399) % 400)
  have hmonth : d.month = 1 ∨ d.month = 2 := by omega
  unfold Date.number
  rcases hmonth with hmonth | hmonth
  · rw [hmonth, daysOfMonths]
    omega
  · rw [hmonth, daysOfMonths, daysOfMonths, monthLength]
    · omega
    all_goals simp

theorem isLeap_before (year : Nat) : isLeap ((year + 399) % 400 + 1) = isLeap year := by
  rw [Bool.eq_iff_iff, isLeap_iff, isLeap_iff]
  omega

/-- **`civil_from_days` inverts the calendar.** -/
theorem civilFromDays_number (d : Date) :
    civilFromDays ((d.number : Int) - 719528) = { year := d.year, month := d.month, day := d.day } := by
  have hpos := d.day_pos
  have hle := d.day_le
  have hmonth := d.month_le
  have hfrom := d.month_pos
  have hshift : (d.number : Int) - 719528 = (d.number : Int) - 60 - 719468 := by omega
  rw [hshift]
  by_cases hmarch : 2 < d.month
  · obtain ⟨-, hlength⟩ := months_march d.year (d.month - 3) (by omega)
    rw [show d.month - 3 + 3 = d.month by omega] at hlength
    rw [number_march d hmarch, civilFromDays_parts _ (Nat.mod_lt _ (by decide)) (by omega)
      (by omega) (by split <;> omega), if_pos (by omega), if_pos (by omega)]
    congr 1 <;> omega
  · have hwinter : d.month ≤ 2 := Nat.not_lt.mp hmarch
    have hcases : d.month = 1 ∨ d.month = 2 := by omega
    have hday : d.day ≤ if d.month = 1 then 31 else if isLeap d.year then 29 else 28 := by
      rcases hcases with h | h <;> simpa [h, monthLength] using hle
    rw [number_winter d hwinter, civilFromDays_parts _ (Nat.mod_lt _ (by decide)) (by omega)
      (by split at hday <;> [skip; split at hday] <;> omega)
      (by rw [isLeap_before]; split at hday <;> [skip; split at hday] <;> split <;> omega),
      if_neg (by omega), if_neg (by omega)]
    congr 1 <;> omega

/-! ## The text of a time -/

variable (t u : Time)

theorem epoch_number : epoch.number = 719528 * 86400000 := by
  have hyears := daysBeforeYear_eq 1970
  have hyear : epoch.date.year = 1970 := rfl
  have hdate := newYear_number epoch.date rfl rfl
  have hnumber := midnight_number epoch rfl rfl rfl rfl
  rw [hnumber, hdate, hyear]
  generalize daysBeforeYear 1970 = days at hyears ⊢
  omega

/-- The count in days and the rest of the day, with the borrow of negative counts. -/
theorem day_split (q : Int) {r : Nat} (hr : r < 86400000) :
    (if (q * msPerDay + r).tmod msPerDay < 0 then
        ((q * msPerDay + r).tdiv msPerDay - 1, (q * msPerDay + r).tmod msPerDay + msPerDay)
      else ((q * msPerDay + r).tdiv msPerDay, (q * msPerDay + r).tmod msPerDay)) = (q, (r : Int)) := by
  unfold msPerDay
  by_cases hpos : 0 ≤ q * 86400000 + (r : Int)
  · rw [Int.tdiv_eq_ediv_of_nonneg hpos, Int.tmod_eq_emod_of_nonneg hpos, if_neg (by omega)]
    ext <;> dsimp only <;> omega
  · have hneg : q * 86400000 + (r : Int) = -(-(q * 86400000 + (r : Int))) := by omega
    have hpos' : 0 ≤ -(q * 86400000 + (r : Int)) := by omega
    rw [hneg, Int.neg_tdiv, Int.neg_tmod, Int.tdiv_eq_ediv_of_nonneg hpos',
      Int.tmod_eq_emod_of_nonneg hpos']
    split <;> ext <;> dsimp only <;> omega

theorem zeroPadded_eq (k n : Nat) (h : n < 10 ^ (k + 1)) :
    zeroPadded (k + 1) (n : Int) = digits (k + 1) n := by
  rw [zeroPadded, if_neg (by omega), Int.natAbs_natCast, padded_eq k n h]

theorem day_le (d : Date) : d.day ≤ 31 := by
  have hle := d.day_le
  have hmonth : monthLength d.year d.month ≤ 31 := by
    unfold monthLength
    split
    · split <;> decide
    all_goals decide
  omega

theorem count_eq (t : Time) : count t = (t.number : Int) - 719528 * 86400000 := by
  rw [count, epoch_number]
  omega

/-- **The text is that of the very instant.** -/
theorem format_count (h : t.date.year ≤ 9999) : formatIso8601UtcMs (count t) = isoText t := by
  have hhour := t.hour_lt
  have hminute := t.minute_lt
  have hsecond := t.second_lt
  have hmillis := t.millis_lt
  have hmonth := t.date.month_le
  have hday := day_le t.date
  generalize hrest : ((t.hour * 60 + t.minute) * 60 + t.second) * 1000 + t.millis = r
  have hr : r < 86400000 := by omega
  have hcount : count t = ((t.date.number : Int) - 719528) * msPerDay + (r : Nat) := by
    rw [count_eq]
    unfold msPerDay Time.number
    omega
  have hsplit := day_split ((t.date.number : Int) - 719528) hr
  have hr0 : (0 : Int) ≤ r := by omega
  have hhours : (r : Int).tdiv 3600000 = (t.hour : Nat) := by
    rw [Int.tdiv_eq_ediv_of_nonneg hr0]
    omega
  have hminutes : ((r : Int).tdiv 60000).tmod 60 = (t.minute : Nat) := by
    rw [Int.tdiv_eq_ediv_of_nonneg hr0, Int.tmod_eq_emod_of_nonneg (by omega)]
    omega
  have hseconds : ((r : Int).tdiv 1000).tmod 60 = (t.second : Nat) := by
    rw [Int.tdiv_eq_ediv_of_nonneg hr0, Int.tmod_eq_emod_of_nonneg (by omega)]
    omega
  have hmilli : (r : Int).tmod 1000 = (t.millis : Nat) := by
    rw [Int.tmod_eq_emod_of_nonneg hr0]
    omega
  unfold formatIso8601UtcMs
  rw [← hcount] at hsplit
  simp only [hsplit, civilFromDays_number, hhours, hminutes, hseconds, hmilli]
  rw [zeroPadded_eq 3 t.date.year (by omega), zeroPadded_eq 1 t.date.month (by omega),
    zeroPadded_eq 1 t.date.day (by omega), zeroPadded_eq 1 t.hour (by omega),
    zeroPadded_eq 1 t.minute (by omega), zeroPadded_eq 1 t.second (by omega),
    zeroPadded_eq 2 t.millis (by omega), isoText]

theorem isoText_length : (isoText t).length = 24 := by
  simp [isoText]

/-- **It is read back as the instant.** -/
theorem parse_isoText (h : t.date.year ≤ 9999) : parseIso8601 (isoText t) = some (count t) := by
  have hhour := t.hour_lt
  have hminute := t.minute_lt
  have hsecond := t.second_lt
  have hmillis := t.millis_lt
  have hmonth := t.date.month_le
  have hday := day_le t.date
  unfold parseIso8601 isoText
  simp only [readNumber_digits 4 t.date.year (by omega), readNumber_digits 2 t.date.month (by omega),
    readNumber_digits 2 t.date.day (by omega), readNumber_digits 2 t.hour (by omega),
    readNumber_digits 2 t.minute (by omega), readNumber_digits 2 t.second (by omega),
    readNumber_digits 3 t.millis (by omega), Option.bind_eq_bind, Option.bind_some]
  exact dif_pos ⟨⟨t.date.month_pos, hmonth⟩, ⟨t.date.day_pos, t.date.day_le⟩, hhour, hminute,
    hsecond, hmillis, trivial⟩

/-- **The texts compare as the instants.** -/
theorem isoText_lt_iff (ht : t.date.year ≤ 9999) (hu : u.date.year ≤ 9999) :
    isoText t < isoText u ↔ count t < count u := by
  have htmonth := t.date.month_le
  have humonth := u.date.month_le
  have htday := day_le t.date
  have huday := day_le u.date
  have hthour := t.hour_lt
  have huhour := u.hour_lt
  have htminute := t.minute_lt
  have huminute := u.minute_lt
  have htsecond := t.second_lt
  have husecond := u.second_lt
  have htmillis := t.millis_lt
  have humillis := u.millis_lt
  have hirrefl : ¬ [ch 'Z'] < [ch 'Z'] := List.lt_irrefl _
  have hcount : count t < count u ↔ t.number < u.number := by
    unfold count
    omega
  rw [hcount, Time.number_lt_iff, Date.number_lt_iff, Date.number_eq_iff]
  unfold isoText
  rw [field_lt_iff 4 (by omega) (by omega), field_lt_iff 2 (by omega) (by omega),
    field_lt_iff 2 (by omega) (by omega), field_lt_iff 2 (by omega) (by omega),
    field_lt_iff 2 (by omega) (by omega), field_lt_iff 2 (by omega) (by omega),
    digits_lt_iff 3 (by omega) (by omega)]
  simp only [hirrefl, and_false, or_false]
  omega

theorem exists_count {ms : Int} (h : yearStart 0 ≤ ms) (hend : ms < yearStart 10000) :
    ∃ t : Time, count t = ms ∧ t.date.year ≤ 9999 := by
  unfold yearStart at h hend
  rw [daysBeforeYear, Nat.zero_mul] at h
  obtain ⟨t, ht⟩ := exists_time (ms + epoch.number).toNat
  have hnumber : (t.number : Int) = ms + epoch.number := by omega
  have hyear : t.date.year < 10000 := (t.year_lt_iff 10000).mp (by omega)
  refine ⟨t, ?_, by omega⟩
  rw [count, hnumber]
  omega

/-- **A time stamp is the text of its instant**: of a time of the calendar with the very count, in 24
characters; it is read back as the count, and two of them compare as their counts. -/
theorem formatIso8601UtcMs_gregorian (a b : Int) (ha : yearStart 0 ≤ a ∧ a < yearStart 10000)
    (hb : yearStart 0 ≤ b ∧ b < yearStart 10000) :
    (∃ t : Time, count t = a ∧ formatIso8601UtcMs a = isoText t) ∧
      (formatIso8601UtcMs a).length = 24 ∧
      parseIso8601 (formatIso8601UtcMs a) = some a ∧
      (formatIso8601UtcMs a < formatIso8601UtcMs b ↔ a < b) := by
  obtain ⟨t, rfl, ht⟩ := exists_count ha.1 ha.2
  obtain ⟨u, rfl, hu⟩ := exists_count hb.1 hb.2
  rw [format_count t ht, format_count u hu]
  exact ⟨⟨t, rfl, rfl⟩, isoText_length t, parse_isoText t ht, isoText_lt_iff t u ht hu⟩

theorem yearStart_eq (year : Nat) : yearStart year + 719528 * 86400000 =
    (365 * year + (year + 3) / 4 + (year + 399) / 400 - (year + 99) / 100 : Nat) * 86400000 := by
  have hyears := daysBeforeYear_eq year
  unfold yearStart
  rw [epoch_number]
  omega

/-- The last millisecond of a February of 28 days, before the epoch. -/
theorem formatIso8601UtcMs_gregorian_february :
    let a : Int := -2203891200001
    let b : Int := 1700000000123
    parseIso8601 (formatIso8601UtcMs a) = some a ∧ formatIso8601UtcMs a < formatIso8601UtcMs b := by
  have hfirst := yearStart_eq 0
  have hend := yearStart_eq 10000
  obtain ⟨-, -, hparse, hless⟩ :=
    formatIso8601UtcMs_gregorian (-2203891200001) 1700000000123 (by omega) (by omega)
  exact ⟨hparse, hless.mpr (by decide)⟩

example : formatIso8601UtcMs 1709164800000 = lit "2024-02-29T00:00:00.000Z" := by decide
example : formatIso8601UtcMs (-2203891200001) = lit "1900-02-28T23:59:59.999Z" := by decide

end Tombstone.Clock
