import Rawmd.Base.Date
import Rawmd.Base.TimeZone

/-!
# `base/TimeZone.cpp`: UTC

`toUtcTime` and `fromUtcTime` through the Julian Day Number.  `%` and `/` of the source round to
zero, a cast to `int` keeps the low 32 bits, and `none` is an overflow.

    0 < day number ≤ 536838867 → toUtcTime t true = gmtimeR t           (toUtcTime_eq)
    and fromUtcTime is its inverse                                       (utc_bijection)
-/

namespace Rawmd

open MachineInt Date

namespace TimeZone

/-- `seconds` is converted to `unsigned`. -/
def fillHMS (seconds : Int) (utc : Tm) : Tm :=
  let seconds := seconds % 2 ^ 32
  let minutes := seconds / 60
  { utc with
    sec := seconds % 60
    min := minutes % 60
    hour := minutes / 60 }

/-- All zero, `tm_zone` is "GMT". -/
def zeroTm : Tm := ⟨0, 0, 0, 0, 0, 0, 0, 0, false, 0, [71, 77, 84]⟩

def toUtcTime (secondsSinceEpoch : Int) (yday : Bool) : Option Tm := do
  let seconds := wrap 32 (secondsSinceEpoch.tmod kSecondsPerDay)
  let days := wrap 32 (secondsSinceEpoch.tdiv kSecondsPerDay)
  let seconds' ← (if seconds < 0 then add 32 seconds kSecondsPerDay else some seconds)
  let days' ← (if seconds < 0 then sub 32 days 1 else some days)
  let date ← add 32 days' kJulianDayOf1970_01_01
  let ymd ← getYearMonthDay date
  let year ← sub 32 ymd.year 1900
  let mon ← sub 32 ymd.month 1
  let wday ← weekDay date
  let utc := { fillHMS seconds' zeroTm with
    year := year, mon := mon, mday := ymd.day, wday := wday }
  if yday then
    let startOfYear ← getJulianDayNumber ymd.year 1 1
    return { utc with yday := ← sub 32 date startOfYear }
  else
    return utc

def fromUtcTime (year month day hour minute seconds : Int) : Option Int := do
  let date ← getJulianDayNumber year month day
  let secondsInDay ← add 32 (← add 32 (← mul 32 hour 3600) (← mul 32 minute 60)) seconds
  let days ← sub 32 date kJulianDayOf1970_01_01
  add 64 (← mul 64 days kSecondsPerDay) secondsInDay

/-- `fromUtcTime(const struct tm&)` -/
def fromUtcTm (utc : Tm) : Option Int := do
  fromUtcTime (← add 32 utc.year 1900) (← add 32 utc.mon 1) utc.mday utc.hour utc.min utc.sec

/-! ## The time of day -/

/-- What the truncated division finds, and its correction for a negative remainder. -/
theorem split_days (t : Int) :
    (0 ≤ t.tmod 86400 ∧ t.tmod 86400 = t % 86400 ∧ t.tdiv 86400 = t / 86400) ∨
    (t.tmod 86400 < 0 ∧ t.tmod 86400 + 86400 = t % 86400 ∧ t.tdiv 86400 - 1 = t / 86400) := by
  rw [Int.tmod_eq_emod, Int.tdiv_eq_ediv]
  have hlow := Int.emod_nonneg t (b := 86400) (by decide)
  have hhigh := Int.emod_lt_of_pos t (b := 86400) (by decide)
  split
  · refine .inl ⟨by omega, by omega, by omega⟩
  · have hsign : Int.sign 86400 = 1 := rfl
    have habs : ((Int.natAbs 86400 : Nat) : Int) = 86400 := rfl
    rw [hsign, habs]
    exact .inr ⟨by omega, by omega, by omega⟩

theorem fillHMS_eq {seconds : Int} (h0 : 0 ≤ seconds) (h1 : seconds < 86400) (utc : Tm) :
    fillHMS seconds utc =
      { utc with
        sec := seconds % 60
        min := seconds / 60 % 60
        hour := seconds / 3600 } := by
  have hwrap : seconds % 2 ^ 32 = seconds := Int.emod_eq_of_lt h0 (by omega)
  have hhour : seconds / 60 / 60 = seconds / 3600 := by omega
  simp only [fillHMS, hwrap, hhour]

theorem weekDay_eq {j : Int} (h0 : 0 < j) (h1 : j ≤ 536838867) :
    weekDay j = some ((j - 2440588 + 4) % 7) := by
  have hadd := add_32 (x := j) (y := 1) (by omega) (by omega)
  have hmod : (j + 1).tmod 7 = (j - 2440588 + 4) % 7 := by
    rw [Int.tmod_eq_emod_of_nonneg (by omega)]
    omega
  simp only [weekDay, hadd, Option.bind_eq_bind, Option.bind_some, hmod, Option.pure_def]

/-! ## The conversions -/

/-- The days whose number is valid for `Date` and small enough for `int` arithmetic. -/
structure DayInRange (days : Int) : Prop where
  pos : 0 < days + kJulianDayOf1970_01_01
  le : days + kJulianDayOf1970_01_01 ≤ 536838867

theorem DayInRange.inRange {days : Int} (h : DayInRange days) : InRange (days + 2440588) := by
  obtain ⟨h0, h1⟩ := h
  rw [kJulianDayOf1970_01_01_eq] at h0 h1
  exact ⟨by omega, by omega⟩

/-- The date of a day of the range and the first of January before it. -/
theorem getYearMonthDay_days {days : Int} (h : DayInRange days) :
    getYearMonthDay (days + 2440588) = some (Civil.ofDays days) ∧
    getJulianDayNumber (Civil.ofDays days).year 1 1 =
      some (Civil.toDays ⟨(Civil.ofDays days).year, 1, 1⟩ + 2440588) := by
  have hrange := h.inRange
  obtain ⟨h0, h1⟩ := h
  rw [kJulianDayOf1970_01_01_eq] at h0 h1
  have hvalid := Civil.ofDays_valid days
  have hdays : days + 2440588 - 2440588 = days := by omega
  refine ⟨by rw [getYearMonthDay_eq hrange, hdays], ?_⟩
  have hjanuary := Civil.toDays_january hvalid
  rw [Civil.toDays_ofDays] at hjanuary
  have hfirst : Civil.Valid ⟨(Civil.ofDays days).year, 1, 1⟩ := by
    refine ⟨Int.le_refl 1, by dsimp only; omega, Int.le_refl 1, ?_⟩
    have := Civil.monthLength_pos (Civil.ofDays days).year 1
    dsimp only
    omega
  exact getJulianDayNumber_eq hfirst ⟨by omega, by omega⟩

/-- The casts lose nothing and the correction gives the day and the second of the day. -/
theorem adjust_ok {t : Int} (h : DayInRange (t / kSecondsPerDay)) :
    (if wrap 32 (t.tmod kSecondsPerDay) < 0
      then add 32 (wrap 32 (t.tmod kSecondsPerDay)) kSecondsPerDay
      else some (wrap 32 (t.tmod kSecondsPerDay))) = some (t % kSecondsPerDay) ∧
    (if wrap 32 (t.tmod kSecondsPerDay) < 0
      then sub 32 (wrap 32 (t.tdiv kSecondsPerDay)) 1
      else some (wrap 32 (t.tdiv kSecondsPerDay))) = some (t / kSecondsPerDay) := by
  have hday : kSecondsPerDay = 86400 := rfl
  obtain ⟨h0, h1⟩ := h
  rw [kJulianDayOf1970_01_01_eq] at h0 h1
  rw [hday] at *
  have hsplit := split_days t
  have hseconds : wrap 32 (t.tmod 86400) = t.tmod 86400 :=
    wrap_of_fits (by decide) ⟨by omega, by omega⟩
  have hdays : wrap 32 (t.tdiv 86400) = t.tdiv 86400 :=
    wrap_of_fits (by decide) ⟨by omega, by omega⟩
  rw [hseconds, hdays]
  rcases hsplit with ⟨hsign, hmod, hdiv⟩ | ⟨hsign, hmod, hdiv⟩
  · rw [if_neg (by omega), if_neg (by omega), hmod, hdiv]
    exact ⟨rfl, rfl⟩
  · rw [if_pos hsign, if_pos hsign, add_32 (by omega) (by omega), sub_32 (by omega) (by omega),
      hmod, hdiv]
    exact ⟨rfl, rfl⟩

theorem toUtcTime_eq {t : Int} (h : DayInRange (t / kSecondsPerDay)) (yday : Bool) :
    toUtcTime t yday = some { gmtimeR t with yday := if yday then (gmtimeR t).yday else 0 } := by
  obtain ⟨hseconds, hdays⟩ := adjust_ok h
  obtain ⟨hymd, hstart⟩ := getYearMonthDay_days h
  have hvalid := Civil.ofDays_valid (t / kSecondsPerDay)
  have hpos := hvalid.month_pos
  have hle := hvalid.month_le
  have hjanuary := Civil.toDays_january hvalid
  have hyears := year_bounds hvalid (by rw [Civil.toDays_ofDays]; exact h.inRange)
  have hrest : 0 ≤ t % kSecondsPerDay ∧ t % kSecondsPerDay < 86400 := by
    unfold kSecondsPerDay
    omega
  obtain ⟨h0, h1⟩ := h
  rw [kJulianDayOf1970_01_01_eq] at h0 h1
  rw [Civil.toDays_ofDays] at hjanuary
  have hdate := add_32 (x := t / kSecondsPerDay) (y := 2440588) (by omega) (by omega)
  have hyear := sub_32 (x := (Civil.ofDays (t / kSecondsPerDay)).year) (y := 1900)
    (by omega) (by omega)
  have hmon := sub_32 (x := (Civil.ofDays (t / kSecondsPerDay)).month) (y := 1)
    (by omega) (by omega)
  have hwday := weekDay_eq h0 h1
  have hyday := sub_32 (x := t / kSecondsPerDay + 2440588)
    (y := Civil.toDays ⟨(Civil.ofDays (t / kSecondsPerDay)).year, 1, 1⟩ + 2440588)
    (by omega) (by omega)
  refine Option.bind_eq_some_iff.2 ⟨_, hseconds, ?_⟩
  refine Option.bind_eq_some_iff.2 ⟨_, hdays, ?_⟩
  rw [kJulianDayOf1970_01_01_eq]
  refine Option.bind_eq_some_iff.2 ⟨_, hdate, ?_⟩
  refine Option.bind_eq_some_iff.2 ⟨_, hymd, ?_⟩
  refine Option.bind_eq_some_iff.2 ⟨_, hyear, ?_⟩
  refine Option.bind_eq_some_iff.2 ⟨_, hmon, ?_⟩
  refine Option.bind_eq_some_iff.2 ⟨_, hwday, ?_⟩
  rw [fillHMS_eq hrest.1 hrest.2]
  have hdiff : t / kSecondsPerDay + 2440588 - 2440588 = t / kSecondsPerDay := by omega
  rw [hdiff]
  cases yday with
  | false => rfl
  | true =>
    refine Option.bind_eq_some_iff.2 ⟨_, hstart, ?_⟩
    refine Option.bind_eq_some_iff.2 ⟨_, hyday, ?_⟩
    rw [Int.add_sub_add_right]
    rfl

structure TimeOfDay (hour minute seconds : Int) : Prop where
  hour : 0 ≤ hour ∧ hour ≤ 23
  minute : 0 ≤ minute ∧ minute ≤ 59
  seconds : 0 ≤ seconds ∧ seconds ≤ 59

theorem fromUtcTime_eq {date : Civil} (hvalid : date.Valid) (h : DayInRange date.toDays)
    {hour minute seconds : Int} (htime : TimeOfDay hour minute seconds) :
    fromUtcTime date.year date.month date.day hour minute seconds =
      some (date.toDays * kSecondsPerDay + (hour * 3600 + minute * 60 + seconds)) := by
  have hdate := getJulianDayNumber_eq hvalid h.inRange
  obtain ⟨h0, h1⟩ := h
  obtain ⟨hhour, hminute, hseconds⟩ := htime
  rw [kJulianDayOf1970_01_01_eq] at h0 h1
  have hdays : sub 32 (date.toDays + 2440588) 2440588 = some date.toDays := by
    rw [sub_32 (by omega) (by omega), Int.add_sub_cancel]
  have hproduct : date.toDays * kSecondsPerDay = date.toDays * 86400 := rfl
  have hmul : mul 64 date.toDays kSecondsPerDay = some (date.toDays * kSecondsPerDay) :=
    checked_of_fits ⟨by omega, by omega⟩
  have hadd : add 64 (date.toDays * kSecondsPerDay) (hour * 3600 + minute * 60 + seconds) =
      some (date.toDays * kSecondsPerDay + (hour * 3600 + minute * 60 + seconds)) :=
    checked_of_fits ⟨by omega, by omega⟩
  refine Option.bind_eq_some_iff.2 ⟨_, hdate, ?_⟩
  refine Option.bind_eq_some_iff.2 ⟨_, mul_32 (by omega) (by omega), ?_⟩
  refine Option.bind_eq_some_iff.2 ⟨_, mul_32 (by omega) (by omega), ?_⟩
  refine Option.bind_eq_some_iff.2 ⟨_, add_32 (by omega) (by omega), ?_⟩
  refine Option.bind_eq_some_iff.2 ⟨_, add_32 (by omega) (by omega), ?_⟩
  rw [kJulianDayOf1970_01_01_eq]
  refine Option.bind_eq_some_iff.2 ⟨_, hdays, ?_⟩
  exact Option.bind_eq_some_iff.2 ⟨_, hmul, hadd⟩

def Tm.date (tm : Tm) : Civil := ⟨tm.year + 1900, tm.mon + 1, tm.mday⟩

theorem gmtimeR_date (t : Int) : Tm.date (gmtimeR t) = Civil.ofDays (t / kSecondsPerDay) := by
  simp only [Tm.date, gmtimeR, Int.sub_add_cancel]

theorem gmtimeR_timeOfDay (t : Int) :
    TimeOfDay (gmtimeR t).hour (gmtimeR t).min (gmtimeR t).sec := by
  constructor <;> simp only [gmtimeR, kSecondsPerDay] <;> omega

/-- The parts of a time of the range put together again. -/
theorem fromUtcTm_gmtimeR {t : Int} (h : DayInRange (t / kSecondsPerDay)) (yday : Int) :
    fromUtcTm { gmtimeR t with yday := yday } = some t := by
  have hvalid := Civil.ofDays_valid (t / kSecondsPerDay)
  have hyears := year_bounds hvalid (by rw [Civil.toDays_ofDays]; exact h.inRange)
  have hpos := hvalid.month_pos
  have hle := hvalid.month_le
  have hdays := Civil.toDays_ofDays (t / kSecondsPerDay)
  have hfrom := fromUtcTime_eq hvalid (by rw [hdays]; exact h) (gmtimeR_timeOfDay t)
  have hyear : add 32 (gmtimeR t).year 1900 = some (Civil.ofDays (t / kSecondsPerDay)).year := by
    simp only [gmtimeR]
    rw [add_32 (by omega) (by omega), Int.sub_add_cancel]
  have hmon : add 32 (gmtimeR t).mon 1 = some (Civil.ofDays (t / kSecondsPerDay)).month := by
    simp only [gmtimeR]
    rw [add_32 (by omega) (by omega), Int.sub_add_cancel]
  refine Option.bind_eq_some_iff.2 ⟨_, hyear, ?_⟩
  refine Option.bind_eq_some_iff.2 ⟨_, hmon, ?_⟩
  refine hfrom.trans (congrArg some ?_)
  rw [hdays]
  simp only [gmtimeR, kSecondsPerDay]
  omega

/-- The reading of a date and a time of day. -/
theorem gmtimeR_toDays {date : Civil} (hvalid : date.Valid) {hour minute seconds : Int}
    (htime : TimeOfDay hour minute seconds) :
    let t := date.toDays * kSecondsPerDay + (hour * 3600 + minute * 60 + seconds)
    t / kSecondsPerDay = date.toDays ∧ Tm.date (gmtimeR t) = date ∧ (gmtimeR t).hour = hour ∧
      (gmtimeR t).min = minute ∧ (gmtimeR t).sec = seconds := by
  intro t
  obtain ⟨hhour, hminute, hseconds⟩ := htime
  have ht : t = date.toDays * 86400 + (hour * 3600 + minute * 60 + seconds) := rfl
  have hdays : t / kSecondsPerDay = date.toDays := by
    unfold kSecondsPerDay
    omega
  refine ⟨hdays, ?_, ?_, ?_, ?_⟩
  · rw [gmtimeR_date, hdays, Civil.ofDays_toDays hvalid]
  all_goals
    simp only [gmtimeR, kSecondsPerDay]
    omega

theorem utc_bijection :
    (∀ t, DayInRange (t / kSecondsPerDay) → ∃ tm, toUtcTime t true = some tm ∧
      TimeOfDay tm.hour tm.min tm.sec ∧ (Tm.date tm).Valid ∧
      tm.wday = (Tm.date tm).weekday ∧ 0 ≤ tm.wday ∧ tm.wday ≤ 6 ∧
      tm.yday = (Tm.date tm).dayOfYear ∧
      ∀ yday, ∃ utc, toUtcTime t yday = some utc ∧ fromUtcTm utc = some t) ∧
    ∀ (date : Civil) (hour minute seconds : Int), date.Valid → DayInRange date.toDays →
      TimeOfDay hour minute seconds →
      ∃ t, fromUtcTime date.year date.month date.day hour minute seconds = some t ∧
        ∀ yday, ∃ tm, toUtcTime t yday = some tm ∧ Tm.date tm = date ∧
          tm.hour = hour ∧ tm.min = minute ∧ tm.sec = seconds := by
  refine ⟨fun t h => ?_, fun date hour minute seconds hvalid h htime => ?_⟩
  · have hdate := gmtimeR_date t
    have hvalid := Civil.ofDays_valid (t / kSecondsPerDay)
    have hdays := Civil.toDays_ofDays (t / kSecondsPerDay)
    refine ⟨gmtimeR t, toUtcTime_eq h true, gmtimeR_timeOfDay t, ?_, ?_, ?_, ?_, ?_, ?_⟩
    · rw [hdate]
      exact hvalid
    · rw [hdate, Civil.weekday, hdays]
      rfl
    · exact Int.emod_nonneg _ (by decide)
    · exact Int.le_of_lt_add_one (Int.emod_lt_of_pos _ (by decide))
    · rw [hdate, Civil.dayOfYear_eq hvalid, hdays]
      rfl
    · intro yday
      exact ⟨_, toUtcTime_eq h yday, fromUtcTm_gmtimeR h _⟩
  · obtain ⟨hdays, hdate, hhour, hmin, hsec⟩ := gmtimeR_toDays hvalid htime
    refine ⟨_, fromUtcTime_eq hvalid h htime, fun yday => ?_⟩
    exact ⟨_, toUtcTime_eq (by rw [hdays]; exact h) yday, hdate, hhour, hmin, hsec⟩

/-- One second before 1970, a Wednesday. -/
theorem utc_bijection_before_epoch :
    DayInRange (-1 / kSecondsPerDay) ∧ ∃ tm, toUtcTime (-1) true = some tm ∧
      fromUtcTm tm = some (-1) ∧ tm.wday = 3 := by
  have hrange : DayInRange (-1 / kSecondsPerDay) := ⟨by decide, by decide⟩
  obtain ⟨tm, htm, -, -, -, -, -, -, hback⟩ := utc_bijection.1 (-1) hrange
  obtain ⟨utc, hutc, hfrom⟩ := hback true
  cases htm.symm.trans hutc
  have hwday : (toUtcTime (-1) true).map (·.wday) = some 3 := by decide
  rw [htm] at hwday
  exact ⟨hrange, tm, htm, hfrom, Option.some.inj hwday⟩

end TimeZone

end Rawmd
