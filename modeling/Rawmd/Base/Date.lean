import Rawmd.Lib.Calendar
import Rawmd.Lib.MachineInt

/-!
# `base/Date.cpp`

The two conversions between a date and its Julian Day Number, in `int` arithmetic: `none` is an
overflow.  `/` of the source rounds to zero.

    0 ≤ j + 32044 ≤ 536870911 → getYearMonthDay j is the date of day j       (getYearMonthDay_eq)
    and on the valid dates of that range getJulianDayNumber is its inverse    (date_gregorian)
-/

namespace Rawmd

open MachineInt

namespace Date

abbrev YearMonthDay := Civil

def getJulianDayNumber (year month day : Int) : Option Int := do
  let a := (← sub 32 14 month).tdiv 12
  let y ← sub 32 (← add 32 year 4800) a
  let m ← sub 32 (← add 32 month (← mul 32 12 a)) 3
  let sum ← add 32 day ((← add 32 (← mul 32 153 m) 2).tdiv 5)
  let sum ← add 32 sum (← mul 32 y 365)
  let sum ← add 32 sum (y.tdiv 4)
  let sum ← sub 32 sum (y.tdiv 100)
  let sum ← add 32 sum (y.tdiv 400)
  sub 32 sum 32045

def getYearMonthDay (julianDayNumber : Int) : Option YearMonthDay := do
  let a ← add 32 julianDayNumber 32044
  let b := (← add 32 (← mul 32 4 a) 3).tdiv 146097
  let c ← sub 32 a ((← mul 32 b 146097).tdiv 4)
  let d := (← add 32 (← mul 32 4 c) 3).tdiv 1461
  let e ← sub 32 c ((← mul 32 1461 d).tdiv 4)
  let m := (← add 32 (← mul 32 5 e) 2).tdiv 153
  let day ← add 32 (← sub 32 e ((← add 32 (← mul 32 153 m) 2).tdiv 5)) 1
  let month ← sub 32 (← add 32 m 3) (← mul 32 12 (m.tdiv 10))
  let year ← add 32 (← sub 32 (← add 32 (← mul 32 b 100) d) 4800) (m.tdiv 10)
  return ⟨year, month, day⟩

def kJulianDayOf1970_01_01 : Int := (getJulianDayNumber 1970 1 1).getD 0

theorem kJulianDayOf1970_01_01_eq : kJulianDayOf1970_01_01 = 2440588 := by
  decide

/-- `Date::weekDay`, 0 is a Sunday. -/
def weekDay (julianDayNumber : Int) : Option Int := do
  return (← add 32 julianDayNumber 1).tmod 7

/-- The numbers that the conversions can hold in an `int`. -/
structure InRange (j : Int) : Prop where
  nonneg : 0 ≤ j + 32044
  le : j + 32044 ≤ 536870911

theorem getYearMonthDay_ok {j a b c d e m : Int} (h : InRange j) (ha : a = j + 32044)
    (hb : b = (4 * a + 3) / 146097) (hc : c = a - b * 146097 / 4) (hd : d = (4 * c + 3) / 1461)
    (he : e = c - 1461 * d / 4) (hm : m = (5 * e + 2) / 153) :
    getYearMonthDay j =
      some ⟨b * 100 + d - 4800 + m / 10, m + 3 - 12 * (m / 10), e - (153 * m + 2) / 5 + 1⟩ := by
  obtain ⟨h0, h1⟩ := h
  have hb0 : 0 ≤ b ∧ b ≤ 14699 := by omega
  have hc0 : 0 ≤ c ∧ c ≤ 36524 := by omega
  have hd0 : 0 ≤ d ∧ d ≤ 99 := by omega
  have he0 : 0 ≤ e ∧ e ≤ 365 := by omega
  have hm0 : 0 ≤ m ∧ m ≤ 11 := by omega
  have hten : 0 ≤ m / 10 ∧ m / 10 ≤ 1 := by omega
  -- no operation leaves the `int`s and no division rounds a negative number
  have hja : add 32 j 32044 = some a := by rw [add_32 (by omega) (by omega), ha]
  have ha4 : mul 32 4 a = some (4 * a) := mul_32 (by omega) (by omega)
  have ha3 : add 32 (4 * a) 3 = some (4 * a + 3) := add_32 (by omega) (by omega)
  have hab : (4 * a + 3).tdiv 146097 = b := by rw [Int.tdiv_eq_ediv_of_nonneg (by omega), hb]
  have hbdays : mul 32 b 146097 = some (b * 146097) := mul_32 (by omega) (by omega)
  have hb4 : (b * 146097).tdiv 4 = b * 146097 / 4 := Int.tdiv_eq_ediv_of_nonneg (by omega)
  have hac : sub 32 a (b * 146097 / 4) = some c := by rw [sub_32 (by omega) (by omega), hc]
  have hc4 : mul 32 4 c = some (4 * c) := mul_32 (by omega) (by omega)
  have hc3 : add 32 (4 * c) 3 = some (4 * c + 3) := add_32 (by omega) (by omega)
  have hcd : (4 * c + 3).tdiv 1461 = d := by rw [Int.tdiv_eq_ediv_of_nonneg (by omega), hd]
  have hddays : mul 32 1461 d = some (1461 * d) := mul_32 (by omega) (by omega)
  have hd4 : (1461 * d).tdiv 4 = 1461 * d / 4 := Int.tdiv_eq_ediv_of_nonneg (by omega)
  have hce : sub 32 c (1461 * d / 4) = some e := by rw [sub_32 (by omega) (by omega), he]
  have he5 : mul 32 5 e = some (5 * e) := mul_32 (by omega) (by omega)
  have he2 : add 32 (5 * e) 2 = some (5 * e + 2) := add_32 (by omega) (by omega)
  have hem : (5 * e + 2).tdiv 153 = m := by rw [Int.tdiv_eq_ediv_of_nonneg (by omega), hm]
  have hmdays : mul 32 153 m = some (153 * m) := mul_32 (by omega) (by omega)
  have hm2 : add 32 (153 * m) 2 = some (153 * m + 2) := add_32 (by omega) (by omega)
  have hm5 : (153 * m + 2).tdiv 5 = (153 * m + 2) / 5 := Int.tdiv_eq_ediv_of_nonneg (by omega)
  have hm10 : m.tdiv 10 = m / 10 := Int.tdiv_eq_ediv_of_nonneg (by omega)
  have hday := sub_32 (x := e) (y := (153 * m + 2) / 5) (by omega) (by omega)
  have hday1 := add_32 (x := e - (153 * m + 2) / 5) (y := 1) (by omega) (by omega)
  have hm3 := add_32 (x := m) (y := 3) (by omega) (by omega)
  have hm12 := mul_32 (x := 12) (y := m / 10) (by omega) (by omega)
  have hmonth := sub_32 (x := m + 3) (y := 12 * (m / 10)) (by omega) (by omega)
  have hb100 := mul_32 (x := b) (y := 100) (by omega) (by omega)
  have hbd := add_32 (x := b * 100) (y := d) (by omega) (by omega)
  have hbd4800 := sub_32 (x := b * 100 + d) (y := 4800) (by omega) (by omega)
  have hyear := add_32 (x := b * 100 + d - 4800) (y := m / 10) (by omega) (by omega)
  refine Option.bind_eq_some_iff.2 ⟨a, hja, ?_⟩
  refine Option.bind_eq_some_iff.2 ⟨_, ha4, ?_⟩
  refine Option.bind_eq_some_iff.2 ⟨_, ha3, ?_⟩
  rw [hab]
  refine Option.bind_eq_some_iff.2 ⟨_, hbdays, ?_⟩
  rw [hb4]
  refine Option.bind_eq_some_iff.2 ⟨_, hac, ?_⟩
  refine Option.bind_eq_some_iff.2 ⟨_, hc4, ?_⟩
  refine Option.bind_eq_some_iff.2 ⟨_, hc3, ?_⟩
  rw [hcd]
  refine Option.bind_eq_some_iff.2 ⟨_, hddays, ?_⟩
  rw [hd4]
  refine Option.bind_eq_some_iff.2 ⟨_, hce, ?_⟩
  refine Option.bind_eq_some_iff.2 ⟨_, he5, ?_⟩
  refine Option.bind_eq_some_iff.2 ⟨_, he2, ?_⟩
  rw [hem]
  refine Option.bind_eq_some_iff.2 ⟨_, hmdays, ?_⟩
  refine Option.bind_eq_some_iff.2 ⟨_, hm2, ?_⟩
  rw [hm5]
  refine Option.bind_eq_some_iff.2 ⟨_, hday, ?_⟩
  refine Option.bind_eq_some_iff.2 ⟨_, hday1, ?_⟩
  refine Option.bind_eq_some_iff.2 ⟨_, hm3, ?_⟩
  rw [hm10]
  refine Option.bind_eq_some_iff.2 ⟨_, hm12, ?_⟩
  refine Option.bind_eq_some_iff.2 ⟨_, hmonth, ?_⟩
  refine Option.bind_eq_some_iff.2 ⟨_, hb100, ?_⟩
  refine Option.bind_eq_some_iff.2 ⟨_, hbd, ?_⟩
  refine Option.bind_eq_some_iff.2 ⟨_, hbd4800, ?_⟩
  exact Option.bind_eq_some_iff.2 ⟨_, hyear, rfl⟩

/-- The calendar counts 48 centuries less. -/
theorem getYearMonthDay_eq {j : Int} (h : InRange j) :
    getYearMonthDay j = some (Civil.ofDays (j - 2440588)) := by
  rw [getYearMonthDay_ok h rfl rfl rfl rfl rfl rfl]
  generalize ha : j + 32044 = a
  have ha' : j - 2440588 + 719468 = a - 12 * 146097 := by omega
  generalize hb : (4 * a + 3) / 146097 = b
  have hb' : (4 * (a - 12 * 146097) + 3) / 146097 = b - 48 := by omega
  generalize hc : a - b * 146097 / 4 = c
  have hc' : a - 12 * 146097 - 146097 * (b - 48) / 4 = c := by omega
  simp only [Civil.ofDays, ha', hb', hc']
  have hyear (x y : Int) : b * 100 + x - 4800 + y = 100 * (b - 48) + x + y := by omega
  rw [hyear]

theorem getJulianDayNumber_ok {year month day a y m : Int} (hmonth : 1 ≤ month ∧ month ≤ 12)
    (hday : 1 ≤ day ∧ day ≤ 31) (ha : a = (14 - month) / 12) (hy : y = year + 4800 - a)
    (hm : m = month + 12 * a - 3) (hy0 : 0 ≤ y) (hy1 : y ≤ 1500000) :
    getJulianDayNumber year month day =
      some (day + (153 * m + 2) / 5 + y * 365 + y / 4 - y / 100 + y / 400 - 32045) := by
  have ha0 : 0 ≤ a ∧ a ≤ 1 := by omega
  have hm0 : 0 ≤ m ∧ m ≤ 11 := by omega
  have hmdays : 0 ≤ (153 * m + 2) / 5 ∧ (153 * m + 2) / 5 ≤ 337 := by omega
  have h4 : 0 ≤ y / 4 ∧ y / 4 ≤ 375000 := by omega
  have h100 : 0 ≤ y / 100 ∧ y / 100 ≤ 15000 := by omega
  have h400 : 0 ≤ y / 400 ∧ y / 400 ≤ 3750 := by omega
  have h14 := sub_32 (x := 14) (y := month) (by omega) (by omega)
  have hdiv : (14 - month).tdiv 12 = a := by rw [Int.tdiv_eq_ediv_of_nonneg (by omega), ha]
  have h4800 := add_32 (x := year) (y := 4800) (by omega) (by omega)
  have hsub : sub 32 (year + 4800) a = some y := by rw [sub_32 (by omega) (by omega), hy]
  have h12 := mul_32 (x := 12) (y := a) (by omega) (by omega)
  have hadd := add_32 (x := month) (y := 12 * a) (by omega) (by omega)
  have hthree : sub 32 (month + 12 * a) 3 = some m := by rw [sub_32 (by omega) (by omega), hm]
  have h153 := mul_32 (x := 153) (y := m) (by omega) (by omega)
  have htwo := add_32 (x := 153 * m) (y := 2) (by omega) (by omega)
  have hfive : (153 * m + 2).tdiv 5 = (153 * m + 2) / 5 := Int.tdiv_eq_ediv_of_nonneg (by omega)
  have hy4 : y.tdiv 4 = y / 4 := Int.tdiv_eq_ediv_of_nonneg hy0
  have hy100 : y.tdiv 100 = y / 100 := Int.tdiv_eq_ediv_of_nonneg hy0
  have hy400 : y.tdiv 400 = y / 400 := Int.tdiv_eq_ediv_of_nonneg hy0
  have h365 := mul_32 (x := y) (y := 365) (by omega) (by omega)
  generalize (153 * m + 2) / 5 = days at hmdays hfive ⊢
  generalize y / 4 = q at h4 hy4 ⊢
  generalize y / 100 = c at h100 hy100 ⊢
  generalize y / 400 = f at h400 hy400 ⊢
  refine Option.bind_eq_some_iff.2 ⟨_, h14, ?_⟩
  rw [hdiv]
  refine Option.bind_eq_some_iff.2 ⟨_, h4800, ?_⟩
  refine Option.bind_eq_some_iff.2 ⟨_, hsub, ?_⟩
  refine Option.bind_eq_some_iff.2 ⟨_, h12, ?_⟩
  refine Option.bind_eq_some_iff.2 ⟨_, hadd, ?_⟩
  refine Option.bind_eq_some_iff.2 ⟨_, hthree, ?_⟩
  refine Option.bind_eq_some_iff.2 ⟨_, h153, ?_⟩
  refine Option.bind_eq_some_iff.2 ⟨_, htwo, ?_⟩
  rw [hfive, hy4, hy100, hy400]
  refine Option.bind_eq_some_iff.2 ⟨_, add_32 (by omega) (by omega), ?_⟩
  refine Option.bind_eq_some_iff.2 ⟨_, h365, ?_⟩
  refine Option.bind_eq_some_iff.2 ⟨_, add_32 (by omega) (by omega), ?_⟩
  refine Option.bind_eq_some_iff.2 ⟨_, add_32 (by omega) (by omega), ?_⟩
  refine Option.bind_eq_some_iff.2 ⟨_, sub_32 (by omega) (by omega), ?_⟩
  refine Option.bind_eq_some_iff.2 ⟨_, add_32 (by omega) (by omega), ?_⟩
  exact sub_32 (by omega) (by omega)

theorem getJulianDayNumber_eq {date : Civil} (hvalid : date.Valid)
    (h : InRange (date.toDays + 2440588)) :
    getJulianDayNumber date.year date.month date.day = some (date.toDays + 2440588) := by
  obtain ⟨h0, h1⟩ := h
  have hpos := hvalid.month_pos
  have hle := hvalid.month_le
  have hday := hvalid.day_pos
  have hday' := Int.le_trans hvalid.day_le (Civil.monthLength_le date.year date.month)
  simp only [Civil.toDays] at h0 h1 ⊢
  generalize ha : (14 - date.month) / 12 = a at h0 h1 ⊢
  generalize hy : date.year + 4800 - a = y
  generalize hm : date.month + 12 * a - 3 = m at h0 h1 ⊢
  have hyear : date.year - a = y - 4800 := by omega
  have h4 : (y - 4800) / 4 = y / 4 - 1200 := by omega
  have h100 : (y - 4800) / 100 = y / 100 - 48 := by omega
  have h400 : (y - 4800) / 400 = y / 400 - 12 := by omega
  rw [hyear, h4, h100, h400] at h0 h1 ⊢
  have hmonths : (153 * m + 2) / 5 + date.day ≤ 366 := by
    by_cases hfeb : m = 11
    · have := hvalid.february_le (by omega)
      omega
    · omega
  have hy0 : 0 ≤ y := by
    by_contra hneg
    have hcommon : y / 4 ≤ y / 100 := by omega
    have hleap : y / 400 ≤ -1 := by omega
    omega
  have hy1 : y ≤ 1500000 := by omega
  rw [getJulianDayNumber_ok ⟨hpos, hle⟩ ⟨hday, hday'⟩ ha.symm hy.symm hm.symm hy0 hy1]
  refine congrArg some ?_
  omega

/-! ## The dates of the range -/

def firstDate : Civil := ⟨-4800, 3, 1⟩

def lastDate : Civil := ⟨1465102, 10, 18⟩

def DateInRange (date : Civil) : Prop := ¬ date.Before firstDate ∧ ¬ lastDate.Before date

theorem firstDate_valid : firstDate.Valid := ⟨by decide, by decide, by decide, by decide⟩

theorem lastDate_valid : lastDate.Valid := ⟨by decide, by decide, by decide, by decide⟩

theorem firstDate_toDays : firstDate.toDays = -32044 - 2440588 := by decide

theorem lastDate_toDays : lastDate.toDays = 536838867 - 2440588 := by decide

theorem dateInRange_iff {date : Civil} (hvalid : date.Valid) :
    DateInRange date ↔ InRange (date.toDays + 2440588) := by
  have hfirst := firstDate_toDays
  have hlast := lastDate_toDays
  constructor
  · intro h
    constructor
    · by_contra hlow
      exact h.1 (Civil.before_of_toDays_lt hvalid firstDate_valid (by omega))
    · by_contra hhigh
      exact h.2 (Civil.before_of_toDays_lt lastDate_valid hvalid (by omega))
  · intro h
    obtain ⟨h0, h1⟩ := h
    constructor
    · intro hbefore
      have := Civil.toDays_lt_of_before hvalid firstDate_valid hbefore
      omega
    · intro hbefore
      have := Civil.toDays_lt_of_before lastDate_valid hvalid hbefore
      omega

theorem year_bounds {date : Civil} (hvalid : date.Valid) (h : InRange (date.toDays + 2440588)) :
    -4800 ≤ date.year ∧ date.year ≤ 1465102 := by
  obtain ⟨hfirst, hlast⟩ := (dateInRange_iff hvalid).2 h
  simp only [Civil.Before, firstDate, lastDate] at hfirst hlast
  omega

theorem getYearMonthDay_inRange {j : Int} (h : InRange j) :
    ∃ date : Civil, getYearMonthDay j = some date ∧ date.Valid ∧ date.toDays + 2440588 = j := by
  refine ⟨_, getYearMonthDay_eq h, Civil.ofDays_valid _, ?_⟩
  rw [Civil.toDays_ofDays]
  omega

theorem getYearMonthDay_toDays {date : Civil} (hvalid : date.Valid)
    (h : InRange (date.toDays + 2440588)) :
    getYearMonthDay (date.toDays + 2440588) = some date := by
  have hdays : date.toDays + 2440588 - 2440588 = date.toDays := by omega
  rw [getYearMonthDay_eq h, hdays, Civil.ofDays_toDays hvalid]

theorem date_gregorian :
    (∀ j, InRange j → ∃ date : Civil, getYearMonthDay j = some date ∧ date.Valid ∧
      getJulianDayNumber date.year date.month date.day = some j ∧
      (InRange (j + 1) → getYearMonthDay (j + 1) = some date.succ)) ∧
    (∀ date : Civil, date.Valid → DateInRange date →
      ∃ j, InRange j ∧ getJulianDayNumber date.year date.month date.day = some j ∧
        getYearMonthDay j = some date) ∧
    ∀ a b : Civil, a.Valid → b.Valid → DateInRange a → DateInRange b → a.Before b →
      ∃ j k, getJulianDayNumber a.year a.month a.day = some j ∧
        getJulianDayNumber b.year b.month b.day = some k ∧ j < k := by
  refine ⟨fun j hj => ?_, fun date hvalid hrange => ?_, fun a b ha hb hra hrb hab => ?_⟩
  · obtain ⟨date, hdate, hvalid, rfl⟩ := getYearMonthDay_inRange hj
    refine ⟨date, hdate, hvalid, getJulianDayNumber_eq hvalid hj, fun hnext => ?_⟩
    have hsucc : date.toDays + 2440588 + 1 = date.succ.toDays + 2440588 := by
      rw [Civil.toDays_succ hvalid]
      omega
    rw [hsucc] at hnext ⊢
    exact getYearMonthDay_toDays (Civil.succ_valid hvalid) hnext
  · have hj := (dateInRange_iff hvalid).1 hrange
    exact ⟨_, hj, getJulianDayNumber_eq hvalid hj, getYearMonthDay_toDays hvalid hj⟩
  · have hlt := Civil.toDays_lt_of_before ha hb hab
    exact ⟨_, _, getJulianDayNumber_eq ha ((dateInRange_iff ha).1 hra),
      getJulianDayNumber_eq hb ((dateInRange_iff hb).1 hrb), by omega⟩

/-- February 29, 2000 is followed by March 1. -/
theorem date_gregorian_leap_day :
    InRange 2451604 ∧ getYearMonthDay 2451604 = some ⟨2000, 2, 29⟩ ∧
      getYearMonthDay (2451604 + 1) = some ⟨2000, 3, 1⟩ := by
  have hrange : InRange 2451604 := ⟨by decide, by decide⟩
  have hnext : InRange (2451604 + 1) := ⟨by decide, by decide⟩
  obtain ⟨date, hdate, -, -, hsucc⟩ := date_gregorian.1 2451604 hrange
  have hleap : getYearMonthDay 2451604 = some ⟨2000, 2, 29⟩ := by decide
  cases hdate.symm.trans hleap
  exact ⟨hrange, hleap, hsucc hnext⟩

end Date

end Rawmd
