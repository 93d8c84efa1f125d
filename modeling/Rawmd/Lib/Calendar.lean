import Mathlib.Data.Int.Basic
import Mathlib.Order.Monotone.Basic
import Mathlib.Tactic.IntervalCases

/-!
# The Gregorian calendar

Dates of the proleptic Gregorian calendar and the number of days since 1970-01-01.  Years are
counted from March, so that the leap day is the last of its year: day `719468` of that count is
1970-01-01.

    (ofDays n).toDays = n
    date.Valid → ofDays date.toDays = date
    ofDays (n + 1) = (ofDays n).succ
    a, b valid and a before b → a.toDays < b.toDays
-/

structure Civil where
  year : Int
  month : Int
  day : Int
deriving DecidableEq, Repr

namespace Civil

/-- `b` centuries, `d` years, then `e` days and `m` months of the year that starts in March. -/
def ofDays (days : Int) : Civil :=
  let a := days + 719468
  let b := (4 * a + 3) / 146097
  let c := a - 146097 * b / 4
  let d := (4 * c + 3) / 1461
  let e := c - 1461 * d / 4
  let m := (5 * e + 2) / 153
  ⟨100 * b + d + m / 10, m + 3 - 12 * (m / 10), e - (153 * m + 2) / 5 + 1⟩

def toDays (date : Civil) : Int :=
  let a := (14 - date.month) / 12
  let y := date.year - a
  let m := date.month + 12 * a - 3
  365 * y + y / 4 - y / 100 + y / 400 + (153 * m + 2) / 5 + date.day - 1 - 719468

/-- The centuries, years, days and months that `ofDays` finds. -/
theorem ofDays_eq (days : Int) : ∃ b d e m : Int,
    ofDays days = ⟨100 * b + d + m / 10, m + 3 - 12 * (m / 10), e - (153 * m + 2) / 5 + 1⟩ ∧
    days + 719468 = 36524 * b + b / 4 + 365 * d + d / 4 + e ∧
    0 ≤ d ∧ d ≤ 99 ∧ 0 ≤ e ∧ e ≤ 365 ∧ m = (5 * e + 2) / 153 ∧ 0 ≤ m ∧ m ≤ 11 ∧
    (e = 365 → d % 4 = 3 ∧ (d = 99 → b % 4 = 3)) := by
  simp only [ofDays]
  generalize ha : days + 719468 = a
  generalize hb : (4 * a + 3) / 146097 = b
  generalize hc : a - 146097 * b / 4 = c
  generalize hd : (4 * c + 3) / 1461 = d
  generalize he : c - 1461 * d / 4 = e
  generalize hm : (5 * e + 2) / 153 = m
  have hcentury : 0 ≤ c ∧ c ≤ 36524 := by omega
  have hyear : 0 ≤ d ∧ d ≤ 99 := by omega
  have hday : 0 ≤ e ∧ e ≤ 365 := by omega
  have hb4 : 146097 * b / 4 = 36524 * b + b / 4 := by omega
  have hd4 : 1461 * d / 4 = 365 * d + d / 4 := by omega
  have hleap : e = 365 → d % 4 = 3 ∧ (d = 99 → b % 4 = 3) := by omega
  exact ⟨b, d, e, m, rfl, by omega, hyear.1, hyear.2, hday.1, hday.2, hm.symm, by omega, by omega,
    hleap⟩

theorem ofDays_bounds (days : Int) :
    1 ≤ (ofDays days).month ∧ (ofDays days).month ≤ 12 ∧
    1 ≤ (ofDays days).day ∧ (ofDays days).day ≤ 31 := by
  obtain ⟨b, d, e, m, hdate, -, -, -, he0, he1, hm, hm0, hm1, -⟩ := ofDays_eq days
  rw [hdate]
  dsimp only
  have hwrap : 0 ≤ m / 10 ∧ m / 10 ≤ 1 := by omega
  omega

theorem toDays_ofDays (days : Int) : (ofDays days).toDays = days := by
  obtain ⟨b, d, e, m, hdate, hdays, hd0, hd1, he0, he1, hm, hm0, hm1, -⟩ := ofDays_eq days
  rw [hdate]
  simp only [toDays]
  have ha : (14 - (m + 3 - 12 * (m / 10))) / 12 = m / 10 := by omega
  have hy : 100 * b + d + m / 10 - m / 10 = 100 * b + d := by omega
  have hmonth : m + 3 - 12 * (m / 10) + 12 * (m / 10) - 3 = m := by omega
  have h4 : (100 * b + d) / 4 = 25 * b + d / 4 := by omega
  have h100 : (100 * b + d) / 100 = b := by omega
  have h400 : (100 * b + d) / 400 = b / 4 := by omega
  rw [ha, hy, hmonth, h4, h100, h400]
  omega

/-! ## Months -/

def Leap (year : Int) : Prop := year % 4 = 0 ∧ (year % 100 ≠ 0 ∨ year % 400 = 0)

instance (year : Int) : Decidable (Leap year) := inferInstanceAs (Decidable (_ ∧ _))

def monthLength (year month : Int) : Int :=
  if month = 2 then if Leap year then 29 else 28
  else if month = 4 ∨ month = 6 ∨ month = 9 ∨ month = 11 then 30
  else 31

structure Valid (date : Civil) : Prop where
  month_pos : 1 ≤ date.month
  month_le : date.month ≤ 12
  day_pos : 1 ≤ date.day
  day_le : date.day ≤ monthLength date.year date.month

/-- The next day, else the first of the next month, else January 1 of the next year. -/
def succ (date : Civil) : Civil :=
  if date.day < monthLength date.year date.month then { date with day := date.day + 1 }
  else if date.month < 12 then ⟨date.year, date.month + 1, 1⟩
  else ⟨date.year + 1, 1, 1⟩

/-- The order of (year, month, day). -/
def Before (a b : Civil) : Prop :=
  a.year < b.year ∨ a.year = b.year ∧
    (a.month < b.month ∨ a.month = b.month ∧ a.day < b.day)

/-- The days of the year before `date`: those of the months before and of its own. -/
def dayOfYear (date : Civil) : Int :=
  ((List.range (date.month - 1).toNat).map fun k : Nat => monthLength date.year (k + 1)).sum +
    date.day - 1

/-- 0 is a Sunday; 1970-01-01 was a Thursday. -/
def weekday (date : Civil) : Int := (date.toDays + 4) % 7

theorem monthLength_pos (year month : Int) : 28 ≤ monthLength year month := by
  unfold monthLength
  split
  · split <;> omega
  · split <;> omega

theorem monthLength_le (year month : Int) : monthLength year month ≤ 31 := by
  unfold monthLength
  split
  · split <;> omega
  · split <;> omega

theorem Valid.february_le {date : Civil} (h : date.Valid) (hmonth : date.month = 2) :
    date.day ≤ 29 := by
  have hday := h.day_le
  rw [hmonth, monthLength, if_pos rfl] at hday
  split at hday <;> omega

/-- From February to March the year of the count changes. -/
theorem toDays_march (year : Int) :
    toDays ⟨year, 3, 1⟩ = toDays ⟨year, 2, 1⟩ + monthLength year 2 := by
  simp only [toDays, monthLength, if_true]
  split
  · next hleap =>
    unfold Leap at hleap
    omega
  · next hleap =>
    unfold Leap at hleap
    omega

/-- The first day of a month and that of the next. -/
theorem toDays_next_month {year month : Int} (h1 : 1 ≤ month) (h2 : month < 12) :
    toDays ⟨year, month + 1, 1⟩ = toDays ⟨year, month, 1⟩ + monthLength year month := by
  by_cases hmonth : month = 2
  · subst hmonth
    exact toDays_march year
  · simp only [toDays, monthLength, if_neg hmonth]
    have ha : (14 - (month + 1)) / 12 = (14 - month) / 12 := by omega
    rw [ha]
    generalize year - (14 - month) / 12 = y
    interval_cases month
    all_goals
      norm_num
      omega

theorem toDays_next_year (year : Int) :
    toDays ⟨year + 1, 1, 1⟩ = toDays ⟨year, 12, 1⟩ + monthLength year 12 := by
  simp only [toDays, monthLength]
  norm_num
  omega

/-! ## Order and successor

The months are counted from January of the year 0: the days before the first of month `k` grow by
the length of the month. -/

def monthStart (k : Int) : Int := toDays ⟨k / 12, k % 12 + 1, 1⟩

theorem monthStart_add_one (k : Int) :
    monthStart (k + 1) = monthStart k + monthLength (k / 12) (k % 12 + 1) := by
  unfold monthStart
  by_cases hlast : k % 12 = 11
  · have hyear : (k + 1) / 12 = k / 12 + 1 := by omega
    have hmonth : (k + 1) % 12 = 0 := by omega
    rw [hyear, hmonth, hlast]
    exact toDays_next_year (k / 12)
  · have hyear : (k + 1) / 12 = k / 12 := by omega
    have hmonth : (k + 1) % 12 = k % 12 + 1 := by omega
    rw [hyear, hmonth]
    exact toDays_next_month (by omega) (by omega)

theorem monthStart_monotone {j k : Int} (h : j ≤ k) : monthStart j ≤ monthStart k := by
  refine monotone_int_of_le_succ (f := monthStart) (fun k => ?_) h
  have := monthLength_pos (k / 12) (k % 12 + 1)
  rw [monthStart_add_one]
  omega

theorem toDays_eq_monthStart {date : Civil} (h : date.Valid) :
    date.toDays = monthStart (12 * date.year + date.month - 1) + date.day - 1 := by
  have hpos := h.month_pos
  have hle := h.month_le
  have hyear : (12 * date.year + date.month - 1) / 12 = date.year := by omega
  have hmonth : (12 * date.year + date.month - 1) % 12 + 1 = date.month := by omega
  rw [monthStart, hyear, hmonth]
  simp only [toDays]
  omega

theorem toDays_lt_of_before {a b : Civil} (ha : a.Valid) (hb : b.Valid) (h : a.Before b) :
    a.toDays < b.toDays := by
  rw [toDays_eq_monthStart ha, toDays_eq_monthStart hb]
  obtain ⟨ham, ham', had, had'⟩ := ha
  obtain ⟨hbm, hbm', hbd, -⟩ := hb
  by_cases hsame : a.year = b.year ∧ a.month = b.month
  · rw [hsame.1, hsame.2]
    unfold Before at h
    omega
  · -- the month of `b` starts after that of `a` has ended
    have hindex : 12 * a.year + a.month - 1 + 1 ≤ 12 * b.year + b.month - 1 := by
      unfold Before at h
      omega
    have hstart := monthStart_monotone hindex
    have hyear : (12 * a.year + a.month - 1) / 12 = a.year := by omega
    have hmonth : (12 * a.year + a.month - 1) % 12 + 1 = a.month := by omega
    rw [monthStart_add_one, hyear, hmonth] at hstart
    omega

theorem before_or_eq_or_before (a b : Civil) : a.Before b ∨ a = b ∨ b.Before a := by
  by_cases heq : a.year = b.year ∧ a.month = b.month ∧ a.day = b.day
  · obtain ⟨year, month, day⟩ := a
    obtain ⟨rfl, rfl, rfl⟩ := heq
    exact .inr (.inl rfl)
  · unfold Before
    omega

theorem toDays_injective {a b : Civil} (ha : a.Valid) (hb : b.Valid) (h : a.toDays = b.toDays) :
    a = b := by
  rcases before_or_eq_or_before a b with hlt | heq | hgt
  · have := toDays_lt_of_before ha hb hlt
    omega
  · exact heq
  · have := toDays_lt_of_before hb ha hgt
    omega

theorem before_of_toDays_lt {a b : Civil} (ha : a.Valid) (hb : b.Valid)
    (h : a.toDays < b.toDays) : a.Before b := by
  rcases before_or_eq_or_before a b with hlt | rfl | hgt
  · exact hlt
  · omega
  · have := toDays_lt_of_before hb ha hgt
    omega

theorem ofDays_valid (days : Int) : (ofDays days).Valid := by
  obtain ⟨b, d, e, m, hdate, -, hd0, hd1, he0, he1, hm, hm0, hm1, hleap⟩ := ofDays_eq days
  rw [hdate]
  have hwrap : 0 ≤ m / 10 ∧ m / 10 ≤ 1 := by omega
  refine ⟨by dsimp only; omega, by dsimp only; omega, by dsimp only; omega, ?_⟩
  dsimp only
  by_cases hfeb : m = 11
  · -- day 365 of a year that starts in March is a leap day
    subst hfeb
    have hlast : e = 365 → Leap (100 * b + d + 11 / 10) := by
      intro he
      obtain ⟨hd4, hb4⟩ := hleap he
      unfold Leap
      omega
    rw [monthLength, if_pos (by omega)]
    split
    · omega
    · next hcommon =>
      have : e ≠ 365 := fun he => hcommon (hlast he)
      omega
  · rw [monthLength, if_neg (by omega)]
    split <;> omega

theorem ofDays_toDays {date : Civil} (h : date.Valid) : ofDays date.toDays = date :=
  toDays_injective (ofDays_valid _) h (toDays_ofDays _)

theorem succ_valid {date : Civil} (h : date.Valid) : date.succ.Valid := by
  obtain ⟨hm, hm', hd, hd'⟩ := h
  unfold succ
  split
  · next hday => exact ⟨hm, hm', by dsimp only; omega, hday⟩
  · have := monthLength_pos date.year (date.month + 1)
    have := monthLength_pos (date.year + 1) 1
    split
    · constructor <;> dsimp only <;> omega
    · constructor <;> dsimp only <;> omega

theorem toDays_succ {date : Civil} (h : date.Valid) : date.succ.toDays = date.toDays + 1 := by
  rw [toDays_eq_monthStart (succ_valid h), toDays_eq_monthStart h]
  obtain ⟨hm, hm', hd, hd'⟩ := h
  have hyear : (12 * date.year + date.month - 1) / 12 = date.year := by omega
  have hmonth : (12 * date.year + date.month - 1) % 12 + 1 = date.month := by omega
  have hnext := monthStart_add_one (12 * date.year + date.month - 1)
  rw [hyear, hmonth] at hnext
  unfold succ
  split
  · dsimp only
    omega
  · split
    · have hindex :
          12 * date.year + (date.month + 1) - 1 = 12 * date.year + date.month - 1 + 1 := by
        omega
      dsimp only
      rw [hindex, hnext]
      omega
    · have hindex : 12 * (date.year + 1) + 1 - 1 = 12 * date.year + date.month - 1 + 1 := by omega
      dsimp only
      rw [hindex, hnext]
      omega

theorem sum_monthLength (year : Int) {n : Nat} (h : n ≤ 11) :
    ((List.range n).map fun k : Nat => monthLength year (k + 1)).sum =
      toDays ⟨year, n + 1, 1⟩ - toDays ⟨year, 1, 1⟩ := by
  induction n with
  | zero => simp
  | succ n ih =>
    have hnext := @toDays_next_month year (n + 1) (by omega) (by omega)
    rw [List.range_succ, List.map_append, List.sum_append, ih (by omega)]
    push_cast
    rw [hnext]
    simp only [List.map_cons, List.map_nil, List.sum_cons, List.sum_nil]
    omega

theorem dayOfYear_eq {date : Civil} (h : date.Valid) :
    date.dayOfYear = date.toDays - toDays ⟨date.year, 1, 1⟩ := by
  have hpos := h.month_pos
  have hle := h.month_le
  have hmonth : ((date.month - 1).toNat : Int) + 1 = date.month := by omega
  rw [dayOfYear, sum_monthLength date.year (by omega), hmonth]
  simp only [toDays]
  omega

theorem toDays_january {date : Civil} (h : date.Valid) :
    date.toDays - 366 ≤ toDays ⟨date.year, 1, 1⟩ ∧ toDays ⟨date.year, 1, 1⟩ ≤ date.toDays := by
  have hpos := h.month_pos
  have hle := h.month_le
  have hday := h.day_pos
  have hday' := Int.le_trans h.day_le (monthLength_le date.year date.month)
  have h4 : 0 ≤ date.year / 4 - (date.year - 1) / 4 ∧
      date.year / 4 - (date.year - 1) / 4 ≤ 1 := by omega
  have h100 : 0 ≤ date.year / 100 - (date.year - 1) / 100 ∧
      date.year / 100 - (date.year - 1) / 100 ≤ 1 := by omega
  have h400 : 0 ≤ date.year / 400 - (date.year - 1) / 400 ∧
      date.year / 400 - (date.year - 1) / 400 ≤ 1 := by omega
  have hjanuary : ((14 : Int) - 1) / 12 = 1 := rfl
  simp only [toDays, hjanuary]
  by_cases hmonth : date.month ≤ 2
  · have ha : (14 - date.month) / 12 = 1 := by omega
    rw [ha]
    omega
  · have ha : (14 - date.month) / 12 = 0 := by omega
    rw [ha, Int.sub_zero]
    omega

end Civil
