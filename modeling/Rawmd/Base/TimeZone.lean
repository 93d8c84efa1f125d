import Rawmd.Lib.Calendar
import Rawmd.Lib.LowerBound
import Rawmd.Lib.Except

/-!
# `base/TimeZone.cpp`: zone data and local time

A `TimeZone` is its `data_`, `none` for an invalid zone.  Indices into the vectors of the data come
from zone files and are not checked by the code: an access outside is the fault `index`.
`gmtimeR` is `gmtime_r(3)`, exact for every number of seconds.

    indices in range → toLocalTime is defined at every time            (toLocalTime_inRange)
-/

namespace Rawmd

/-! ## Broken-down time -/

/-- `struct tm`; `zone` is the text that `tm_zone` points to. -/
structure Tm where
  year : Int
  mon : Int
  mday : Int
  hour : Int
  min : Int
  sec : Int
  wday : Int
  yday : Int
  isdst : Bool
  gmtoff : Int
  zone : List UInt8
deriving DecidableEq, Repr

def kSecondsPerDay : Int := 24 * 60 * 60

/-- `gmtime_r(3)` -/
def gmtimeR (seconds : Int) : Tm :=
  let days := seconds / kSecondsPerDay
  let rest := seconds % kSecondsPerDay
  let date := Civil.ofDays days
  { year := date.year - 1900
    mon := date.month - 1
    mday := date.day
    hour := rest / 3600
    min := rest / 60 % 60
    sec := rest % 60
    wday := (days + 4) % 7
    yday := days - Civil.toDays ⟨date.year, 1, 1⟩
    isdst := false
    gmtoff := 0
    zone := [71, 77, 84] }

/-- The seconds of a broken-down time, as `gmtimeR` splits them. -/
def Tm.seconds (tm : Tm) : Int :=
  Civil.toDays ⟨tm.year + 1900, tm.mon + 1, tm.mday⟩ * kSecondsPerDay +
    tm.hour * 3600 + tm.min * 60 + tm.sec

theorem seconds_gmtimeR (seconds : Int) : (gmtimeR seconds).seconds = seconds := by
  simp only [gmtimeR, Tm.seconds, Int.sub_add_cancel]
  rw [Civil.toDays_ofDays]
  unfold kSecondsPerDay
  omega

structure Tm.Bounds (tm : Tm) : Prop where
  mon : 0 ≤ tm.mon ∧ tm.mon < 12
  mday : 1 ≤ tm.mday ∧ tm.mday ≤ 31
  hour : 0 ≤ tm.hour ∧ tm.hour < 24
  min : 0 ≤ tm.min ∧ tm.min < 60
  sec : 0 ≤ tm.sec ∧ tm.sec < 60

theorem gmtimeR_bounds (seconds : Int) : (gmtimeR seconds).Bounds := by
  have hdate := Civil.ofDays_bounds (seconds / kSecondsPerDay)
  constructor
  all_goals
    simp only [gmtimeR, kSecondsPerDay] at hdate ⊢
    omega

namespace TimeZone

/-! ## Zone data -/

structure Transition where
  gmttime : Int
  localtime : Int
  localtimeIdx : Nat
deriving DecidableEq, Repr

structure Comp where
  compareGmt : Bool

namespace Comp

/-- `operator()` -/
def less (comp : Comp) (lhs rhs : Transition) : Bool :=
  if comp.compareGmt then decide (lhs.gmttime < rhs.gmttime)
  else decide (lhs.localtime < rhs.localtime)

def equal (comp : Comp) (lhs rhs : Transition) : Bool :=
  if comp.compareGmt then decide (lhs.gmttime = rhs.gmttime)
  else decide (lhs.localtime = rhs.localtime)

theorem equal_of_not_less {comp : Comp} {lhs rhs : Transition} (hl : comp.less lhs rhs = false)
    (hr : comp.less rhs lhs = false) : comp.equal lhs rhs = true := by
  obtain ⟨compareGmt⟩ := comp
  cases compareGmt with
  | true =>
    simp only [less, equal, if_true, decide_eq_false_iff_not, decide_eq_true_eq] at hl hr ⊢
    omega
  | false =>
    simp only [less, equal, Bool.false_eq_true, if_false, decide_eq_false_iff_not,
      decide_eq_true_eq] at hl hr ⊢
    omega

end Comp

structure Localtime where
  gmtOffset : Int
  isDst : Bool
  arrbIdx : Nat
deriving DecidableEq, Repr

structure Data where
  transitions : List Transition
  localtimes : List Localtime
  abbreviation : List UInt8
deriving DecidableEq, Repr

/-- `assert(data_ != NULL)`, the assert of `findLocaltime`, or an index outside its vector. -/
inductive Fault where
  | noData
  | begin
  | index
deriving DecidableEq, Repr

def Data.empty : Data := ⟨[], [], []⟩

def Data.localtime (data : Data) (i : Nat) : Except Fault Localtime :=
  match data.localtimes[i]? with
  | some local' => .ok local'
  | none => .error .index

/-- The text at `&abbreviation[i]`; the index may be that of the terminating NUL. -/
def Data.abbreviationAt (data : Data) (i : Nat) : Except Fault (List UInt8) :=
  if i ≤ data.abbreviation.length then .ok ((data.abbreviation.drop i).takeWhile (· != 0))
  else .error .index

/-! ## `findLocaltime` -/

/-- The rule at the end of the binary search, `i` steps into the transitions. -/
def localtimeAt (data : Data) (sentry : Transition) (comp : Comp) (i : Nat) :
    Except Fault Localtime :=
  match data.transitions[i]? with
  | some transI =>
    if comp.equal sentry transI then data.localtime transI.localtimeIdx
    else
      match i with
      | 0 => .error .begin
      | i + 1 =>
        match data.transitions[i]? with
        | some before => data.localtime before.localtimeIdx
        | none => .error .index
  | none =>
    match data.transitions.getLast? with
    | some back => data.localtime back.localtimeIdx
    | none => .error .index

def findLocaltime (data : Data) (sentry : Transition) (comp : Comp) : Except Fault Localtime :=
  match data.transitions with
  | [] => data.localtime 0
  | front :: _ =>
    if comp.less sentry front then data.localtime 0
    else localtimeAt data sentry comp (data.transitions.lowerBound fun t => comp.less t sentry)

/-- Every index that the conversions use is in range. -/
structure Data.InRange (data : Data) : Prop where
  localtimes : 0 < data.localtimes.length
  transitions : ∀ t ∈ data.transitions, t.localtimeIdx < data.localtimes.length
  abbreviation : ∀ l ∈ data.localtimes, l.arrbIdx ≤ data.abbreviation.length

theorem Data.localtime_ok {data : Data} {i : Nat} (h : i < data.localtimes.length) :
    ∃ l ∈ data.localtimes, data.localtime i = .ok l := by
  refine ⟨data.localtimes[i], List.getElem_mem h, ?_⟩
  rw [Data.localtime, List.getElem?_eq_getElem h]

theorem localtimeAt_ok {data : Data} (h : data.InRange) {sentry : Transition} {comp : Comp}
    {i : Nat} (hne : data.transitions ≠ [])
    (hzero : i = 0 → ∀ t, data.transitions[0]? = some t → comp.equal sentry t = true) :
    ∃ l ∈ data.localtimes, localtimeAt data sentry comp i = .ok l := by
  unfold localtimeAt
  split
  · next transI hi =>
    split
    · exact Data.localtime_ok (h.transitions transI (List.mem_of_getElem? hi))
    · next hneq =>
      cases i with
      | zero => exact absurd (hzero rfl transI hi) hneq
      | succ i =>
        have hlt : i < data.transitions.length := by
          have := (List.getElem?_eq_some_iff.1 hi).1
          omega
        simp only [List.getElem?_eq_getElem hlt]
        exact Data.localtime_ok (h.transitions _ (List.getElem_mem hlt))
  · simp only [List.getLast?_eq_getLast_of_ne_nil hne]
    exact Data.localtime_ok (h.transitions _ (List.getLast_mem hne))

/-- The assert before `--transI` holds also for transitions that are not sorted. -/
theorem findLocaltime_ok {data : Data} (h : data.InRange) (sentry : Transition) (comp : Comp) :
    ∃ l ∈ data.localtimes, findLocaltime data sentry comp = .ok l := by
  unfold findLocaltime
  split
  · exact Data.localtime_ok h.localtimes
  · next front rest htr =>
    split
    · exact Data.localtime_ok h.localtimes
    · next hless =>
      refine localtimeAt_ok h (by rw [htr]; exact List.cons_ne_nil _ _) ?_
      intro hi t ht
      rw [htr] at hi ht
      cases ht
      exact Comp.equal_of_not_less (by simpa using hless)
        (List.lowerBound_eq_zero hi :)

end TimeZone

/-! ## `TimeZone` -/

abbrev TimeZone := Option TimeZone.Data

namespace TimeZone

def valid (tz : TimeZone) : Bool := tz.isSome

/-- `TimeZone(int eastOfUtc, const char* name)` -/
def fixed (eastOfUtc : Int) (name : List UInt8) : TimeZone :=
  some ⟨[], [⟨eastOfUtc, false, 0⟩], name⟩

/-- The fields that `toLocalTime` sets besides those of `gmtime_r`. -/
def localTm (local' : Localtime) (zone : List UInt8) (seconds : Int) : Tm :=
  { gmtimeR (seconds + local'.gmtOffset) with
    isdst := local'.isDst
    gmtoff := local'.gmtOffset
    zone := zone }

def toLocalTime (tz : TimeZone) (seconds : Int) : Except Fault Tm :=
  match tz with
  | none => .error .noData
  | some data => do
    let local' ← findLocaltime data ⟨seconds, 0, 0⟩ ⟨true⟩
    let zone ← data.abbreviationAt local'.arrbIdx
    return localTm local' zone seconds

theorem toLocalTime_inRange {data : Data} (h : data.InRange) (seconds : Int) :
    ∃ l ∈ data.localtimes, ∃ zone,
      toLocalTime (some data) seconds = .ok (localTm l zone seconds) := by
  obtain ⟨l, hl, hfind⟩ := findLocaltime_ok h ⟨seconds, 0, 0⟩ ⟨true⟩
  refine ⟨l, hl, (data.abbreviation.drop l.arrbIdx).takeWhile (· != 0), ?_⟩
  have hzone : data.abbreviationAt l.arrbIdx = .ok _ := if_pos (h.abbreviation l hl)
  simp only [toLocalTime, hfind, hzone, bind, Except.bind]
  rfl

end TimeZone

end Rawmd
