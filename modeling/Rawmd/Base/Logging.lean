import Rawmd.Lib.Machine
import Rawmd.Lib.Printf
import Rawmd.Base.Timestamp
import Rawmd.Base.TimeZone

/-!
# `base/Logging.cpp`: the time stamps of log records

`Logger::Impl::formatTime` keeps the text of the last second in `t_time`, one for each thread, and
prints it again for a record of the same second.  `logger` is this machine, with any number of
threads and any changes of the zone; `uncached` prints each record from its own time in the zone
that is set.

    both write the same texts  ↔  no record of a second for which the zone's offset has changed
                                  since the thread's last record, and the other conditions of
                                  CacheAgrees                        (logger_writes_uncached_iff)
-/

namespace Rawmd

open Printf

namespace Logging

/-! ## Texts -/

/-- The date that a record shows: local time, or UTC if the zone is not valid. -/
def calendar (tz : TimeZone) (seconds : Int) : Except TimeZone.Fault Tm :=
  if tz.valid then tz.toLocalTime seconds else .ok (gmtimeR seconds)

/-- `"%4d%02d%02d %02d:%02d:%02d"` -/
def dateTime (tm : Tm) : Text :=
  padded 4 (tm.year + 1900) ++ (zeroPadded 2 (tm.mon + 1) ++ (zeroPadded 2 tm.mday ++ ([' '] ++
    (zeroPadded 2 tm.hour ++ ([':'] ++ (zeroPadded 2 tm.min ++ ([':'] ++ zeroPadded 2 tm.sec)))))))

/-- `".%06d "`, or `".%06dZ "` for UTC. -/
def fraction (valid : Bool) (microseconds : Int) : Text :=
  ['.'] ++ (zeroPadded 6 microseconds ++ if valid then [' '] else ['Z', ' '])

def secondsOf (time : Timestamp) : Int := time.tdiv kMicroSecondsPerSecond

def microsecondsOf (time : Timestamp) : Int := time.tmod kMicroSecondsPerSecond

/-! ## `formatTime` -/

/-- The variables `t_time` and `t_lastSecond` of a thread. -/
structure Thread where
  tTime : Text
  tLastSecond : Int

/-- Thread-local variables start as zeros. -/
def Thread.init : Thread := ⟨[], 0⟩

/-- The asserts, and the faults of the zone data. -/
inductive Fault where
  | zone (fault : TimeZone.Fault)
  | dateTimeLength
  | fmtLength
  | microsecondsLength
  | strlen
deriving DecidableEq, Repr

/-- `Fmt us(..)` -/
def fmt (text : Text) : Except Fault Text :=
  if text.length < 32 then .ok (snprintf 32 text) else .error .fmtLength

/-- `T(str, len)` -/
def helperT (str : Text) (len : Nat) : Except Fault Text :=
  if str.length = len then .ok str else .error .strlen

/-- `t_time` is printed anew for another second. -/
def refresh (tz : TimeZone) (thread : Thread) (seconds : Int) : Except Fault Thread :=
  if seconds ≠ thread.tLastSecond then
    match calendar tz seconds with
    | .error fault => .error (.zone fault)
    | .ok tm =>
      if (dateTime tm).length = 17 then .ok ⟨snprintf 32 (dateTime tm), seconds⟩
      else .error .dateTimeLength
  else .ok thread

/-- What goes to `stream_`. -/
def stamp (valid : Bool) (thread : Thread) (microseconds : Int) : Except Fault Text := do
  let len := if valid then 8 else 9
  let us ← fmt (fraction valid microseconds)
  if us.length = len then
    let time ← helperT thread.tTime 17
    let us ← helperT us len
    return time ++ us
  else .error .microsecondsLength

def formatTime (tz : TimeZone) (thread : Thread) (time : Timestamp) :
    Except Fault (Thread × Text) := do
  let thread ← refresh tz thread (secondsOf time)
  let text ← stamp tz.valid thread (microsecondsOf time)
  return (thread, text)

/-! ## The logger -/

inductive Action where
  | setTimeZone (tz : TimeZone)
  | record (thread : Nat) (time : Timestamp)

/-- `output` are the time stamps of the records, in their order. -/
structure Logger where
  gLogTimeZone : TimeZone
  threads : Nat → Thread
  output : List Text

def Logger.init : Logger := ⟨none, fun _ => .init, []⟩

def logger : Machine Logger Action Fault where
  enabled _ _ := true
  step s
    | .setTimeZone tz => .ok { s with gLogTimeZone := tz }
    | .record thread time => do
      let (cache, text) ← formatTime s.gLogTimeZone (s.threads thread) time
      return { s with
        threads := Function.update s.threads thread cache
        output := s.output ++ [text] }

/-! ## Without a cache -/

/-- `last` is the second and the zone of each thread's last record. -/
structure History where
  zone : TimeZone
  last : Nat → Option (Int × TimeZone)
  output : List Text

def History.init : History := ⟨none, fun _ => none, []⟩

def FourDigits (tm : Tm) : Prop := 1000 ≤ tm.year + 1900 ∧ tm.year + 1900 ≤ 9999

instance (tm : Tm) : Decidable (FourDigits tm) := inferInstanceAs (Decidable (_ ∧ _))

def uncached : Machine History Action TimeZone.Fault where
  enabled h
    | .setTimeZone _ => true
    | .record _ time =>
      match calendar h.zone (secondsOf time) with
      | .ok tm => decide (FourDigits tm)
      | .error _ => false
  step h
    | .setTimeZone tz => .ok { h with zone := tz }
    | .record thread time => do
      let tm ← calendar h.zone (secondsOf time)
      return { h with
        last := Function.update h.last thread (some (secondsOf time, h.zone))
        output := h.output ++ [dateTime tm ++ fraction h.zone.valid (microsecondsOf time)] }

/-- The offset from UTC at a time; the seconds are those of a record, so it is defined. -/
def gmtoff (tz : TimeZone) (seconds : Int) : Int :=
  match calendar tz seconds with
  | .ok tm => tm.gmtoff
  | .error _ => 0

/-- The microseconds are printed in six characters.  The thread's first record is not in second
`0`.  If the thread's last record was in the same second, its zone had the same offset then. -/
def CacheUsable (tz : TimeZone) (last : Option (Int × TimeZone)) (time : Timestamp) : Prop :=
  -100000 < microsecondsOf time ∧
    match last with
    | none => secondsOf time ≠ 0
    | some (second, zone) => secondsOf time = second → gmtoff zone second = gmtoff tz second

instance (tz : TimeZone) (last : Option (Int × TimeZone)) (time : Timestamp) :
    Decidable (CacheUsable tz last time) :=
  match last with
  | none => inferInstanceAs (Decidable (_ ∧ secondsOf time ≠ 0))
  | some (second, zone) =>
    inferInstanceAs (Decidable (_ ∧ (secondsOf time = second →
      gmtoff zone second = gmtoff tz second)))

def CacheAgrees (h : History) : Action → Prop
  | .setTimeZone _ => True
  | .record thread time => CacheUsable h.zone (h.last thread) time

instance (h : History) (a : Action) : Decidable (CacheAgrees h a) :=
  match a with
  | .setTimeZone _ => isTrue trivial
  | .record thread time => inferInstanceAs (Decidable (CacheUsable h.zone (h.last thread) time))

/-! ## The texts determine the time -/

theorem year_eq {tm : Tm} (h : FourDigits tm) :
    padded 4 (tm.year + 1900) = decimal (tm.year + 1900).natAbs ∧
      (decimal (tm.year + 1900).natAbs).length = 4 :=
  padded_eq_decimal (w := 3) (by have := h.1; omega) (by have := h.2; omega)

theorem length_dateTime {tm : Tm} (hb : tm.Bounds) (h : FourDigits tm) :
    (dateTime tm).length = 17 := by
  obtain ⟨hyear, hlen⟩ := year_eq h
  have hmon := length_two (n := tm.mon + 1) (by have := hb.mon; omega)
  have hmday := length_two (n := tm.mday) (by have := hb.mday; omega)
  have hhour := length_two (n := tm.hour) (by have := hb.hour; omega)
  have hmin := length_two (n := tm.min) (by have := hb.min; omega)
  have hsec := length_two (n := tm.sec) (by have := hb.sec; omega)
  simp only [dateTime, List.length_append, List.length_singleton]
  rw [hyear, hlen, hmon, hmday, hhour, hmin, hsec]

theorem seconds_eq_of_dateTime {a b : Tm} (ha : a.Bounds) (hb : b.Bounds) (ha4 : FourDigits a)
    (hb4 : FourDigits b) (h : dateTime a = dateTime b) : a.seconds = b.seconds := by
  have hmon := ha.mon
  have hmon' := hb.mon
  have hmday := ha.mday
  have hmday' := hb.mday
  have hhour := ha.hour
  have hhour' := hb.hour
  have hmin := ha.min
  have hmin' := hb.min
  have hsec := ha.sec
  have hsec' := hb.sec
  obtain ⟨hyearText, hlen⟩ := year_eq ha4
  obtain ⟨hyearText', hlen'⟩ := year_eq hb4
  unfold dateTime at h
  obtain ⟨hyear, h⟩ := List.append_inj h (by rw [hyearText, hyearText', hlen, hlen'])
  rw [hyearText, hyearText'] at hyear
  have hyear := decimal_inj hyear
  obtain ⟨hmonEq, h⟩ := two_append_inj (by omega) (by omega) h
  obtain ⟨hmdayEq, h⟩ := two_append_inj (by omega) (by omega) h
  obtain ⟨hhourEq, h⟩ := two_append_inj (by omega) (by omega) (List.append_cancel_left h)
  obtain ⟨hminEq, h⟩ := two_append_inj (by omega) (by omega) (List.append_cancel_left h)
  have hsecEq := zeroPadded_inj (List.append_cancel_left h)
  have hyearEq : a.year + 1900 = b.year + 1900 := by
    have := ha4.1
    have := hb4.1
    omega
  rw [Tm.seconds, Tm.seconds, hyearEq, hmonEq, hmdayEq, hhourEq, hminEq, hsecEq]

/-- What is printed of a record depends on the offset only. -/
theorem calendar_fields {tz : TimeZone} {seconds : Int} {tm : Tm}
    (h : calendar tz seconds = .ok tm) :
    dateTime tm = dateTime (gmtimeR (seconds + tm.gmtoff)) ∧
      tm.seconds = seconds + tm.gmtoff ∧ tm.Bounds := by
  have hlocal : ∃ isdst zone, tm =
      { gmtimeR (seconds + tm.gmtoff) with isdst := isdst, gmtoff := tm.gmtoff, zone := zone } := by
    unfold calendar at h
    split at h
    · cases tz with
      | none => cases h
      | some data =>
        obtain ⟨l, -, h⟩ := Except.bind_ok h
        obtain ⟨zone, -, h⟩ := Except.bind_ok h
        cases h
        exact ⟨l.isDst, zone, rfl⟩
    · cases h
      refine ⟨false, [71, 77, 84], ?_⟩
      simp [gmtimeR]
  obtain ⟨isdst, zone, htm⟩ := hlocal
  rw [htm]
  refine ⟨rfl, seconds_gmtimeR _, ?_⟩
  have hb := gmtimeR_bounds (seconds + tm.gmtoff)
  exact ⟨hb.mon, hb.mday, hb.hour, hb.min, hb.sec⟩

theorem dateTime_eq_iff {tz tz' : TimeZone} {seconds : Int} {tm tm' : Tm}
    (h : calendar tz seconds = .ok tm) (h' : calendar tz' seconds = .ok tm')
    (h4 : FourDigits tm) (h4' : FourDigits tm') :
    dateTime tm = dateTime tm' ↔ gmtoff tz seconds = gmtoff tz' seconds := by
  obtain ⟨htext, hseconds, hb⟩ := calendar_fields h
  obtain ⟨htext', hseconds', hb'⟩ := calendar_fields h'
  simp only [gmtoff, h, h']
  constructor
  · intro heq
    have := seconds_eq_of_dateTime hb hb' h4 h4' heq
    omega
  · intro heq
    rw [htext, htext', heq]

/-! ## One record -/

theorem length_fraction (valid : Bool) (microseconds : Int) :
    (fraction valid microseconds).length =
      (zeroPadded 6 microseconds).length + if valid then 2 else 3 := by
  cases valid with
  | true =>
    simp only [fraction, List.length_append, List.length_singleton, if_true]
    omega
  | false =>
    simp only [fraction, List.length_append, List.length_cons, List.length_nil,
      Bool.false_eq_true, if_false]
    omega

theorem fmt_eq_ok_iff {text us : Text} : fmt text = .ok us ↔ text.length < 32 ∧ text = us := by
  unfold fmt
  split
  · next h =>
    rw [snprintf_of_fits h, Except.ok.injEq]
    exact ⟨fun heq => ⟨h, heq⟩, fun heq => heq.2⟩
  · next h => exact ⟨nofun, fun heq => absurd heq.1 h⟩

theorem helperT_eq_ok_iff {str t : Text} {len : Nat} :
    helperT str len = .ok t ↔ str.length = len ∧ str = t := by
  unfold helperT
  split
  · next h =>
    rw [Except.ok.injEq]
    exact ⟨fun heq => ⟨h, heq⟩, fun heq => heq.2⟩
  · next h => exact ⟨nofun, fun heq => absurd heq.1 h⟩

/-- The asserts of the second half of `formatTime`. -/
theorem stamp_eq_ok_iff {valid : Bool} {thread : Thread} {time : Timestamp} {text : Text} :
    stamp valid thread (microsecondsOf time) = .ok text ↔
      -100000 < microsecondsOf time ∧ thread.tTime.length = 17 ∧
        text = thread.tTime ++ fraction valid (microsecondsOf time) := by
  have hlt : microsecondsOf time < 1000000 := Int.tmod_lt_of_pos _ (by decide)
  have hsix := length_zeroPadded_eq_iff (w := 6) (n := microsecondsOf time) (by decide)
  have hlen := length_fraction valid (microsecondsOf time)
  have hiff : (fraction valid (microsecondsOf time)).length = (if valid then 8 else 9) ↔
      -100000 < microsecondsOf time := by
    rw [hlen]
    constructor
    · intro h
      refine (hsix.1 ?_).1
      split at h <;> omega
    · intro h
      rw [hsix.2 ⟨h, hlt⟩]
      split <;> rfl
  constructor
  · intro h
    obtain ⟨us, hus, h⟩ := Except.bind_ok h
    obtain ⟨-, rfl⟩ := fmt_eq_ok_iff.1 hus
    by_cases hmicros : (fraction valid (microsecondsOf time)).length = (if valid then 8 else 9)
    · rw [if_pos hmicros] at h
      obtain ⟨t, ht, h⟩ := Except.bind_ok h
      obtain ⟨us, hus, h⟩ := Except.bind_ok h
      obtain ⟨htime, rfl⟩ := helperT_eq_ok_iff.1 ht
      obtain ⟨-, rfl⟩ := helperT_eq_ok_iff.1 hus
      cases h
      exact ⟨hiff.1 hmicros, htime, rfl⟩
    · rw [if_neg hmicros] at h
      cases h
  · rintro ⟨hmicros, htime, rfl⟩
    have hlen := hiff.2 hmicros
    have hfmt : fmt (fraction valid (microsecondsOf time)) = .ok _ :=
      fmt_eq_ok_iff.2 ⟨by rw [hlen]; split <;> decide, rfl⟩
    have ht : helperT thread.tTime 17 = .ok _ := helperT_eq_ok_iff.2 ⟨htime, rfl⟩
    have hus : helperT (fraction valid (microsecondsOf time)) (if valid then 8 else 9) = .ok _ :=
      helperT_eq_ok_iff.2 ⟨hlen, rfl⟩
    simp only [stamp, hfmt, bind, Except.bind, if_pos hlen, ht, hus]
    rfl

/-- What the variables of a thread hold after its last record. -/
def Thread.Holds (thread : Thread) : Option (Int × TimeZone) → Prop
  | none => thread = .init
  | some (second, zone) => thread.tLastSecond = second ∧
    ∃ tm, calendar zone second = .ok tm ∧ FourDigits tm ∧ thread.tTime = dateTime tm

section Record

variable {tz : TimeZone} {thread : Thread} {last : Option (Int × TimeZone)} {time : Timestamp}
  {tm : Tm}

/-- The text is printed anew, or the thread has its text of this second. -/
theorem refresh_cases (hth : thread.Holds last) (hcal : calendar tz (secondsOf time) = .ok tm)
    (h4 : FourDigits tm) :
    secondsOf time ≠ thread.tLastSecond ∧
        refresh tz thread (secondsOf time) = .ok ⟨dateTime tm, secondsOf time⟩ ∨
      refresh tz thread (secondsOf time) = .ok thread ∧
        (last = none ∧ secondsOf time = 0 ∧ thread.tTime = [] ∨
          ∃ zone old, last = some (secondsOf time, zone) ∧
            calendar zone (secondsOf time) = .ok old ∧ FourDigits old ∧
            thread.tTime = dateTime old) := by
  have hlen := length_dateTime (calendar_fields hcal).2.2 h4
  by_cases hsec : secondsOf time = thread.tLastSecond
  · right
    refine ⟨if_neg (by simpa using hsec), ?_⟩
    match last, hth with
    | none, hth =>
      left
      cases hth
      exact ⟨rfl, hsec, rfl⟩
    | some (second, zone), ⟨hlast, old, hold, hold4, htext⟩ =>
      right
      subst hlast
      rw [hsec]
      exact ⟨zone, old, rfl, hold, hold4, htext⟩
  · left
    refine ⟨hsec, ?_⟩
    simp only [refresh, if_pos hsec, hcal, if_pos hlen]
    rw [snprintf_of_fits (by omega)]

/-- A thread whose last second is another one has no text to use. -/
theorem cacheUsable_of_ne (hth : thread.Holds last) (hsec : secondsOf time ≠ thread.tLastSecond)
    (hmicros : -100000 < microsecondsOf time) : CacheUsable tz last time := by
  refine ⟨hmicros, ?_⟩
  match last, hth with
  | none, hth =>
    cases hth
    exact hsec
  | some (second, zone), ⟨hlast, _⟩ =>
    intro heq
    exact absurd (heq.trans hlast.symm) hsec

theorem formatTime_usable (hth : thread.Holds last)
    (hcal : calendar tz (secondsOf time) = .ok tm) (h4 : FourDigits tm)
    (h : CacheUsable tz last time) :
    ∃ thread', formatTime tz thread time =
        .ok (thread', dateTime tm ++ fraction tz.valid (microsecondsOf time)) ∧
      thread'.Holds (some (secondsOf time, tz)) := by
  have hlen := length_dateTime (calendar_fields hcal).2.2 h4
  have hheld : ∃ thread', refresh tz thread (secondsOf time) = .ok thread' ∧
      thread'.tTime = dateTime tm ∧ thread'.tLastSecond = secondsOf time := by
    obtain ⟨-, hnew⟩ | ⟨hold, hfirst | ⟨zone, old, hlast, hcal', hold4, htext⟩⟩ :=
      refresh_cases hth hcal h4
    · exact ⟨_, hnew, rfl, rfl⟩
    · obtain ⟨rfl, hzero, -⟩ := hfirst
      exact absurd hzero h.2
    · subst hlast
      refine ⟨thread, hold, ?_, hth.1⟩
      rw [htext, dateTime_eq_iff hcal' hcal hold4 h4]
      exact h.2 rfl
  obtain ⟨thread', hrefresh, htext, hsecond⟩ := hheld
  have hstamp : stamp tz.valid thread' (microsecondsOf time) =
      .ok (dateTime tm ++ fraction tz.valid (microsecondsOf time)) :=
    stamp_eq_ok_iff.2 ⟨h.1, by rw [htext, hlen], by rw [htext]⟩
  refine ⟨thread', ?_, hsecond, tm, hcal, h4, htext⟩
  simp only [formatTime, hrefresh, hstamp, bind, Except.bind]
  rfl

/-- Otherwise an assert fails, or the text is that of another offset. -/
theorem formatTime_not_usable (hth : thread.Holds last)
    (hcal : calendar tz (secondsOf time) = .ok tm) (h4 : FourDigits tm)
    (h : ¬ CacheUsable tz last time) {thread' : Thread} {text : Text}
    (hf : formatTime tz thread time = .ok (thread', text)) :
    text ≠ dateTime tm ++ fraction tz.valid (microsecondsOf time) := by
  obtain ⟨thread₁, hrefresh, hf⟩ := Except.bind_ok hf
  obtain ⟨text₁, hstamp, hf⟩ := Except.bind_ok hf
  cases hf
  obtain ⟨hmicros, hlen, rfl⟩ := stamp_eq_ok_iff.1 hstamp
  obtain ⟨hne, -⟩ | ⟨hold, hfirst | ⟨zone, old, hlast, hcal', hold4, htext⟩⟩ :=
    refresh_cases hth hcal h4
  · exact absurd (cacheUsable_of_ne hth hne hmicros) h
  · rw [hold] at hrefresh
    cases hrefresh
    rw [hfirst.2.2] at hlen
    cases hlen
  · rw [hold] at hrefresh
    cases hrefresh
    intro heq
    have heq := List.append_cancel_right heq
    rw [htext, dateTime_eq_iff hcal' hcal hold4 h4] at heq
    subst hlast
    exact h ⟨hmicros, fun _ => heq⟩

end Record

/-! ## Runs -/

structure Follows (s : Logger) (h : History) : Prop where
  zone : s.gLogTimeZone = h.zone
  output : s.output = h.output
  threads : ∀ t, (s.threads t).Holds (h.last t)

theorem follows_init : Follows .init .init := ⟨rfl, rfl, fun _ => rfl⟩

theorem uncached_record {h h' : History} {thread : Nat} {time : Timestamp}
    (he : uncached.enabled h (.record thread time) = true)
    (hh' : uncached.step h (.record thread time) = .ok h') :
    ∃ tm, calendar h.zone (secondsOf time) = .ok tm ∧ FourDigits tm ∧
      h' = { h with
        last := Function.update h.last thread (some (secondsOf time, h.zone))
        output := h.output ++ [dateTime tm ++ fraction h.zone.valid (microsecondsOf time)] } := by
  obtain ⟨tm, hcal, hh'⟩ := Except.bind_ok hh'
  cases hh'
  simp only [uncached, hcal, decide_eq_true_eq] at he
  exact ⟨tm, hcal, he, rfl⟩

theorem Follows.take {s : Logger} {h h' : History} {a : Action} (hf : Follows s h)
    (he : uncached.enabled h a = true) (hh' : uncached.step h a = .ok h')
    (hP : CacheAgrees h a) :
    logger.enabled s a = true ∧ ∃ s', logger.step s a = .ok s' ∧ Follows s' h' := by
  refine ⟨rfl, ?_⟩
  cases a with
  | setTimeZone tz =>
    cases hh'
    exact ⟨_, rfl, rfl, hf.output, hf.threads⟩
  | record thread time =>
    obtain ⟨tm, hcal, h4, rfl⟩ := uncached_record he hh'
    obtain ⟨cache, hformat, hholds⟩ := formatTime_usable (hf.threads thread) hcal h4 hP
    refine ⟨{ s with
      threads := Function.update s.threads thread cache
      output := s.output ++ [dateTime tm ++ fraction h.zone.valid (microsecondsOf time)] }, ?_,
      hf.zone, ?_, ?_⟩
    · simp only [logger, hf.zone, hformat, bind, Except.bind]
      rfl
    · dsimp only
      rw [hf.output]
    · intro t
      by_cases ht : t = thread
      · subst ht
        simpa using hholds
      · simpa [Function.update_of_ne ht] using hf.threads t

/-- The texts so far differ, one for one. -/
def Differs (s : Logger) (h : History) : Prop :=
  s.output.length = h.output.length ∧ s.output ≠ h.output

theorem Follows.lost {s s' : Logger} {h h' : History} {a : Action} (hf : Follows s h)
    (he : uncached.enabled h a = true) (hh' : uncached.step h a = .ok h')
    (hP : ¬ CacheAgrees h a) (hs' : logger.step s a = .ok s') : Differs s' h' := by
  cases a with
  | setTimeZone tz => exact absurd trivial hP
  | record thread time =>
    obtain ⟨tm, hcal, h4, rfl⟩ := uncached_record he hh'
    obtain ⟨⟨cache, text⟩, hformat, hs'⟩ := Except.bind_ok hs'
    cases hs'
    rw [hf.zone] at hformat
    have htext := formatTime_not_usable (hf.threads thread) hcal h4 hP hformat
    refine ⟨by simp [hf.output], ?_⟩
    rw [hf.output]
    simpa using htext

theorem Differs.stays {s s' : Logger} {h h' : History} {a : Action} (hd : Differs s h)
    (hh' : uncached.step h a = .ok h') (hs' : logger.step s a = .ok s') : Differs s' h' := by
  cases a with
  | setTimeZone tz =>
    cases hh'
    cases hs'
    exact hd
  | record thread time =>
    obtain ⟨tm, -, hh'⟩ := Except.bind_ok hh'
    obtain ⟨⟨cache, text⟩, -, hs'⟩ := Except.bind_ok hs'
    cases hh'
    cases hs'
    refine ⟨by simp [hd.1], ?_⟩
    intro heq
    exact hd.2 (List.append_inj heq hd.1).1

/-- For every list of zone changes and of records with years of four digits: the logger writes
them all, each with the text of its own time in the zone that is set, exactly if every record
meets `CacheUsable`. -/
theorem logger_writes_uncached_iff {as : List Action} {u : History}
    (h : uncached.run .init as = some u) :
    (∃ s, logger.run .init as = some s ∧ s.output = u.output) ↔
      uncached.StepsMeet (fun h a _ => CacheAgrees h a) .init as :=
  Machine.exists_run_and_iff (R := Follows) (B := Differs) (Q := fun s h => s.output = h.output)
    (fun _ _ _ _ hf he hh' hP => hf.take he hh' hP)
    (fun _ _ _ _ _ hf he hh' hP _ hs' => hf.lost he hh' hP hs')
    (fun _ _ _ _ _ hd hh' hs' => hd.stays hh' hs')
    (fun _ _ hf => hf.output) (fun _ _ hd => hd.2) follows_init h

/-- A record in UTC, then in the next second one in Beijing time. -/
def utcThenBeijing : List Action :=
  [.record 0 1600000000000000, .setTimeZone (TimeZone.fixed 28800 [67, 83, 84]),
    .record 0 1600000001250000]

theorem utcThenBeijing_agrees : ∃ s, logger.run .init utcThenBeijing = some s ∧
    s.output = ["20200913 12:26:40.000000Z ".toList, "20200913 20:26:41.250000 ".toList] := by
  have hrun : ∃ u, uncached.run .init utcThenBeijing = some u ∧
      u.output = ["20200913 12:26:40.000000Z ".toList, "20200913 20:26:41.250000 ".toList] :=
    ⟨_, rfl, by decide⟩
  obtain ⟨u, hu, htexts⟩ := hrun
  obtain ⟨s, hs, hout⟩ := (logger_writes_uncached_iff hu).2 (by decide)
  exact ⟨s, hs, hout.trans htexts⟩

/-- Two records of one second, with a change of the zone between them: the second one shows the
time in UTC, but the zone is Beijing's and no `Z` follows. -/
def sameSecond : List Action :=
  [.record 0 1600000000000000, .setTimeZone (TimeZone.fixed 28800 [67, 83, 84]),
    .record 0 1600000000500000]

theorem sameSecond_stale_text : ∃ s u, uncached.run .init sameSecond = some u ∧
    logger.run .init sameSecond = some s ∧
    s.output = ["20200913 12:26:40.000000Z ".toList, "20200913 12:26:40.500000 ".toList] ∧
    u.output = ["20200913 12:26:40.000000Z ".toList, "20200913 20:26:40.500000 ".toList] ∧
    s.output ≠ u.output := by
  refine ⟨_, _, rfl, rfl, by decide, by decide, by decide⟩

end Logging

end Rawmd
