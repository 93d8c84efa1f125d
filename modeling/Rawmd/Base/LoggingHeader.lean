import Rawmd.Base.LoggingRecord

/-!
# `base/Logging.cpp`: the asserts of the record header

The constructor of `Logger::Impl` takes the length of each field for granted: 17 characters of
date and time, 8 or 9 of the microseconds, 6 of the thread id (`t_tidStringLength`) and 6 of the
level.  The fields themselves come from formats with a minimum width.

    a header is printed ↔ the thread id has at most five digits, and the date is one of four
      digits that is printed now or was by the thread's last record   (header_wellFormed_iff)
-/

namespace Rawmd

open Printf MachineInt LogStream

namespace Logging

/-- `date time.micros[Z] tid LEVEL `, each field with the length that is taken for granted and
separated from the next. -/
structure WellFormed {Double : Type} (valid : Bool) (record : Record)
    (date us tid level : Text) (xs : List (Insertion Double)) : Prop where
  fields : [.append (pieceOf date), .append (pieceOf us), .append (pieceOf tid),
    .append (pieceOf level)] <+: xs
  date_eq : ∃ tm : Tm, tm.Bounds ∧ date = dateTime tm
  date_length : date.length = 17
  us_eq : us = fraction valid (microsecondsOf record.time)
  us_length : us.length = if valid then 8 else 9
  tid_eq : tid = tidString record.tid
  tid_length : tid.length = 6
  tid_blank : tid.getLast? = some ' '
  level_eq : level = logLevelName record.constructor.logLevel
  level_length : level.length = 6
  level_blank : level.getLast? = some ' '

/-- What the variables of a thread can hold: nothing yet, or a date of 17 characters. -/
def Thread.Printed (thread : Thread) : Prop :=
  thread.tTime = [] ∨ thread.tTime.length = 17 ∧ ∃ tm : Tm, tm.Bounds ∧ thread.tTime = dateTime tm

/-- The date of the record is printed now, with a year that has room in four characters, or the
thread has printed a date for this second. -/
def DateFits (tz : TimeZone) (thread : Thread) (time : Timestamp) : Prop :=
  if secondsOf time = thread.tLastSecond then thread.tTime ≠ []
  else ∃ tm, calendar tz (secondsOf time) = .ok tm ∧ -999 ≤ tm.year + 1900 ∧ tm.year + 1900 ≤ 9999

/-! ## The date -/

theorem length_dateTime_eq_iff {tm : Tm} (hb : tm.Bounds) :
    (dateTime tm).length = 17 ↔ -999 ≤ tm.year + 1900 ∧ tm.year + 1900 ≤ 9999 := by
  have hyear := length_padded_eq_iff (w := 4) (n := tm.year + 1900) (by decide)
  have hmon := length_two (n := tm.mon + 1) (by have := hb.mon; omega)
  have hmday := length_two (n := tm.mday) (by have := hb.mday; omega)
  have hhour := length_two (n := tm.hour) (by have := hb.hour; omega)
  have hmin := length_two (n := tm.min) (by have := hb.min; omega)
  have hsec := length_two (n := tm.sec) (by have := hb.sec; omega)
  simp only [dateTime, List.length_append, List.length_singleton]
  omega

theorem refresh_printed {tz : TimeZone} {thread thread' : Thread} {seconds : Int}
    (hthread : thread.Printed) (h : refresh tz thread seconds = .ok thread') :
    thread'.Printed := by
  unfold refresh at h
  split at h
  · split at h
    · cases h
    · next tm hcal =>
      split at h
      · next hlen =>
        cases h
        have hfits : snprintf 32 (dateTime tm) = dateTime tm := snprintf_of_fits (by omega)
        exact .inr ⟨by rw [hfits, hlen], tm, (calendar_fields hcal).2.2, hfits⟩
      · cases h
  · cases h
    exact hthread

theorem threads_printed {actions : List Action} {s : Logger}
    (h : logger.run .init actions = some s) (thread : Nat) : (s.threads thread).Printed :=
  threads_keep (.inl rfl) (fun _ _ _ _ => refresh_printed) h thread

/-- The asserts of `formatTime`, for a time from the epoch on. -/
theorem formatTime_ok_iff (tz : TimeZone) {thread : Thread} (hthread : thread.Printed)
    {time : Int} (htime : 0 ≤ time) :
    (∃ r, formatTime tz thread time = .ok r) ↔ DateFits tz thread time := by
  have hmicros : 0 ≤ microsecondsOf time := Int.tmod_nonneg _ htime
  have hstamp (thread' : Thread) :
      (∃ text, stamp tz.valid thread' (microsecondsOf time) = .ok text) ↔
        thread'.tTime.length = 17 := by
    constructor
    · rintro ⟨text, htext⟩
      exact (stamp_eq_ok_iff.1 htext).2.1
    · intro hlen
      exact ⟨_, stamp_eq_ok_iff.2 ⟨by omega, hlen, rfl⟩⟩
  have hformat : (∃ r, formatTime tz thread time = .ok r) ↔
      ∃ thread', refresh tz thread (secondsOf time) = .ok thread' ∧ thread'.tTime.length = 17 := by
    constructor
    · rintro ⟨r, hr⟩
      obtain ⟨thread', hrefresh, hr⟩ := Except.bind_ok hr
      obtain ⟨text, htext, -⟩ := Except.bind_ok hr
      exact ⟨thread', hrefresh, (hstamp thread').1 ⟨text, htext⟩⟩
    · rintro ⟨thread', hrefresh, hlen⟩
      obtain ⟨text, htext⟩ := (hstamp thread').2 hlen
      refine ⟨(thread', text), ?_⟩
      simp only [formatTime, hrefresh, htext, bind, Except.bind]
      rfl
  rw [hformat, DateFits]
  by_cases hsec : secondsOf time = thread.tLastSecond
  · have hrefresh : refresh tz thread (secondsOf time) = .ok thread := if_neg (by simpa using hsec)
    rw [if_pos hsec, hrefresh]
    constructor
    · rintro ⟨thread', heq, hlen⟩ hnil
      cases heq
      rw [hnil] at hlen
      cases hlen
    · intro hne
      exact ⟨thread, rfl, (hthread.resolve_left hne).1⟩
  · rw [if_neg hsec, refresh, if_pos hsec]
    cases hcal : calendar tz (secondsOf time) with
    | error fault => simp
    | ok tm =>
      have hiff := length_dateTime_eq_iff (calendar_fields hcal).2.2
      dsimp only
      constructor
      · rintro ⟨thread', heq, -⟩
        split at heq
        · next hlen => exact ⟨tm, rfl, hiff.1 hlen⟩
        · cases heq
      · rintro ⟨tm', heq, hyear⟩
        cases heq
        have hlen := hiff.2 hyear
        rw [if_pos hlen]
        exact ⟨_, rfl, by rw [snprintf_of_fits (by omega), hlen]⟩

/-! ## The other fields -/

theorem tidString_length_iff {tid : Int32} (h : 1 ≤ tid.toInt) :
    (tidString tid).length = 6 ↔ tid.toInt ≤ 99999 := by
  have hiff := length_padded_eq_iff (w := 5) (n := tid.toInt) (by decide)
  have hlen := length_padded 5 tid.toInt
  rw [tidString, snprintf, List.length_take, List.length_append, List.length_singleton]
  omega

theorem tidString_getLast {tid : Int32} (h : (tidString tid).length = 6) :
    (tidString tid).getLast? = some ' ' := by
  unfold tidString snprintf at h ⊢
  rw [List.length_take, List.length_append, List.length_singleton] at h
  rw [List.take_of_length_le (by rw [List.length_append, List.length_singleton]; omega),
    List.getLast?_concat]

theorem level_length (level : LogLevel) :
    (logLevelName level).length = 6 ∧ (logLevelName level).getLast? = some ' ' := by
  cases level <;> decide

/-- A time before the epoch has an earlier year. -/
theorem nonneg_of_year {time : Int}
    (h : 1970 ≤ (gmtimeR (time / kMicroSecondsPerSecond)).year + 1900) : 0 ≤ time := by
  by_contra hneg
  have hdays : (time / kMicroSecondsPerSecond) / kSecondsPerDay < 0 := by
    unfold kMicroSecondsPerSecond kSecondsPerDay
    omega
  have hvalid : Civil.Valid ⟨1970, 1, 1⟩ := ⟨by decide, by decide, by decide, by decide⟩
  have hbefore : Civil.Before (Civil.ofDays ((time / kMicroSecondsPerSecond) / kSecondsPerDay))
      ⟨1970, 1, 1⟩ := by
    refine Civil.before_of_toDays_lt (Civil.ofDays_valid _) hvalid ?_
    rw [Civil.toDays_ofDays]
    exact hdays
  have hbounds := Civil.ofDays_bounds ((time / kMicroSecondsPerSecond) / kSecondsPerDay)
  simp only [gmtimeR] at h
  unfold Civil.Before at hbefore
  dsimp only at hbefore
  omega

theorem header_of_formatTime {Double : Type} {tz : TimeZone} {thread cache : Thread}
    (strerror : Int32 → Text) {record : Record} {text : Text}
    (hthread : thread.Printed) (hformat : formatTime tz thread record.time = .ok (cache, text))
    (htid : (tidString record.tid).length = 6) :
    ∃ (xs : List (Insertion Double)) (date us tid level : Text),
      header tz thread strerror record = .ok (cache, xs) ∧
      WellFormed tz.valid record date us tid level xs := by
  obtain ⟨hlevel, hblank⟩ := level_length record.constructor.logLevel
  have htidOk : helperT (tidString record.tid) 6 = .ok _ := helperT_eq_ok_iff.2 ⟨htid, rfl⟩
  have hlevelOk : helperT (logLevelName record.constructor.logLevel) 6 = .ok _ :=
    helperT_eq_ok_iff.2 ⟨hlevel, rfl⟩
  obtain ⟨cache', hcache, hstamp⟩ := Except.bind_ok hformat
  obtain ⟨text', hstamp, heq⟩ := Except.bind_ok hstamp
  cases heq
  obtain ⟨hmicros, hlen, rfl⟩ := stamp_eq_ok_iff.1 hstamp
  have hdate : ∃ tm : Tm, tm.Bounds ∧ cache.tTime = dateTime tm := by
    rcases refresh_printed hthread hcache with hnil | ⟨-, hdate⟩
    · rw [hnil] at hlen
      cases hlen
    · exact hdate
  have hsix : (zeroPadded 6 (microsecondsOf record.time)).length = 6 := by
    have hlt : microsecondsOf record.time < 1000000 := Int.tmod_lt_of_pos _ (by decide)
    exact (length_zeroPadded_eq_iff (by decide)).2 ⟨hmicros, hlt⟩
  have hus : (fraction tz.valid (microsecondsOf record.time)).length =
      if tz.valid then 8 else 9 := by
    rw [length_fraction, hsix]
    split <;> rfl
  simp only [header, hformat, htidOk, hlevelOk, bind, Except.bind]
  refine ⟨_, cache.tTime, fraction tz.valid (microsecondsOf record.time), tidString record.tid,
    logLevelName record.constructor.logLevel, rfl, ?_, hdate, hlen, rfl, hus, rfl, htid,
    tidString_getLast htid, rfl, hlevel, hblank⟩
  rw [List.take_left' hlen, List.drop_left' hlen, List.append_assoc]
  exact List.prefix_append _ _

/-- The header of a record is printed, with the fields that the code takes for granted, exactly if
the thread id has at most five digits and the date fits. -/
theorem header_wellFormed_iff {Double : Type} {actions : List Action} {s : Logger}
    (hs : logger.run .init actions = some s) (thread : Nat) (strerror : Int32 → Text)
    (record : Record)
    (hyear : 1970 ≤ (gmtimeR (record.time / kMicroSecondsPerSecond)).year + 1900 ∧
      (gmtimeR (record.time / kMicroSecondsPerSecond)).year + 1900 ≤ 9999)
    (htid : 1 ≤ record.tid.toInt ∧ record.tid.toInt ≤ 4194304) :
    (∃ (cache : Thread) (xs : List (Insertion Double)) (date us tid level : Text),
      header s.gLogTimeZone (s.threads thread) strerror record = .ok (cache, xs) ∧
      WellFormed s.gLogTimeZone.valid record date us tid level xs) ↔
    record.tid.toInt ≤ 99999 ∧ DateFits s.gLogTimeZone (s.threads thread) record.time := by
  have hthread := threads_printed hs thread
  have hformat := formatTime_ok_iff s.gLogTimeZone hthread (nonneg_of_year hyear.1)
  rw [← tidString_length_iff htid.1, ← hformat]
  constructor
  · rintro ⟨cache, xs, date, us, tid, level, hheader, hwell⟩
    obtain ⟨r, hr, -⟩ := Except.bind_ok hheader
    exact ⟨hwell.tid_eq ▸ hwell.tid_length, r, hr⟩
  · rintro ⟨hlen, ⟨cache, text⟩, hr⟩
    obtain ⟨xs, date, us, tid, level, hheader, hwell⟩ :=
      header_of_formatTime strerror hthread hr hlen
    exact ⟨cache, xs, date, us, tid, level, hheader, hwell⟩

theorem exampleRecord_wellFormed :
    ∃ (cache : Thread) (xs : List (Insertion UInt8)) (date us tid level : Text),
      header none .init (fun _ => []) exampleRecord = .ok (cache, xs) ∧
      WellFormed false exampleRecord date us tid level xs := by
  have hrun : logger.run .init [] = some .init := rfl
  refine (header_wellFormed_iff hrun 0 (fun _ => []) exampleRecord
    ⟨by decide, by decide⟩ ⟨by decide, by decide⟩).2 ⟨by decide, ?_⟩
  rw [DateFits, if_neg (by decide)]
  exact ⟨gmtimeR 1600000000, rfl, by decide, by decide⟩

/-- The same record from a thread whose id has six digits. -/
def sixDigits : Record := { exampleRecord with tid := 100000 }

/-- The id is printed with its blank in seven characters, `assert(strlen(str) == len_)` fails. -/
theorem sixDigits_header :
    (1970 ≤ (gmtimeR (sixDigits.time / kMicroSecondsPerSecond)).year + 1900 ∧
      (gmtimeR (sixDigits.time / kMicroSecondsPerSecond)).year + 1900 ≤ 9999) ∧
    (1 ≤ sixDigits.tid.toInt ∧ sixDigits.tid.toInt ≤ 4194304) ∧
    tidString sixDigits.tid = "100000 ".toList ∧
    (header none .init (fun _ => []) sixDigits : Except Fault (Thread × List (Insertion UInt8))) =
      .error .strlen := by
  refine ⟨⟨by decide, by decide⟩, ⟨by decide, by decide⟩, by decide, ?_⟩
  have htime : formatTime none .init 1600000000000000 =
      .ok (exampleCache, "20200913 12:26:40.000000Z ".toList) := rfl
  have htid : helperT (tidString 100000) 6 = .error .strlen := rfl
  simp only [header, sixDigits, exampleRecord, htime, htid, bind, Except.bind]

end Logging

end Rawmd
