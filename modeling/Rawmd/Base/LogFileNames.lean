import Rawmd.Lib.TextOrder
import Rawmd.Base.LogFile

/-!
# `base/LogFile.cpp`: the order of the file names

The date and the time stand before the host name and the process id, from the year down to the
second and with a fixed number of digits.  So the names of the files, sorted as texts, are in the
order in which the files were opened, until the year 10000.

    a.now < b.now → getLogFileName basename a < getLogFileName basename b    (getLogFileName_lt)
-/

namespace Rawmd

open Printf

namespace LogFile

variable {a b : Reading}

/-! ## Names -/

theorem civil_valid (now : Int) :
    Civil.Valid ⟨(gmtimeR now).year + 1900, (gmtimeR now).mon + 1, (gmtimeR now).mday⟩ := by
  simp only [gmtimeR, Int.sub_add_cancel]
  exact Civil.ofDays_valid _

/-- Later is the date, or on the same day the time. -/
theorem date_before {now now' : Int} (h : now < now') :
    Civil.Before ⟨(gmtimeR now).year + 1900, (gmtimeR now).mon + 1, (gmtimeR now).mday⟩
      ⟨(gmtimeR now').year + 1900, (gmtimeR now').mon + 1, (gmtimeR now').mday⟩ ∨
    ((gmtimeR now).year = (gmtimeR now').year ∧ (gmtimeR now).mon = (gmtimeR now').mon ∧
      (gmtimeR now).mday = (gmtimeR now').mday ∧
      (gmtimeR now).hour * 3600 + (gmtimeR now).min * 60 + (gmtimeR now).sec <
        (gmtimeR now').hour * 3600 + (gmtimeR now').min * 60 + (gmtimeR now').sec) := by
  have hseconds : (gmtimeR now).seconds < (gmtimeR now').seconds := by
    rwa [seconds_gmtimeR, seconds_gmtimeR]
  unfold Tm.seconds at hseconds
  have hb := gmtimeR_bounds now
  have hb' := gmtimeR_bounds now'
  have hhour := hb.hour
  have hmin := hb.min
  have hsec := hb.sec
  have hhour' := hb'.hour
  have hmin' := hb'.min
  have hsec' := hb'.sec
  rcases Civil.before_or_eq_or_before
    ⟨(gmtimeR now).year + 1900, (gmtimeR now).mon + 1, (gmtimeR now).mday⟩
    ⟨(gmtimeR now').year + 1900, (gmtimeR now').mon + 1, (gmtimeR now').mday⟩ with
    hlt | heq | hgt
  · exact .inl hlt
  · rw [heq] at hseconds
    simp only [Civil.mk.injEq] at heq
    exact .inr (by omega)
  · have hdays := Civil.toDays_lt_of_before (civil_valid now') (civil_valid now) hgt
    unfold kSecondsPerDay at hseconds
    omega

theorem year_le {now now' : Int} (h : now ≤ now') : (gmtimeR now).year ≤ (gmtimeR now').year := by
  rcases Int.lt_or_eq_of_le h with hlt | rfl
  · rcases date_before hlt with hbefore | ⟨hyear, -⟩
    · unfold Civil.Before at hbefore
      dsimp only at hbefore
      omega
    · exact le_of_eq hyear
  · exact Int.le_refl _

theorem length_year {now : Int} (h : 0 ≤ now) (h4 : (gmtimeR now).year + 1900 ≤ 9999) :
    (decimal ((gmtimeR now).year + 1900).natAbs).length = 4 := by
  have hepoch : (gmtimeR 0).year = 70 := by decide
  have hyear := year_le h
  rw [hepoch] at hyear
  have hle := (length_decimal_le_iff (n := ((gmtimeR now).year + 1900).natAbs) (k := 4)
    (by decide)).2 (by omega)
  have hgt := mt (length_decimal_le_iff (n := ((gmtimeR now).year + 1900).natAbs) (k := 3)
    (by decide)).1 (by omega)
  omega

theorem timebuf_lt {now now' : Int} (hnow : 0 ≤ now) (h : now < now')
    (h4 : (gmtimeR now').year + 1900 ≤ 9999) (s t : Text) :
    timebuf (gmtimeR now) ++ s < timebuf (gmtimeR now') ++ t := by
  have hb := gmtimeR_bounds now
  have hb' := gmtimeR_bounds now'
  have hmon := hb.mon
  have hmday := hb.mday
  have hhour := hb.hour
  have hmin := hb.min
  have hsec := hb.sec
  have hmon' := hb'.mon
  have hmday' := hb'.mday
  have hhour' := hb'.hour
  have hmin' := hb'.min
  have hsec' := hb'.sec
  have hyears := year_le (Int.le_of_lt h)
  have hpos := year_le hnow
  have hepoch : (gmtimeR 0).year = 70 := by decide
  have hlen := length_year hnow (by omega)
  have hnow' : 0 ≤ now' := by omega
  have hlen' := length_year hnow' h4
  have hdate := date_before h
  unfold Civil.Before at hdate
  dsimp only at hdate
  simp only [timebuf, List.append_assoc]
  refine append_lt_append_left _ ?_
  rw [signed, signed, if_neg (by omega), if_neg (by omega)]
  by_cases hyear : (gmtimeR now).year = (gmtimeR now').year
  · rw [hyear]
    refine append_lt_append_left _ (two_append_lt (by omega) (by omega) ?_)
    by_cases hmonEq : (gmtimeR now).mon = (gmtimeR now').mon
    · refine .inr ⟨by omega, two_append_lt (by omega) (by omega) ?_⟩
      by_cases hmdayEq : (gmtimeR now).mday = (gmtimeR now').mday
      · refine .inr ⟨hmdayEq, append_lt_append_left _ (two_append_lt (by omega) (by omega) ?_)⟩
        by_cases hhourEq : (gmtimeR now).hour = (gmtimeR now').hour
        · refine .inr ⟨hhourEq, two_append_lt (by omega) (by omega) ?_⟩
          by_cases hminEq : (gmtimeR now).min = (gmtimeR now').min
          · exact .inr ⟨hminEq, two_append_lt (by omega) (by omega) (.inl (by omega))⟩
          · exact .inl (by omega)
        · exact .inl (by omega)
      · exact .inl (by omega)
    · exact .inl (by omega)
  · refine append_lt_append (hlen.trans hlen'.symm) ?_ _ _
    exact decimal_lt (hlen.trans hlen'.symm) (by omega)

theorem getLogFileName_lt {basename : Text} (ha : 0 < a.now) (h : a.now < b.now)
    (h4 : (gmtimeR b.now).year + 1900 ≤ 9999) :
    getLogFileName basename a < getLogFileName basename b :=
  append_lt_append_left _ (timebuf_lt (Int.le_of_lt ha) h h4 _ _)

/-! ## Files -/

variable {fwrite : Nat → Nat → Nat} {cfg : Config} {s t : State} {reading : Reading}

/-- **Sorted by name, the files are in the order in which they were opened**, whatever the clock
reads, however the host and the process are called and whatever of a line `fwrite` accepts, as
long as the years have four digits. -/
theorem logFile_names_sorted (actions : List Action) (hs : construct cfg reading = .ok s)
    (hr : (logFile fwrite cfg).run s actions = some t)
    (h4 : (gmtimeR t.lastRoll).year + 1900 ≤ 9999) :
    (t.files.map fun f => f.file.filename).Pairwise (· < ·) := by
  have hkeeps : (logFile fwrite cfg).Keeps (fun _ _ _ => True) (Named cfg) :=
    fun s a t h _ _ ht => h.step ht
  have h := hkeeps.run_all (Named.construct hs) hr
  refine List.pairwise_map.2 (h.increasing.imp_of_mem ?_)
  intro f g hf hg hlt
  obtain ⟨rf, hnamef, hnowf, hposf⟩ := h.names f hf
  obtain ⟨rg, hnameg, hnowg, -⟩ := h.names g hg
  have hyear := year_le (h.latest g hg)
  rw [hnamef, hnameg]
  refine getLogFileName_lt ?_ ?_ ?_
  · rw [hnowf]
    exact hposf
  · rw [hnowf, hnowg]
    exact hlt
  · rw [hnowg]
    omega

/-- A file more, two seconds later, when the host is no longer called `z` but `a`. -/
def twoSeconds : List Action :=
  [.append "ab".toList 1000000001 ⟨1000000001, "a".toList, 7, true⟩,
    .rollFile ⟨1000000001, "a".toList, 7, true⟩]

theorem twoSeconds_sorted :
    ∃ s t, construct ⟨"x".toList, 100, 3, 1024⟩ ⟨999999999, "z".toList, 9, true⟩ = .ok s ∧
      (logFile (fun _ n => min n 1) ⟨"x".toList, 100, 3, 1024⟩).run s twoSeconds = some t ∧
      t.files.length = 2 ∧ (t.files.map fun f => f.file.filename).Pairwise (· < ·) := by
  have hrun : ∃ s t, construct ⟨"x".toList, 100, 3, 1024⟩ ⟨999999999, "z".toList, 9, true⟩ = .ok s ∧
      (logFile (fun _ n => min n 1) ⟨"x".toList, 100, 3, 1024⟩).run s twoSeconds = some t ∧
      t.files.length = 2 ∧ t.lastRoll = 1000000001 := ⟨_, _, rfl, rfl, rfl, rfl⟩
  obtain ⟨s, t, hs, ht, hlen, hroll⟩ := hrun
  refine ⟨s, t, hs, ht, hlen, logFile_names_sorted twoSeconds hs ht ?_⟩
  rw [hroll]
  decide

end LogFile

end Rawmd
