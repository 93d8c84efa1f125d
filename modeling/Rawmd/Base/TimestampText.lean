import Rawmd.Base.Logging

/-!
# `base/Timestamp.cpp`: time stamps as text

`toString` and `toFormattedString` split the microseconds with `/` and `%`, which round towards
zero.  From the epoch on that is the second of the instant and the microseconds in it; before
the epoch it is the second after it and a negative number, unless the instant is a whole second.

    the texts denote the instant  ↔  0 ≤ v ∨ v is a whole second      (text_denotes_iff)
-/

namespace Rawmd

open Printf MachineInt Logging

namespace Timestamp

/-- `"%" PRId64 ".%06" PRId64` -/
def plainText (t : Timestamp) : Text :=
  signed (secondsOf t) ++ '.' :: zeroPadded 6 (microsecondsOf t)

/-- The last byte of `buf` is not given to `snprintf`. -/
def toString (t : Timestamp) : Text := snprintf 31 (plainText t)

/-- `"%4d%02d%02d %02d:%02d:%02d"`, with `".%06d"` if the microseconds are shown. -/
def formattedText (t : Timestamp) (showMicroseconds : Bool) : Text :=
  let tm := gmtimeR (secondsOf t)
  if showMicroseconds then dateTime tm ++ '.' :: zeroPadded 6 (microsecondsOf t)
  else dateTime tm

def toFormattedString (t : Timestamp) (showMicroseconds : Bool) : Text :=
  snprintf 32 (formattedText t showMicroseconds)

/-- An optional minus sign, decimal seconds, a dot and six digits, together the value `v / 10^6`. -/
def Denotes (text : Text) (v : Int) : Prop :=
  ∃ (minus : Bool) (s m : Nat),
    text = (if minus then ['-'] else []) ++ (decimal s ++ '.' :: zeros 6 m) ∧ m < 10 ^ 6 ∧
    (if minus then -(s * 10 ^ 6 + m : Int) else s * 10 ^ 6 + m) = v

/-- The calendar second that contains the instant, and the microseconds since it began. -/
def ShowsInstant (text : Text) (v : Int) : Prop :=
  text = dateTime (gmtimeR (v / 10 ^ 6)) ++ '.' :: zeros 6 (v % 10 ^ 6).toNat ∧
    (zeros 6 (v % 10 ^ 6).toNat).length = 6

/-! ## Seconds and microseconds -/

theorem split (t : Int) : secondsOf t * 1000000 + microsecondsOf t = t :=
  Int.tdiv_mul_add_tmod t 1000000

theorem microsecondsOf_bounds (t : Int) :
    -1000000 < microsecondsOf t ∧ microsecondsOf t < 1000000 :=
  ⟨Int.lt_tmod_of_pos t (by decide), Int.tmod_lt_of_pos t (by decide)⟩

/-- From the epoch on, and at whole seconds, rounding towards zero is rounding down. -/
theorem split_eq {t : Int} (h : 0 ≤ t ∨ 1000000 ∣ t) :
    secondsOf t = t / 1000000 ∧ microsecondsOf t = t % 1000000 := by
  rcases h with h | h
  · exact ⟨Int.tdiv_eq_ediv_of_nonneg h, Int.tmod_eq_emod_of_nonneg h⟩
  · refine ⟨Int.tdiv_eq_ediv_of_dvd h, ?_⟩
    rw [Int.emod_eq_zero_of_dvd h]
    exact Int.tmod_eq_zero_of_dvd h

theorem microsecondsOf_neg {t : Int} (h : ¬ (0 ≤ t ∨ 1000000 ∣ t)) :
    microsecondsOf t < 0 := by
  rw [not_or] at h
  have hne : microsecondsOf t ≠ 0 := fun he => h.2 (Int.dvd_of_tmod_eq_zero he)
  have hneg : (-t).tmod 1000000 = -microsecondsOf t := Int.neg_tmod t 1000000
  have hnonneg : 0 ≤ (-t).tmod 1000000 := Int.tmod_nonneg _ (by omega)
  omega

theorem secondsOf_lt {t : Int} (h : Fits 64 t) : (secondsOf t).natAbs < 10 ^ 13 := by
  unfold Fits at h
  have := split t
  have := microsecondsOf_bounds t
  omega

/-! ## The buffers are large enough -/

theorem length_zeroPadded_six (t : Int) : (zeroPadded 6 (microsecondsOf t)).length ≤ 7 := by
  have hb := microsecondsOf_bounds t
  have hfive : (zeros 5 (microsecondsOf t).natAbs).length ≤ 6 := by
    rw [length_zeros]
    have := (length_decimal_le_iff (n := (microsecondsOf t).natAbs) (k := 6) (by decide)).2
      (by omega)
    omega
  have hsix : (zeros 6 (microsecondsOf t).natAbs).length = 6 :=
    (length_zeros_eq_iff (by decide)).2 (by omega)
  unfold zeroPadded
  split
  · exact Nat.succ_le_succ hfive
  · omega

theorem toString_eq {t : Int} (h : Fits 64 t) : toString t = plainText t := by
  refine snprintf_of_fits ?_
  have hsec := length_signed_le (k := 12) (secondsOf_lt h)
  have hmicro := length_zeroPadded_six t
  rw [plainText, List.length_append, List.length_cons]
  omega

/-- The years of 64-bit microseconds have six digits. -/
theorem year_lt {t : Int} (h : Fits 64 t) :
    ((gmtimeR (secondsOf t)).year + 1900).natAbs < 10 ^ 6 := by
  have hs := secondsOf_lt h
  obtain ⟨b, d, e, m, hdate, hdays, hd0, hd1, he0, he1, -, hm0, hm1, -⟩ :=
    Civil.ofDays_eq (secondsOf t / kSecondsPerDay)
  show ((Civil.ofDays (secondsOf t / kSecondsPerDay)).year - 1900 + 1900).natAbs < 10 ^ 6
  rw [hdate]
  unfold kSecondsPerDay at hdays
  dsimp only
  omega

theorem length_dateTime_le {t : Int} (h : Fits 64 t) :
    (dateTime (gmtimeR (secondsOf t))).length ≤ 20 := by
  have hb := gmtimeR_bounds (secondsOf t)
  have hyear := length_signed_le (k := 5) (year_lt h)
  have hmon := length_two (n := (gmtimeR (secondsOf t)).mon + 1) (by have := hb.mon; omega)
  have hmday := length_two (n := (gmtimeR (secondsOf t)).mday) (by have := hb.mday; omega)
  have hhour := length_two (n := (gmtimeR (secondsOf t)).hour) (by have := hb.hour; omega)
  have hmin := length_two (n := (gmtimeR (secondsOf t)).min) (by have := hb.min; omega)
  have hsec := length_two (n := (gmtimeR (secondsOf t)).sec) (by have := hb.sec; omega)
  simp only [dateTime, padded, List.length_append, List.length_replicate, List.length_singleton]
  omega

theorem toFormattedString_eq {t : Int} (h : Fits 64 t) (showMicroseconds : Bool) :
    toFormattedString t showMicroseconds = formattedText t showMicroseconds := by
  refine snprintf_of_fits ?_
  have hdate := length_dateTime_le h
  have hmicro := length_zeroPadded_six t
  unfold formattedText
  dsimp only
  split
  · rw [List.length_append, List.length_cons]
    omega
  · omega

/-! ## What the texts say -/

theorem denotes_of_split {t : Int} (h : 0 ≤ t ∨ 1000000 ∣ t) :
    Denotes (plainText t) t := by
  have hsplit := split t
  have hmicro : 0 ≤ microsecondsOf t := by
    rw [(split_eq h).2]
    omega
  have hlt := (microsecondsOf_bounds t).2
  refine ⟨decide (secondsOf t < 0), (secondsOf t).natAbs, (microsecondsOf t).natAbs, ?_,
    by omega, ?_⟩
  · have hsix : zeroPadded 6 (microsecondsOf t) = zeros 6 (microsecondsOf t).natAbs :=
      if_neg (by omega)
    rw [plainText, signed, hsix]
    by_cases hs : secondsOf t < 0
    · rw [if_pos hs, decide_eq_true hs]
      rfl
    · rw [if_neg hs, decide_eq_false hs]
      rfl
  · by_cases hs : secondsOf t < 0
    · -- a whole second, the microseconds are zero
      have hzero : microsecondsOf t = 0 := by
        rcases h with h | h
        · omega
        · exact Int.tmod_eq_zero_of_dvd h
      rw [if_pos (decide_eq_true hs)]
      omega
    · rw [if_neg (by simpa using hs)]
      omega

theorem not_denotes {t : Int} (h : ¬ (0 ≤ t ∨ 1000000 ∣ t)) (v : Int) :
    ¬ Denotes (plainText t) v := by
  rintro ⟨minus, s, m, htext, -, -⟩
  have hneg := microsecondsOf_neg h
  have hdot : '.' ∉ signed (secondsOf t) := not_mem_signed (by decide) (by decide) _
  have hdot' : '.' ∉ (if minus then ['-'] else []) ++ decimal s := by
    have := not_mem_decimal (c := '.') (by decide) s
    cases minus <;> simp [this]
  rw [plainText, ← List.append_assoc] at htext
  obtain ⟨-, hdigits⟩ := append_cons_inj hdot hdot' htext
  rw [zeroPadded, if_pos hneg] at hdigits
  exact absurd (hdigits ▸ List.mem_cons_self) (not_mem_zeros (c := '-') (by decide) 6 m)

theorem showsInstant_of_split {t : Int} (h : 0 ≤ t ∨ 1000000 ∣ t) :
    ShowsInstant (formattedText t true) t := by
  obtain ⟨hsec, hmicro⟩ := split_eq h
  have hnonneg : 0 ≤ microsecondsOf t := by
    rw [hmicro]
    omega
  refine ⟨?_, (length_zeros_eq_iff (by decide)).2 (by omega)⟩
  have habs : (microsecondsOf t).natAbs = (t % 10 ^ 6).toNat := by
    rw [hmicro]
    omega
  show dateTime (gmtimeR (secondsOf t)) ++ '.' :: zeroPadded 6 (microsecondsOf t) = _
  rw [zeroPadded, if_neg (by omega), habs, hsec]
  rfl

theorem toString_inj {t u : Int} (ht : Fits 64 t) (hu : Fits 64 u)
    (h : toString t = toString u) : t = u := by
  rw [toString_eq ht, toString_eq hu, plainText, plainText] at h
  have hdot (x : Int) : '.' ∉ signed x := not_mem_signed (by decide) (by decide) x
  obtain ⟨hsec, hmicro⟩ := append_cons_inj (hdot _) (hdot _) h
  have hsec := signed_inj hsec
  have hmicro := zeroPadded_inj hmicro
  rw [← split t, ← split u, hsec, hmicro]

/-- The texts of a time stamp denote it, untruncated, exactly if it is not before the epoch or a
whole second; distinct time stamps have distinct texts in any case. -/
theorem text_denotes_iff {v : Int} (h : Fits 64 v) :
    (Denotes (toString v) v ∧ toString v = plainText v ∧
        ShowsInstant (toFormattedString v true) v ∧
        toFormattedString v true = formattedText v true ↔
      0 ≤ v ∨ 1000000 ∣ v) ∧
    ∀ w, Fits 64 w → toString v = toString w → v = w := by
  refine ⟨?_, fun w hw => toString_inj h hw⟩
  rw [toString_eq h, toFormattedString_eq h]
  constructor
  · rintro ⟨hdenotes, -⟩
    by_contra hcond
    exact not_denotes hcond v hdenotes
  · intro hcond
    exact ⟨denotes_of_split hcond, rfl, showsInstant_of_split hcond, rfl⟩

theorem text_denotes_second :
    Denotes (toString (-1000000)) (-1000000) ∧
      ShowsInstant (toFormattedString (-1000000) true) (-1000000) := by
  obtain ⟨hiff, -⟩ := text_denotes_iff (v := -1000000) (by decide)
  obtain ⟨hdenotes, -, hshows, -⟩ := hiff.2 (.inr (by decide))
  exact ⟨hdenotes, hshows⟩

/-- The microsecond before the epoch is printed as `0.-00001`. -/
theorem text_before_epoch : Fits 64 (-1) ∧ toString (-1) = "0.-00001".toList ∧
    ¬ Denotes (toString (-1)) (-1) := by
  have htext : toString (-1) = plainText (-1) := toString_eq (by decide)
  refine ⟨by decide, by decide, ?_⟩
  rw [htext]
  exact not_denotes (by decide) (-1)

end Timestamp

end Rawmd
