import Rawmd.Base.TimeZone

/-!
# `base/TimeZone.cpp`: local time and back

`findLocaltime` over sorted transitions is the rule in force: the type of the last transition that
is not after the value looked for, the first type before all transitions.  `fromLocalTime` looks
for the local seconds and, if that gives the other side of a clock change, shifts by one hour.

    transitions sorted by the key → findLocaltime is the rule in force     (findLocaltime_eq)
      and the offset changes at transitions only                           (findLocaltime_inForce)
    fromLocalTime (toLocalTime t) = t ↔ the rule for the local time of `t` has the offset at `t`,
      or is one hour west of it and the conversion one hour later shows it (roundTrips_iff)
-/

namespace Rawmd

namespace TimeZone

/-! ## The rule in force -/

def Comp.key (comp : Comp) (t : Transition) : Int :=
  if comp.compareGmt then t.gmttime else t.localtime

theorem Comp.less_eq (comp : Comp) (lhs rhs : Transition) :
    comp.less lhs rhs = decide (comp.key lhs < comp.key rhs) := by
  unfold Comp.less Comp.key
  split <;> rfl

theorem Comp.equal_eq (comp : Comp) (lhs rhs : Transition) :
    comp.equal lhs rhs = decide (comp.key lhs = comp.key rhs) := by
  unfold Comp.equal Comp.key
  split <;> rfl

/-- The index of the type of the last transition whose key is at most `x`. -/
def Data.ruleIdx (data : Data) (comp : Comp) (x : Int) : Nat :=
  match (data.transitions.filter fun t => comp.key t ≤ x).getLast? with
  | some t => t.localtimeIdx
  | none => 0

theorem Data.ruleIdx_zero {data : Data} {comp : Comp} {x : Int}
    (h : ∀ t ∈ data.transitions, x < comp.key t) : data.ruleIdx comp x = 0 := by
  have hnone : data.transitions.filter (fun t => comp.key t ≤ x) = [] := by
    rw [List.filter_eq_nil_iff]
    intro t ht
    have := h t ht
    simpa using this
  simp only [Data.ruleIdx, hnone, List.getLast?_nil]

section FindLocaltime

variable {data : Data} {comp : Comp}
  (hsorted : data.transitions.Pairwise fun a b => comp.key a < comp.key b)
include hsorted

theorem key_lt_of_lt {i j : Nat} {a b : Transition} (ha : data.transitions[i]? = some a)
    (hb : data.transitions[j]? = some b) (hij : i < j) : comp.key a < comp.key b := by
  obtain ⟨hi, rfl⟩ := List.getElem?_eq_some_iff.1 ha
  obtain ⟨hj, rfl⟩ := List.getElem?_eq_some_iff.1 hb
  exact List.pairwise_iff_getElem.1 hsorted i j hi hj hij

theorem lowerBound_partitioned (sentry : Transition) :
    List.PartitionedAt (fun t => comp.less t sentry) data.transitions
      (data.transitions.lowerBound fun t => comp.less t sentry) := by
  refine List.lowerBound_spec (hsorted.imp fun {a b} hab hless => ?_)
  rw [Comp.less_eq, decide_eq_true_eq] at hless ⊢
  omega

/-- A transition that is not after `x`, the next one is. -/
theorem ruleIdx_eq {x : Int} {k : Nat} {t : Transition} (ht : data.transitions[k]? = some t)
    (hle : comp.key t ≤ x) (hnext : ∀ u, data.transitions[k + 1]? = some u → x < comp.key u) :
    data.ruleIdx comp x = t.localtimeIdx := by
  have hlt := (List.getElem?_eq_some_iff.1 ht).1
  have hpart : List.PartitionedAt (fun t => decide (comp.key t ≤ x)) data.transitions (k + 1) := by
    refine ⟨hlt, fun j u hu hj => decide_eq_true ?_, fun j u hu hj => decide_eq_false ?_⟩
    · rcases Nat.lt_or_eq_of_le (Nat.le_of_lt_succ hj) with hj | rfl
      · have := key_lt_of_lt hsorted hu ht hj
        omega
      · cases ht.symm.trans hu
        exact hle
    · rcases Nat.lt_or_eq_of_le hj with hj | rfl
      · have hlen := (List.getElem?_eq_some_iff.1 hu).1
        have hk := List.getElem?_eq_getElem (l := data.transitions) (i := k + 1) (by omega)
        have := hnext _ hk
        have := key_lt_of_lt hsorted hk hu hj
        omega
      · have := hnext u hu
        omega
  have hlast : (data.transitions.take (k + 1)).getLast? = some t := by
    rw [List.getLast?_eq_getElem?, List.length_take, Nat.min_eq_left hpart.le, Nat.add_sub_cancel,
      List.getElem?_take_of_lt (Nat.lt_succ_self k)]
    exact ht
  simp only [Data.ruleIdx, hpart.filter_eq, hlast]

/-- The rule at the place `i` where the search ends. -/
theorem localtimeAt_eq {sentry : Transition} {i : Nat}
    (hpart : List.PartitionedAt (fun t => comp.less t sentry) data.transitions i)
    (hne : data.transitions ≠ [])
    (hzero : ∀ t, data.transitions[0]? = some t → comp.key t ≤ comp.key sentry) :
    localtimeAt data sentry comp i = data.localtime (data.ruleIdx comp (comp.key sentry)) := by
  have hbefore : ∀ j t, data.transitions[j]? = some t → j < i → comp.key t < comp.key sentry := by
    intro j t ht hj
    simpa [Comp.less_eq] using hpart.before j t ht hj
  unfold localtimeAt
  cases hi : data.transitions[i]? with
  | none =>
    have hlen := List.getElem?_eq_none_iff.1 hi
    have hpos := List.length_pos_of_ne_nil hne
    have hback : data.transitions[data.transitions.length - 1]? =
        some (data.transitions.getLast hne) := by
      rw [← List.getLast?_eq_getElem?, List.getLast?_eq_getLast_of_ne_nil hne]
    have hend : data.transitions[data.transitions.length - 1 + 1]? = none :=
      List.getElem?_eq_none_iff.2 (by omega)
    rw [ruleIdx_eq hsorted hback (Int.le_of_lt (hbefore _ _ hback (by omega)))
      (by simp [hend])]
    simp only [List.getLast?_eq_getLast_of_ne_nil hne]
  | some transI =>
    have hle : comp.key sentry ≤ comp.key transI := by
      simpa [Comp.less_eq] using hpart.after i transI hi (Nat.le_refl i)
    dsimp only
    rw [Comp.equal_eq]
    by_cases heq : comp.key sentry = comp.key transI
    · rw [if_pos (decide_eq_true heq), ruleIdx_eq hsorted hi (Int.le_of_eq heq.symm)]
      intro u hu
      rw [heq]
      exact key_lt_of_lt hsorted hi hu (Nat.lt_succ_self i)
    · rw [if_neg (by simpa using heq)]
      cases i with
      | zero =>
        have := hzero transI hi
        omega
      | succ i =>
        have hlt : i < data.transitions.length := by
          have := (List.getElem?_eq_some_iff.1 hi).1
          omega
        have hthis := List.getElem?_eq_getElem hlt
        rw [ruleIdx_eq hsorted hthis (Int.le_of_lt (hbefore i _ hthis (Nat.lt_succ_self i)))]
        · simp only [hthis]
        · intro u hu
          cases hi.symm.trans hu
          omega

theorem findLocaltime_eq (sentry : Transition) :
    findLocaltime data sentry comp = data.localtime (data.ruleIdx comp (comp.key sentry)) := by
  unfold findLocaltime
  split
  · next htr =>
    rw [Data.ruleIdx_zero (by rw [htr]; simp)]
  · next front rest htr =>
    split
    · next hless =>
      rw [Comp.less_eq, decide_eq_true_eq] at hless
      have hall : ∀ t ∈ data.transitions, comp.key sentry < comp.key t := by
        intro t ht
        rw [htr] at hsorted ht
        rcases List.mem_cons.1 ht with rfl | ht
        · exact hless
        · exact Int.lt_trans hless ((List.pairwise_cons.1 hsorted).1 t ht)
      rw [Data.ruleIdx_zero hall]
    · next hless =>
      refine localtimeAt_eq hsorted (lowerBound_partitioned hsorted sentry)
        (by rw [htr]; exact List.cons_ne_nil _ _) ?_
      intro t ht
      rw [htr] at ht
      cases ht
      rw [Comp.less_eq] at hless
      simpa using hless

end FindLocaltime

theorem Data.localtime_ok_iff {data : Data} {i : Nat} {l : Localtime} :
    data.localtime i = .ok l ↔ data.localtimes[i]? = some l := by
  unfold Data.localtime
  split
  · next l' h => simp [h]
  · next h => simp [h]

/-- What the search by `comp` is asked for. -/
structure Data.Ascending (data : Data) (comp : Comp) : Prop where
  localtimes : data.localtimes ≠ []
  index : ∀ t ∈ data.transitions, t.localtimeIdx < data.localtimes.length
  key : data.transitions.Pairwise fun a b => comp.key a < comp.key b

/-- `l` is the type of the last transition that is not after `x`, or the first type if all are. -/
def Data.InForce (data : Data) (comp : Comp) (x : Int) (l : Localtime) : Prop :=
  (∃ us t vs, data.transitions = us ++ t :: vs ∧ comp.key t ≤ x ∧ (∀ u ∈ vs, x < comp.key u) ∧
    data.localtimes[t.localtimeIdx]? = some l) ∨
  ((∀ t ∈ data.transitions, x < comp.key t) ∧ data.localtimes.head? = some l)

theorem Data.inForce_of_ruleIdx {data : Data} {comp : Comp} {x : Int} {l : Localtime}
    (h : data.localtimes[data.ruleIdx comp x]? = some l) : data.InForce comp x l := by
  unfold Data.ruleIdx at h
  rw [List.getLast?_filter] at h
  cases hlast : data.transitions.reverse.find? (fun t => comp.key t ≤ x) with
  | none =>
    rw [hlast, ← List.head?_eq_getElem?] at h
    refine .inr ⟨?_, h⟩
    intro t ht
    have := List.find?_eq_none.1 hlast t (List.mem_reverse.2 ht)
    simpa using this
  | some t =>
    rw [hlast] at h
    obtain ⟨hle, vs, us, hrev, hafter⟩ := List.find?_eq_some_iff_append.1 hlast
    refine .inl ⟨us.reverse, t, vs.reverse, ?_, of_decide_eq_true hle, ?_, h⟩
    · simpa using congrArg List.reverse hrev
    · intro u hu
      have := hafter u (List.mem_reverse.1 hu)
      simpa using this

theorem Data.Ascending.ruleIdx_lt {data : Data} {comp : Comp} (h : data.Ascending comp) (x : Int) :
    data.ruleIdx comp x < data.localtimes.length := by
  unfold Data.ruleIdx
  split
  · next t ht => exact h.index t (List.mem_of_mem_filter (List.mem_of_getLast? ht))
  · exact List.length_pos_of_ne_nil h.localtimes

/-- Between transitions the rule stays. -/
theorem Data.ruleIdx_congr {data : Data} {comp : Comp} {x y : Int} (hxy : x ≤ y)
    (h : ∀ t ∈ data.transitions, x < comp.key t → y < comp.key t) :
    data.ruleIdx comp x = data.ruleIdx comp y := by
  have hfilter : data.transitions.filter (fun t => comp.key t ≤ x) =
      data.transitions.filter (fun t => comp.key t ≤ y) := by
    refine List.filter_congr ?_
    intro t ht
    have := h t ht
    rw [decide_eq_decide]
    omega
  simp only [Data.ruleIdx, hfilter]

/-- `findLocaltime` finds the rule in force, without a fault, so that the offset of `toLocalTime`
changes at transitions only. -/
theorem findLocaltime_inForce {data : Data} {comp : Comp} (h : data.Ascending comp) :
    (∀ sentry, ∃ l, findLocaltime data sentry comp = .ok l ∧
      data.InForce comp (comp.key sentry) l) ∧
    (comp.compareGmt = true → ∀ t t', t ≤ t' →
      (∀ tr ∈ data.transitions, ¬ (t < tr.gmttime ∧ tr.gmttime ≤ t')) →
      (toLocalTime (some data) t).map (·.gmtoff) =
        (toLocalTime (some data) t').map (·.gmtoff)) := by
  constructor
  · intro sentry
    have hl := List.getElem?_eq_getElem (h.ruleIdx_lt (comp.key sentry))
    refine ⟨_, ?_, Data.inForce_of_ruleIdx hl⟩
    rw [findLocaltime_eq h.key, Data.localtime_ok_iff, hl]
  · intro hgmt t t' htt hnone
    obtain ⟨compareGmt⟩ := comp
    obtain rfl : compareGmt = true := hgmt
    have hrule : data.ruleIdx ⟨true⟩ t = data.ruleIdx ⟨true⟩ t' := by
      refine Data.ruleIdx_congr htt ?_
      intro tr htr hlt
      exact Int.not_le.1 fun hle => hnone tr htr ⟨hlt, hle⟩
    have hfind (t : Int) : findLocaltime data ⟨t, 0, 0⟩ ⟨true⟩ =
        data.localtime (data.ruleIdx ⟨true⟩ t) := findLocaltime_eq h.key ⟨t, 0, 0⟩
    simp only [toLocalTime, hfind, hrule, bind, Except.bind]
    cases data.localtime (data.ruleIdx ⟨true⟩ t') with
    | error e => rfl
    | ok l =>
      cases hzone : data.abbreviationAt l.arrbIdx with
      | error e => simp only [hzone, Except.map]
      | ok zone =>
        simp only [hzone]
        rfl

/-! ## `fromLocalTime` -/

/-- `timegm(3)`, the inverse of `gmtimeR`. -/
def timegm (tm : Tm) : Int := tm.seconds

def fromLocalTime (tz : TimeZone) (localTm : Tm) : Except Fault Int :=
  match tz with
  | none => .error .noData
  | some data => do
    let seconds := timegm localTm
    let local' ← findLocaltime data ⟨0, seconds, 0⟩ ⟨false⟩
    if localTm.isdst then
      let tryTm ← toLocalTime tz (seconds - local'.gmtOffset)
      if !tryTm.isdst && tryTm.hour == localTm.hour && tryTm.min == localTm.min then
        return seconds - 3600 - local'.gmtOffset
      else
        return seconds - local'.gmtOffset
    else
      return seconds - local'.gmtOffset

/-- What the round trip is asked for. -/
structure Data.Sorted (data : Data) : Prop where
  localtimes : data.localtimes ≠ []
  gmttime : data.transitions.Pairwise fun a b => a.gmttime < b.gmttime
  localtime : data.transitions.Pairwise fun a b => a.localtime < b.localtime
  index : ∀ t ∈ data.transitions, t.localtimeIdx < data.localtimes.length

/-- The calendar fields and `tm_isdst`. -/
structure Tm.SameReading (tm tm' : Tm) : Prop where
  year : tm.year = tm'.year
  mon : tm.mon = tm'.mon
  mday : tm.mday = tm'.mday
  hour : tm.hour = tm'.hour
  min : tm.min = tm'.min
  sec : tm.sec = tm'.sec
  isdst : tm.isdst = tm'.isdst

/-- No other instant has the reading of `t`. -/
def Unambiguous (data : Data) (t : Int) : Prop :=
  ∀ t' tm tm', toLocalTime (some data) t = .ok tm → toLocalTime (some data) t' = .ok tm' →
    Tm.SameReading tm tm' → t' = t

def RoundTrips (data : Data) (t : Int) : Prop :=
  ∃ tm, toLocalTime (some data) t = .ok tm ∧ fromLocalTime (some data) tm = .ok t

/-! ## The round trip -/

def Data.ruleAt (data : Data) (comp : Comp) (x : Int) : Option Localtime :=
  data.localtimes[data.ruleIdx comp x]?

/-- The index of the abbreviation is inside the text. -/
def Data.HasName (data : Data) (l : Localtime) : Prop := l.arrbIdx ≤ data.abbreviation.length

/-- `l` is in force at `t` and `found` at its local time, one hour west of `l`: the conversion one
hour later has left the summer time and shows the same minute. -/
def Data.ShiftsBack (data : Data) (t : Int) (l found : Localtime) : Prop :=
  l.isDst = true ∧ l.gmtOffset = found.gmtOffset + 3600 ∧
    ∃ later, data.ruleAt ⟨true⟩ (t + 3600) = some later ∧ data.HasName later ∧
      later.isDst = false ∧
      (gmtimeR (t + 3600 + later.gmtOffset)).hour = (gmtimeR (t + l.gmtOffset)).hour ∧
      (gmtimeR (t + 3600 + later.gmtOffset)).min = (gmtimeR (t + l.gmtOffset)).min

def Data.Recovers (data : Data) (t : Int) : Prop :=
  ∃ l found, data.ruleAt ⟨true⟩ t = some l ∧ data.HasName l ∧
    data.ruleAt ⟨false⟩ (t + l.gmtOffset) = some found ∧
    (found.gmtOffset = l.gmtOffset ∨ data.ShiftsBack t l found)

section RoundTrip

variable {data : Data} (h : data.Sorted)
include h

theorem Data.Sorted.ascending (comp : Comp) : data.Ascending comp := by
  refine ⟨h.localtimes, h.index, ?_⟩
  obtain ⟨compareGmt⟩ := comp
  cases compareGmt with
  | true => exact h.gmttime
  | false => exact h.localtime

theorem exists_ruleAt (comp : Comp) (x : Int) : ∃ l, data.ruleAt comp x = some l :=
  ⟨_, List.getElem?_eq_getElem ((h.ascending comp).ruleIdx_lt x)⟩

theorem findLocaltime_ok_iff {sentry : Transition} {comp : Comp} {l : Localtime} :
    findLocaltime data sentry comp = .ok l ↔ data.ruleAt comp (comp.key sentry) = some l := by
  rw [findLocaltime_eq (h.ascending comp).key, Data.localtime_ok_iff, Data.ruleAt]

theorem toLocalTime_ok_iff {t : Int} {tm : Tm} :
    toLocalTime (some data) t = .ok tm ↔ ∃ l, data.ruleAt ⟨true⟩ t = some l ∧ data.HasName l ∧
      tm = localTm l ((data.abbreviation.drop l.arrbIdx).takeWhile (· != 0)) t := by
  obtain ⟨l, hl⟩ := exists_ruleAt h ⟨true⟩ t
  have hfind : findLocaltime data ⟨t, 0, 0⟩ ⟨true⟩ = .ok l := (findLocaltime_ok_iff h).2 hl
  simp only [toLocalTime, hfind, bind, Except.bind, Data.abbreviationAt, hl, Option.some.injEq,
    exists_eq_left', Data.HasName]
  by_cases hname : l.arrbIdx ≤ data.abbreviation.length
  · rw [if_pos hname]
    constructor
    · intro heq
      cases heq
      exact ⟨hname, rfl⟩
    · rintro ⟨-, rfl⟩
      rfl
  · rw [if_neg hname]
    simp [hname]

/-- What comes back of the reading of `t` under `l`, if `found` is in force at its local time. -/
theorem fromLocalTime_localTm {t : Int} {l found : Localtime} {zone : List UInt8}
    (hfound : data.ruleAt ⟨false⟩ (t + l.gmtOffset) = some found) :
    fromLocalTime (some data) (localTm l zone t) =
      if l.isDst then do
        let tryTm ← toLocalTime (some data) (t + l.gmtOffset - found.gmtOffset)
        if !tryTm.isdst && tryTm.hour == (gmtimeR (t + l.gmtOffset)).hour
            && tryTm.min == (gmtimeR (t + l.gmtOffset)).min then
          return t + l.gmtOffset - 3600 - found.gmtOffset
        else
          return t + l.gmtOffset - found.gmtOffset
      else return t + l.gmtOffset - found.gmtOffset := by
  have hseconds : timegm (localTm l zone t) = t + l.gmtOffset := seconds_gmtimeR _
  have hfind : findLocaltime data ⟨0, t + l.gmtOffset, 0⟩ ⟨false⟩ = .ok found :=
    (findLocaltime_ok_iff h).2 hfound
  simp only [fromLocalTime, hseconds, hfind]
  rfl

theorem recovers_of_roundTrips {t : Int} (hround : RoundTrips data t) : data.Recovers t := by
  obtain ⟨tm, hto, hfrom⟩ := hround
  obtain ⟨l, hl, hname, rfl⟩ := (toLocalTime_ok_iff h).1 hto
  obtain ⟨found, hfound⟩ := exists_ruleAt h ⟨false⟩ (t + l.gmtOffset)
  refine ⟨l, found, hl, hname, hfound, ?_⟩
  rw [fromLocalTime_localTm h hfound] at hfrom
  split at hfrom
  · next hdst =>
    obtain ⟨tryTm, htry, hfrom⟩ := Except.bind_ok hfrom
    obtain ⟨later, hlater, hnamed, rfl⟩ := (toLocalTime_ok_iff h).1 htry
    split at hfrom
    · next hsame =>
      have hshift := Except.ok.inj hfrom
      have ht : t + l.gmtOffset - found.gmtOffset = t + 3600 := by omega
      rw [ht] at hlater hsame
      simp only [localTm, Bool.and_eq_true, Bool.not_eq_true', beq_iff_eq] at hsame
      exact .inr ⟨hdst, by omega, later, hlater, hnamed, hsame.1.1, hsame.1.2, hsame.2⟩
    · have := Except.ok.inj hfrom
      exact .inl (by omega)
  · have := Except.ok.inj hfrom
    exact .inl (by omega)

theorem roundTrips_of_recovers {t : Int} (hrec : data.Recovers t) : RoundTrips data t := by
  obtain ⟨l, found, hl, hname, hfound, hoffset⟩ := hrec
  refine ⟨_, (toLocalTime_ok_iff h).2 ⟨l, hl, hname, rfl⟩, ?_⟩
  rw [fromLocalTime_localTm h hfound]
  rcases hoffset with heq | ⟨hdst, heq, later, hlater, hnamed, hstd, hhour, hmin⟩
  · -- the trial conversion is that of `t` itself
    have ht : t + l.gmtOffset - found.gmtOffset = t := by omega
    rw [ht, (toLocalTime_ok_iff h).2 ⟨l, hl, hname, rfl⟩]
    split
    · next hdst =>
      simp only [bind, Except.bind, localTm, hdst, Bool.not_true, Bool.false_and,
        Bool.false_eq_true, if_false]
      rfl
    · rfl
  · have ht : t + l.gmtOffset - found.gmtOffset = t + 3600 := by omega
    have hback : t + l.gmtOffset - 3600 - found.gmtOffset = t := by omega
    rw [if_pos hdst, ht, hback, (toLocalTime_ok_iff h).2 ⟨later, hlater, hnamed, rfl⟩]
    simp only [bind, Except.bind, localTm, hstd, hhour, hmin, Bool.not_false, beq_self_eq_true,
      Bool.and_self, if_true]
    rfl

theorem roundTrips_iff (t : Int) : RoundTrips data t ↔ data.Recovers t :=
  ⟨recovers_of_roundTrips h, roundTrips_of_recovers h⟩

end RoundTrip

/-- The end of a summer time of one hour. -/
def hourBack : Data := ⟨[⟨0, 0, 1⟩], [⟨3600, true, 0⟩, ⟨0, false, 0⟩], []⟩

theorem hourBack_sorted : hourBack.Sorted :=
  ⟨by decide, by decide, by decide, by decide⟩

/-- The second of the change, and those after it. -/
theorem hourBack_inForce :
    (∃ l, findLocaltime hourBack ⟨0, 0, 0⟩ ⟨true⟩ = .ok l ∧ hourBack.InForce ⟨true⟩ 0 l) ∧
      (toLocalTime (some hourBack) 0).map (·.gmtoff) =
        (toLocalTime (some hourBack) 86400).map (·.gmtoff) := by
  have hasc : hourBack.Ascending ⟨true⟩ := ⟨by decide, by decide, by decide⟩
  exact ⟨(findLocaltime_inForce hasc).1 ⟨0, 0, 0⟩,
    (findLocaltime_inForce hasc).2 rfl 0 86400 (by decide) (by decide)⟩

/-- The last second of the summer time, whose hour is repeated. -/
theorem hourBack_roundTrips : hourBack.Sorted ∧ RoundTrips hourBack (-1) := by
  have hrec : hourBack.Recovers (-1) :=
    ⟨⟨3600, true, 0⟩, ⟨0, false, 0⟩, rfl, Nat.le_refl 0, rfl,
      .inr ⟨rfl, rfl, ⟨0, false, 0⟩, rfl, Nat.le_refl 0, rfl, by decide, by decide⟩⟩
  exact ⟨hourBack_sorted, (roundTrips_iff hourBack_sorted (-1)).2 hrec⟩

/-- The end of a summer time of half an hour. -/
def halfHourBack : Data := ⟨[⟨0, 37800, 1⟩], [⟨39600, true, 0⟩, ⟨37800, false, 0⟩], []⟩

theorem halfHourBack_sorted : halfHourBack.Sorted :=
  ⟨by decide, by decide, by decide, by decide⟩

theorem halfHourBack_ruleAt (t : Int) :
    halfHourBack.ruleAt ⟨true⟩ t =
      some (if 0 ≤ t then ⟨37800, false, 0⟩ else ⟨39600, true, 0⟩) := by
  by_cases ht : 0 ≤ t
  · simp [Data.ruleAt, Data.ruleIdx, halfHourBack, Comp.key, ht]
  · simp [Data.ruleAt, Data.ruleIdx, halfHourBack, Comp.key, ht]

theorem Tm.SameReading.seconds_eq {tm tm' : Tm} (h : Tm.SameReading tm tm') :
    tm.seconds = tm'.seconds := by
  simp only [Tm.seconds, h.year, h.mon, h.mday, h.hour, h.min, h.sec]

theorem halfHourBack_unambiguous : Unambiguous halfHourBack (-1) := by
  intro t' tm tm' htm htm' hsame
  obtain ⟨l, hl, -, rfl⟩ := (toLocalTime_ok_iff halfHourBack_sorted).1 htm
  obtain ⟨l', hl', -, rfl⟩ := (toLocalTime_ok_iff halfHourBack_sorted).1 htm'
  rw [halfHourBack_ruleAt] at hl hl'
  cases hl
  by_cases ht' : 0 ≤ t'
  · rw [if_pos ht'] at hl'
    cases hl'
    cases hsame.isdst
  · rw [if_neg ht'] at hl'
    cases hl'
    have hseconds : (gmtimeR (-1 + 39600)).seconds = (gmtimeR (t' + 39600)).seconds :=
      hsame.seconds_eq
    rw [seconds_gmtimeR, seconds_gmtimeR] at hseconds
    omega

/-- The last second of the summer time comes back half an hour early. -/
theorem halfHourBack_wrong :
    halfHourBack.Sorted ∧ Unambiguous halfHourBack (-1) ∧
      (∃ tm, toLocalTime (some halfHourBack) (-1) = .ok tm ∧
        fromLocalTime (some halfHourBack) tm = .ok (-1801)) ∧
      ¬ RoundTrips halfHourBack (-1) := by
  have hto : ∃ tm, toLocalTime (some halfHourBack) (-1) = .ok tm ∧
      fromLocalTime (some halfHourBack) tm = .ok (-1801) := by
    refine ⟨localTm ⟨39600, true, 0⟩ [] (-1), ?_, ?_⟩
    · decide
    · decide
  refine ⟨halfHourBack_sorted, halfHourBack_unambiguous, hto, ?_⟩
  rintro ⟨tm', htm', hfrom'⟩
  obtain ⟨tm, htm, hfrom⟩ := hto
  cases htm.symm.trans htm'
  cases hfrom.symm.trans hfrom'

end TimeZone

end Rawmd
