import Rawmd.Net.TimerQueueInv

/-!
# No timer is stranded: the timerfd is armed for the earliest timer

The timerfd is set only when a timer becomes the earliest one (`addTimerInLoop`) and at the
end of `reset`, and there only if the earliest expiration is valid; `cancelInLoop` never
sets it.  The delay it is set to is exact unless `when - now` overflows, which it does for times
before the epoch that are as far away as a 64-bit integer reaches (`howMuchTimeFromNow_iff`).
With the two clocks advancing together and no overflow in `when - now`:

    outside handleRead, with timers_ not empty, the timerfd has an unread expiration or its
    deadline is at most max(earliest expiration, last timerfd_settime + 100 µs)   (timerfd_armed)

Inside `handleRead` the same holds of the timers whose expiration is not valid (`Guarded`):
the others are looked after by `reset`.
-/

namespace Rawmd

open MachineInt TimerQueue

/-! ## The delay -/

def Timespec.nanos (ts : Timespec) : Int := ts.tvSec * 10 ^ 9 + ts.tvNsec

/-- With no overflow in the difference, the delay is normalized, at least 100 µs and exact. -/
theorem TimerQueue.howMuchTimeFromNow_spec (when now : Int) (h : Fits 64 (when - now)) :
    let ts := howMuchTimeFromNow when now
    0 ≤ ts.tvSec ∧ 0 ≤ ts.tvNsec ∧ ts.tvNsec < 10 ^ 9 ∧
      Timespec.nanos ts = 1000 * max 100 (when - now) := by
  intro ts
  have hm : ts = ⟨(max 100 (when - now)).tdiv kMicroSecondsPerSecond,
      (max 100 (when - now)).tmod kMicroSecondsPerSecond * 1000⟩ := by
    simp only [ts, howMuchTimeFromNow, wrap_of_fits (by decide : 0 < 64) h]
    have : (if when - now < 100 then 100 else when - now) = max 100 (when - now) := by
      split <;> omega
    rw [this]
  rw [hm]
  have hpos : (0 : Int) ≤ max 100 (when - now) := by omega
  generalize max 100 (when - now) = m at hpos
  simp only [Timespec.nanos, kMicroSecondsPerSecond, Int.tdiv_eq_ediv_of_nonneg hpos,
    Int.tmod_eq_emod_of_nonneg hpos]
  refine ⟨?_, ?_, ?_, ?_⟩ <;> omega

/-- `howMuchTimeFromNow`, with no result if it overflows. -/
def TimerQueue.checkedTimeFromNow (when now : Timestamp) : Option Timespec := do
  let microseconds ← sub 64 when now
  let microseconds := if microseconds < 100 then 100 else microseconds
  let nsec ← mul 64 (microseconds.tmod kMicroSecondsPerSecond) 1000
  return ⟨microseconds.tdiv kMicroSecondsPerSecond, nsec⟩

/-- A delay from `now` to `when`, or of 100 µs, for which the timerfd stays armed. -/
structure TimerQueue.ExactDelay (when now : Int) (ts : Timespec) : Prop where
  no_overflow : checkedTimeFromNow when now = some ts
  tvSec : 0 ≤ ts.tvSec
  tvNsec : 0 ≤ ts.tvNsec ∧ ts.tvNsec < 10 ^ 9
  nanos : ts.nanos = 1000 * max 100 (when - now)
  armed : ts ≠ ⟨0, 0⟩

theorem TimerQueue.exactDelay_of_fits {when now : Int} (h : Fits 64 (when - now)) :
    ExactDelay when now (howMuchTimeFromNow when now) := by
  obtain ⟨hsec, hnsec, hlt, hnanos⟩ := howMuchTimeFromNow_spec when now h
  refine ⟨?_, hsec, ⟨hnsec, hlt⟩, hnanos, ?_⟩
  · have hsub : sub 64 when now = some (when - now) := checked_of_fits h
    have hmul : mul 64 ((if when - now < 100 then 100 else when - now).tmod
        kMicroSecondsPerSecond) 1000 = some (howMuchTimeFromNow when now).tvNsec := by
      have hfits : Fits 64 (howMuchTimeFromNow when now).tvNsec := ⟨by omega, by omega⟩
      unfold howMuchTimeFromNow at hfits ⊢
      rw [wrap_of_fits (by decide) h] at hfits ⊢
      exact checked_of_fits hfits
    rw [checkedTimeFromNow, hsub]
    show (mul 64 _ _).bind _ = _
    rw [hmul, howMuchTimeFromNow, wrap_of_fits (by decide) h]
    rfl
  · intro hzero
    have hpos : 0 < (howMuchTimeFromNow when now).nanos := by omega
    rw [hzero] at hpos
    exact absurd hpos (by decide)

/-- For every time that a timer can have: the delay is exact, and not 0, unless the difference is
below the least 64-bit integer.  A later timer has no shorter delay. -/
theorem TimerQueue.howMuchTimeFromNow_iff (when now : Int) (hwhen : Fits 64 when)
    (hnow : 0 ≤ now) :
    (ExactDelay when now (howMuchTimeFromNow when now) ↔ -2 ^ 63 ≤ when - now) ∧
      ∀ later, Fits 64 later → when ≤ later → -2 ^ 63 ≤ when - now →
        (howMuchTimeFromNow when now).nanos ≤ (howMuchTimeFromNow later now).nanos := by
  have hfits {time : Int} (htime : Fits 64 time) (hlow : -2 ^ 63 ≤ time - now) :
      Fits 64 (time - now) := by
    have hhigh := htime.2
    exact ⟨hlow, by omega⟩
  refine ⟨⟨?_, ?_⟩, ?_⟩
  · intro h
    have hok := h.no_overflow
    by_contra hlow
    have hsub : sub 64 when now = none := if_neg (fun hf => hlow hf.1)
    rw [checkedTimeFromNow, hsub] at hok
    cases hok
  · intro hlow
    exact exactDelay_of_fits (hfits hwhen hlow)
  · intro later hlater hle hlow
    rw [(exactDelay_of_fits (hfits hwhen hlow)).nanos,
      (exactDelay_of_fits (hfits hlater (by omega))).nanos]
    omega

/-- A timer at the epoch goes off in 100 µs. -/
theorem TimerQueue.howMuchTimeFromNow_epoch :
    ExactDelay 0 1600000000000000 (howMuchTimeFromNow 0 1600000000000000) ∧
    howMuchTimeFromNow 0 1600000000000000 = ⟨0, 100000⟩ ∧
    (howMuchTimeFromNow 0 1600000000000000).nanos ≤
      (howMuchTimeFromNow 1600000001500000 1600000000000000).nanos := by
  obtain ⟨hexact, hmono⟩ :=
    howMuchTimeFromNow_iff 0 1600000000000000 (by decide) (by decide)
  refine ⟨hexact.2 (by decide), by decide, ?_⟩
  exact hmono 1600000001500000 (by decide) (by decide) (by decide)

/-- The earliest time of all goes off after more than 290,000 years. -/
theorem TimerQueue.howMuchTimeFromNow_earliest :
    checkedTimeFromNow (-9223372036854775808) 1600000000000000 = none ∧
    howMuchTimeFromNow (-9223372036854775808) 1600000000000000 = ⟨9221772036854, 775808000⟩ ∧
    (howMuchTimeFromNow (-9223372036854775808) 1600000000000000).nanos ≠
      1000 * max 100 (-9223372036854775808 - 1600000000000000) := by
  decide

/-! ## The timerfd -/

/-- The timerfd has gone off and was not read, or it goes off at `bound` (in µs of the wall
clock, which is `offset` ns behind the timerfd's) at the latest. -/
def Timerfd.ArmedBy (fd : Timerfd) (offset bound : Int) : Prop :=
  0 < fd.expirations ∨ ∃ d, fd.deadline = some d ∧ d ≤ offset + 1000 * bound

theorem Timerfd.ArmedBy.mono {fd : Timerfd} {offset b b' : Int} (h : fd.ArmedBy offset b)
    (hb : b ≤ b') : fd.ArmedBy offset b' := by
  rcases h with h | ⟨d, hd, hle⟩
  · exact Or.inl h
  · exact Or.inr ⟨d, hd, by omega⟩

theorem Timerfd.ArmedBy.advance {fd : Timerfd} {offset b : Int} (h : fd.ArmedBy offset b)
    (mono : Int) : (fd.advance mono).ArmedBy offset b := by
  unfold Timerfd.advance
  split
  · next d hd =>
    split
    · exact Or.inl (Nat.succ_pos _)
    · exact h
  · exact h

/-- `resetTimerfd` arms the timerfd for `expiration`, but not before 100 µs have passed. -/
theorem Timerfd.armedBy_settime (fd : Timerfd) (offset mono expiration wall : Int)
    (hmono : mono = offset + 1000 * wall) (h : Fits 64 (expiration - wall)) :
    (fd.settime mono (howMuchTimeFromNow expiration wall)).ArmedBy offset
      (max expiration (wall + 100)) := by
  obtain ⟨h1, h2, h3, h4⟩ := howMuchTimeFromNow_spec expiration wall h
  right
  generalize howMuchTimeFromNow expiration wall = ts at h1 h2 h3 h4
  have hne : ts ≠ ⟨0, 0⟩ := by
    rintro rfl
    simp only [Timespec.nanos] at h4
    omega
  refine ⟨mono + ts.tvSec * 10 ^ 9 + ts.tvNsec, ?_, ?_⟩
  · unfold Timerfd.settime
    rw [if_neg (by omega), if_neg hne]
  · simp only [Timespec.nanos] at h4
    omega

namespace TimerQueue

/-! ## The invariant -/

/-- Both clocks advance by the same amount. -/
def ClocksTogether (s s' : State) : Prop := s'.mono - s.mono = 1000 * (s'.wall - s.wall)

/-- The clock reads a 64-bit time and `when - now` does not overflow for any timer. -/
def InRange (s : State) : Prop :=
  Fits 64 s.wall ∧ ∀ p t, s.heap p = some t → Fits 64 (t.expiration - s.wall)

/-- The timerfd is armed for every entry that meets `P`. -/
def Guarded (offset : Int) (s : State) (P : Int → Prop) : Prop :=
  ∀ e ∈ s.timers, P (ofLex e).1 →
    s.timerfd.ArmedBy offset (max (ofLex e).1 (s.lastSettime + 100))

structure Armed (offset : Int) (s : State) : Prop where
  mono : s.mono = offset + 1000 * s.wall
  wall : 0 < s.wall
  idle : s.phase = .idle → Guarded offset s fun _ => True
  entered : ∀ now, s.phase = .entered now → 0 < now ∧ now ≤ s.wall
  calling : ∀ now expired rest, s.phase = .calling now expired rest →
    0 < now ∧ now ≤ s.wall ∧ Guarded offset s fun when => when ≤ 0

/-! ## Every action keeps it -/

theorem key_le {e e' : Entry} (h : e ≤ e') : (ofLex e).1 ≤ (ofLex e').1 :=
  Prod.Lex.monotone_fst_ofLex h

theorem le_of_isEarliest {s : State} {when : Int} (h : s.isEarliest when = true) {e : Entry}
    (he : e ∈ s.timers) : when ≤ (ofLex e).1 := by
  unfold State.isEarliest at h
  split at h
  · next hf =>
    rw [OrderedSet.first?_eq_none_iff] at hf
    exact absurd (List.length_pos_of_mem he) (by simp [OrderedSet.size] at hf; simp [hf])
  · next f hf =>
    have h1 := of_decide_eq_true h
    have h2 := key_le (s.timers.first?_le f e hf he)
    exact le_trans (le_of_lt h1) h2

theorem exists_le_of_not_isEarliest {s : State} {when : Int} (h : s.isEarliest when = false) :
    ∃ f ∈ s.timers, (ofLex f).1 ≤ when := by
  unfold State.isEarliest at h
  split at h
  · cases h
  · next f hf => exact ⟨f, s.timers.first?_mem f hf, not_lt.1 (of_decide_eq_false h)⟩

/-- Setting the timerfd for a time not later than any entry arms it for all. -/
theorem guarded_resetTimerfd {offset : Int} (s : State) (when : Int)
    (hmono : s.mono = offset + 1000 * s.wall) (hfit : Fits 64 (when - s.wall))
    (hmin : ∀ e ∈ s.timers, when ≤ (ofLex e).1) (P : Int → Prop) :
    Guarded offset (s.resetTimerfd when) P := by
  intro e he _
  refine (Timerfd.armedBy_settime s.timerfd offset s.mono when s.wall hmono hfit).mono ?_
  have hle := hmin e he
  show max when (s.wall + 100) ≤ max (ofLex e).1 (s.wall + 100)
  exact max_le_max_right _ hle

theorem Guarded.subset {offset : Int} {s s' : State} {P : Int → Prop} (h : Guarded offset s P)
    (hsub : ∀ e ∈ s'.timers, e ∈ s.timers) (hfd : s'.timerfd = s.timerfd)
    (hlast : s'.lastSettime = s.lastSettime) : Guarded offset s' P := by
  intro e he hP
  rw [hfd, hlast]
  exact h e (hsub e he) hP

/-- A timer that is not the earliest is covered by the alarm of an earlier one. -/
theorem Guarded.insert_later {offset : Int} {s s' : State} {P : Int → Prop}
    (h : Guarded offset s P) (hP : ∀ w w', w ≤ w' → P w' → P w) {when : Int} {p : Addr}
    (hlate : s.isEarliest when = false)
    (hins : ∀ e ∈ s'.timers, e = toLex (when, p) ∨ e ∈ s.timers) (hfd : s'.timerfd = s.timerfd)
    (hlast : s'.lastSettime = s.lastSettime) : Guarded offset s' P := by
  intro e he hPe
  rw [hfd, hlast]
  rcases hins e he with rfl | he
  · obtain ⟨f, hf, hle⟩ := exists_le_of_not_isEarliest hlate
    exact (h f hf (hP _ _ hle hPe)).mono (max_le_max_right _ hle)
  · exact h e he hPe

theorem Guarded.advance {offset : Int} {s : State} {P : Int → Prop} (h : Guarded offset s P)
    (wall mono : Int) :
    Guarded offset { s with wall := wall, mono := mono, timerfd := s.timerfd.advance mono } P := by
  intro e he hP
  exact (h e he hP).advance mono

/-! ### `reset` -/

/-- A timer that is put back expires at a valid time: a sum that overflowed would be out of
range. -/
theorem restart_pos {t : Timer} {now wall : Int} (hrep : t.repeats = true) (hnow : 0 < now)
    (hle : now ≤ wall) (hw : Fits 64 wall) (h : Fits 64 ((t.restart now).expiration - wall)) :
    0 < (t.restart now).expiration := by
  have hexp : (t.restart now).expiration = wrap 64 (now + t.interval.micros) := by
    unfold Timer.restart
    rw [if_pos hrep]
    rfl
  have hnn := t.interval.nonneg hrep
  have hf := t.interval.fits
  rw [hexp] at h
  show (0 : Int) < (t.restart now).expiration
  rw [hexp]
  simp only [Fits, wrap, Int.bmod] at hw h hf ⊢
  norm_num at hw h hf ⊢
  rw [Int.emod_eq_of_lt (by omega) (by omega)] at h ⊢
  split at h <;> split <;> omega

theorem ResetLoop.timers {now : Timestamp} {s s' : State} {l : List Entry}
    (h : ResetLoop now s l s') {e : Entry} (he : e ∈ s'.timers) :
    e ∈ s.timers ∨ ∃ t : Timer, t.repeats = true ∧ (ofLex e).1 = (t.restart now).expiration := by
  induction h with
  | nil s _ => exact Or.inl he
  | @keep s s' d l t _ _ hrep _ _ ih =>
    rcases ih he with he | he
    · rcases (s.timers.mem_insert _ _).1 he with rfl | he
      · exact Or.inr ⟨t, hrep, rfl⟩
      · exact Or.inl he
    · exact Or.inr he
  | drop _ _ _ _ ih => exact ih he

/-- After the loop of `reset`, the entries that are not valid are those of the callbacks. -/
theorem ResetLoop.guarded {offset now : Int} {s s' : State} {l : List Entry}
    (h : ResetLoop now s l s') (hnow : 0 < now) (hle : now ≤ s.wall) (hr : InRange s')
    (hg : Guarded offset s fun when => when ≤ 0) : Guarded offset s' fun when => when ≤ 0 := by
  have hf := h.frame
  have hwall : s'.wall = s.wall := by rw [hf]
  intro e he hneg
  rcases h.timers he with he' | ⟨t, hrep, hexp⟩
  · rw [hf]
    exact hg e he' hneg
  · obtain ⟨u, hw, hu⟩ := (h.owned.sets.timers (ofLex e).1 (ofLex e).2).1 he
    have hfit := hr.2 _ u hw.1
    rw [hu, hexp, hwall] at hfit
    have := restart_pos hrep hnow hle (hwall ▸ hr.1) hfit
    rw [← hexp] at this
    exact absurd this (not_lt.2 hneg)

theorem guarded_rearmed {offset : Int} {s : State} (ho : Owned s [])
    (hmono : s.mono = offset + 1000 * s.wall) (hr : InRange s)
    (hg : Guarded offset s fun when => when ≤ 0) : Guarded offset s.rearmed fun _ => True := by
  unfold State.rearmed
  split
  · next hf =>
    intro e he _
    rw [OrderedSet.first?_eq_none_iff] at hf
    exact absurd (List.length_pos_of_mem he) (by simp [OrderedSet.size] at hf; simp [hf])
  · next f hf =>
    have hmin : ∀ e ∈ s.timers, (ofLex f).1 ≤ (ofLex e).1 :=
      fun e he => key_le (s.timers.first?_le f e hf he)
    have hmem := s.timers.first?_mem f hf
    split
    · obtain ⟨u, hw, hu⟩ := (ho.sets.timers (ofLex f).1 (ofLex f).2).1 hmem
      exact guarded_resetTimerfd s _ hmono (hu ▸ hr.2 _ u hw.1) hmin _
    · -- the earliest expiration is not valid: its timer was added by a callback
      next hv =>
      intro e he _
      have hneg : (ofLex f).1 ≤ 0 := by
        simp only [Timestamp.valid, decide_eq_true_eq, not_lt] at hv
        exact hv
      exact (hg f hmem hneg).mono (max_le_max_right _ (hmin e he))

/-! ### The whole step -/

theorem clocks_step {offset m m' w w' : Int} (h : m = offset + 1000 * w)
    (hct : m' - m = 1000 * (w' - w)) (hle : m ≤ m') : w ≤ w' ∧ m' = offset + 1000 * w' := by
  omega

theorem Armed.congr {offset : Int} {s s' : State} (h : Armed offset s) (hmono : s'.mono = s.mono)
    (hwall : s'.wall = s.wall) (hphase : s'.phase = s.phase)
    (hg : ∀ P : Int → Prop, (∀ w w', w ≤ w' → P w' → P w) → Guarded offset s P →
      Guarded offset s' P) : Armed offset s' where
  mono := by rw [hmono, hwall]; exact h.mono
  wall := by rw [hwall]; exact h.wall
  idle := fun hi => hg _ (fun _ _ _ _ => trivial) (h.idle (hphase ▸ hi))
  entered := by rw [hphase, hwall]; exact h.entered
  calling := by
    intro now expired rest hc
    obtain ⟨h1, h2, h3⟩ := h.calling now expired rest (hphase ▸ hc)
    exact ⟨h1, by rw [hwall]; exact h2, hg _ (fun w w' hle hw' => le_trans hle hw') h3⟩

theorem Armed.effect {offset : Int} {s s' : State} {a : Action} (h : Armed offset s)
    (hct : ClocksTogether s s') (hr : InRange s') (he : Effect s a s') : Armed offset s' := by
  cases he with
  | newTimer _ _ _ => exact h.congr rfl rfl rfl fun P _ hg => hg.subset (fun _ he => he) rfl rfl
  | @addEarliest p t _ ht _ hearly =>
    refine h.congr rfl rfl rfl fun P _ _ => ?_
    refine guarded_resetTimerfd (State.inserted { s with handed := s.handed ++ [t.born] } p t) _
      h.mono (hr.2 p t ht) ?_ P
    intro e he
    rcases (s.timers.mem_insert _ _).1 he with rfl | he
    · exact le_refl _
    · exact le_of_isEarliest hearly he
  | @addLater p t _ _ _ hlate =>
    refine h.congr rfl rfl rfl fun P hP hg => ?_
    exact hg.insert_later hP hlate (p := p) (fun e he => (s.timers.mem_insert _ _).1 he) rfl rfl
  | cancelActive _ _ _ =>
    exact h.congr rfl rfl rfl fun P _ hg =>
      hg.subset (fun e he => ((s.timers.mem_erase _ _).1 he).1) rfl rfl
  | cancelNoted _ _ _ => exact h.congr rfl rfl rfl fun P _ hg => hg.subset (fun _ he => he) rfl rfl
  | cancelStale _ _ _ => exact h
  | handleRead _ =>
    refine ⟨h.mono, h.wall, fun hi => (by cases hi), ?_, fun _ _ _ hc => (by cases hc)⟩
    intro now hnow
    cases hnow
    exact ⟨h.wall, le_refl _⟩
  | @readTimerfd now A hphase hoA =>
    obtain ⟨hpos, hle⟩ := h.entered now hphase
    refine ⟨h.mono, h.wall, fun hi => (by cases hi), fun _ hn => (by cases hn), ?_⟩
    intro now' expired rest hc
    cases hc
    refine ⟨hpos, hle, ?_⟩
    -- what is left expires after `now`, at a valid time
    intro e he hneg
    obtain ⟨-, hsentry⟩ := (s.timers.mem_atLeast _ _).1 he
    have hkey : now ≤ (ofLex e).1 := key_le hsentry
    exact absurd (lt_of_lt_of_le hpos hkey) (not_lt.2 hneg)
  | @runCallback now expired rest e t hphase _ =>
    obtain ⟨h1, h2, h3⟩ := h.calling now expired (e :: rest) hphase
    refine ⟨h.mono, h.wall, fun hi => (by cases hi), fun _ hn => (by cases hn), ?_⟩
    intro now' expired' rest' hc
    cases hc
    exact ⟨h1, h2, h3⟩
  | @reset now expired u hphase hl =>
    obtain ⟨h1, h2, h3⟩ := h.calling now expired [] hphase
    have hf := hl.frame
    have hru : InRange u := by
      rw [rearmed_frame] at hr
      exact hr
    have hmono : u.mono = offset + 1000 * u.wall := by
      rw [hf]
      exact h.mono
    have hg := guarded_rearmed hl.owned hmono hru (hl.guarded h1 h2 hru h3)
    have hp : u.rearmed.phase = .idle := by rw [rearmed_frame, hf]
    refine ⟨?_, ?_, fun _ => hg, fun _ hn => (by rw [hp] at hn; cases hn),
      fun _ _ _ hc => (by rw [hp] at hc; cases hc)⟩
    · rw [rearmed_frame]
      exact hmono
    · rw [rearmed_frame, hf]
      exact h.wall
  | @clock wall mono hle =>
    obtain ⟨hwall, hmono⟩ := clocks_step h.mono hct hle
    refine ⟨hmono, lt_of_lt_of_le h.wall hwall, fun hi => (h.idle hi).advance wall mono, ?_, ?_⟩
    · intro now hnow
      obtain ⟨h1, h2⟩ := h.entered now hnow
      exact ⟨h1, le_trans h2 hwall⟩
    · intro now expired rest hc
      obtain ⟨h1, h2, h3⟩ := h.calling now expired rest hc
      exact ⟨h1, le_trans h2 hwall, h3.advance wall mono⟩
  | destroy _ _ _ =>
    exact ⟨h.mono, h.wall, fun hi => (by cases hi), fun _ hn => (by cases hn),
      fun _ _ _ hc => (by cases hc)⟩

/-- **No timer is stranded.**  In every run whose clocks advance together, from a positive
time, with every expiration in range: outside `handleRead`, when `timers_` is not empty, the
timerfd has an unread expiration or is armed with a deadline not later than the earliest
expiration or 100 µs after the last `timerfd_settime`.  (`s.mono - 1000 * s.wall` turns the
time of one clock into that of the other.) -/
theorem timerfd_armed (wall mono : Int) (as : List Action) (s : State) (e : Entry)
    (hwall : 0 < wall) (hr : machine.run (init wall mono) as = some s)
    (hsteps : machine.StepsMeet (fun s _ s' => ClocksTogether s s' ∧ InRange s')
      (init wall mono) as)
    (hidle : s.phase = .idle) (hfirst : s.timers.first? = some e) :
    0 < s.timerfd.expirations ∨ ∃ d, s.timerfd.deadline = some d ∧
      d - (s.mono - 1000 * s.wall) ≤ 1000 * max (ofLex e).1 (s.lastSettime + 100) := by
  have hkeeps : machine.Keeps (fun s _ s' => ClocksTogether s s' ∧ InRange s')
      (fun s => Inv s ∧ Armed (mono - 1000 * wall) s) := by
    rintro s a s' ⟨hinv, harm⟩ ⟨hct, hrange⟩ hen hs
    obtain ⟨u, hu, hef⟩ := hinv.step_effect hen
    cases hu.symm.trans hs
    exact ⟨hinv.effect hef, harm.effect hct hrange hef⟩
  have hinit : Armed (mono - 1000 * wall) (init wall mono) :=
    ⟨by simp [init], hwall, fun _ e he => absurd he (OrderedSet.not_mem_empty e),
      fun _ hn => (by cases hn), fun _ _ _ hc => (by cases hc)⟩
  obtain ⟨-, harm⟩ := hkeeps.run ⟨init_inv wall mono, hinit⟩ hsteps hr
  have hmono := harm.mono
  rcases harm.idle hidle e (s.timers.first?_mem e hfirst) trivial with h | ⟨d, hd, hle⟩
  · exact Or.inl h
  · exact Or.inr ⟨d, hd, by omega⟩

/-! ## A run -/

/-- All timers in memory are at `ps`. -/
def OnlyAt (ps : List Addr) (s : State) : Prop := ∀ p ∉ ps, s.heap p = none

/-- `InRange` for the timers at `ps`. -/
def inRangeAt (ps : List Addr) (s : State) : Bool :=
  decide (Fits 64 s.wall) && ps.all fun p =>
    match s.heap p with
    | some t => decide (Fits 64 (t.expiration - s.wall))
    | none => true

def Action.createsAt (ps : List Addr) : Action → Bool
  | .newTimer p _ _ => ps.contains p
  | _ => true

theorem ResetLoop.onlyAt {now : Timestamp} {s s' : State} {l : List Entry} {ps : List Addr}
    (h : ResetLoop now s l s') (hps : OnlyAt ps s) : OnlyAt ps s' := by
  induction h with
  | nil s _ => exact hps
  | @keep s s' e l t _ ht _ _ _ ih =>
    refine ih fun p hp => ?_
    have hne : p ≠ (ofLex e).2 := by
      rintro rfl
      rw [hps _ hp] at ht
      cases ht
    exact (Function.update_of_ne hne _ _).trans (hps p hp)
  | @drop s s' e l t _ _ _ _ ih =>
    refine ih fun p hp => ?_
    show Function.update s.heap (ofLex e).2 none p = none
    rw [Function.update_apply, hps p hp, ite_self]

/-- Only a `newTimer` puts a timer where none was. -/
theorem OnlyAt.effect {s s' : State} {a : Action} {ps : List Addr} (h : OnlyAt ps s)
    (he : Effect s a s') (ha : a.createsAt ps = true) : OnlyAt ps s' := by
  cases he with
  | @newTimer p when interval _ _ _ =>
    intro q hq
    have hne : q ≠ p := by
      rintro rfl
      exact hq (List.contains_iff_mem.1 ha)
    exact (Function.update_of_ne hne _ _).trans (h q hq)
  | addEarliest _ _ _ _ => exact h
  | addLater _ _ _ _ => exact h
  | @cancelActive timerId t _ _ _ =>
    intro q hq
    show Function.update s.heap timerId.timer none q = none
    rw [Function.update_apply, h q hq, ite_self]
  | cancelNoted _ _ _ => exact h
  | cancelStale _ _ _ => exact h
  | handleRead _ => exact h
  | readTimerfd _ _ => exact h
  | runCallback _ _ => exact h
  | @reset now expired u hphase hl =>
    intro q hq
    rw [rearmed_frame]
    exact hl.onlyAt (s := { s with callingExpiredTimers := false, phase := .idle }) h q hq
  | clock _ => exact h
  | @destroy H D _ _ hH =>
    intro q hq
    cases hu : H q with
    | none => exact hu
    | some u =>
      have hs := ((hH q u).1 hu).1
      rw [h q hq] at hs
      cases hs

theorem OnlyAt.inRange {s : State} {ps : List Addr} (h : OnlyAt ps s)
    (hr : inRangeAt ps s = true) : InRange s := by
  rw [inRangeAt, Bool.and_eq_true, decide_eq_true_iff, List.all_eq_true] at hr
  refine ⟨hr.1, fun p t ht => ?_⟩
  by_cases hp : p ∈ ps
  · have hfits := hr.2 p hp
    rw [ht] at hfits
    exact of_decide_eq_true hfits
  · rw [h p hp] at ht
    cases ht

/-- The earliest timer, which is long past, is cancelled after it has armed the timerfd.  At that
time another one is due, whose callback adds one at zero, which `reset` does not take for valid,
and one that comes last. -/
def pastRun : List Action :=
  [.newTimer 8 (-5) .zero, .addTimerInLoop 8, .newTimer 16 160 .zero, .addTimerInLoop 16,
    .newTimer 24 500 .zero, .addTimerInLoop 24, .cancelInLoop ⟨8, 1⟩, .clock 210 210000,
    .handleRead, .readTimerfd, .runCallback, .newTimer 32 0 .zero, .addTimerInLoop 32,
    .newTimer 8 600 .zero, .addTimerInLoop 8, .reset]

theorem pastRun_timerfd_armed :
    ∃ s e, machine.run (init 100 100000) pastRun = some s ∧ s.timers.first? = some e ∧
      (ofLex e).1 = 0 ∧ s.timers.size = 3 ∧ s.lastSettime = 210 ∧
      (0 < s.timerfd.expirations ∨ ∃ d, s.timerfd.deadline = some d ∧
        d - (s.mono - 1000 * s.wall) ≤ 1000 * max (ofLex e).1 (s.lastSettime + 100)) := by
  have hsteps : machine.StepsMeet (fun s a s' => ClocksTogether s s' ∧
      inRangeAt [8, 16, 24, 32] s' = true ∧ a.createsAt [8, 16, 24, 32] = true)
      (init 100 100000) pastRun := by
    unfold ClocksTogether
    decide
  have hmeet : machine.StepsMeet (fun s _ s' => ClocksTogether s s' ∧ InRange s')
      (init 100 100000) pastRun := by
    refine Machine.StepsMeet.imp (I := fun s => Inv s ∧ OnlyAt [8, 16, 24, 32] s) ?_
      ⟨init_inv 100 100000, fun _ _ => rfl⟩ hsteps rfl
    rintro s a t ⟨hinv, hat⟩ ⟨hct, hr, ha⟩ he ht
    obtain ⟨u, hu, hef⟩ := hinv.step_effect he
    cases hu.symm.trans ht
    have hat' := hat.effect hef ha
    exact ⟨⟨hinv.effect hef, hat'⟩, hct, hat'.inRange hr⟩
  exact ⟨_, _, rfl, rfl, rfl, rfl, rfl,
    timerfd_armed 100 100000 pastRun _ _ (by decide) rfl hmeet rfl rfl⟩

end TimerQueue

end Rawmd
