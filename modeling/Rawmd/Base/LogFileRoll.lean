import Rawmd.Base.LogFile

/-!
# `base/LogFile.cpp`: when the file is rolled

Appends with a clock that does not go back, one reading each.  The size is looked at after every
line, the day only when `count_` reaches `checkEveryN_`, and both may ask for a roll in the second
the file was opened in, which is refused.

    Rolling now s → now ≤ now' → Rolling now' after the append          (Rolling.append)
    so it holds after every append                                      (logFile_rollover)
-/

namespace Rawmd

namespace LogFile

variable {fwrite : Nat → Nat → Nat} {cfg : Config}

def dayOf (now : Int) : Int := now / kRollPerSeconds

theorem periodOf_eq {now : Int} (h : 0 < now) : periodOf now = dayOf now * kRollPerSeconds := by
  rw [periodOf, dayOf, Int.tdiv_eq_ediv_of_nonneg (Int.le_of_lt h)]

theorem dayOf_mono {a b : Int} (h : a ≤ b) : dayOf a ≤ dayOf b :=
  Int.ediv_le_ediv (by decide) h

/-- The lines written on a later day than the file was opened on. -/
def Opened.later (f : Opened) : Nat :=
  f.writes.countP fun now => dayOf f.openedAt < dayOf now

theorem later_write_le (fwrite : Nat → Nat → Nat) (f : Opened) (logline : Text) (now : Int) :
    (f.write fwrite logline now).later ≤ f.later + 1 := by
  simp only [Opened.later, Opened.write, List.countP_append]
  exact Nat.add_le_add_left List.countP_le_length _

/-- As long as the day is the same, no line is late. -/
theorem later_eq_zero {f : Opened} {now : Int} (hwrites : ∀ w ∈ f.writes, w ≤ now)
    (hday : dayOf now ≤ dayOf f.openedAt) : f.later = 0 := by
  refine List.countP_eq_zero.2 fun w hw => ?_
  have hw := dayOf_mono (hwrites w hw)
  simp only [decide_eq_true_eq]
  omega

/-- What holds after an append, or the constructor, at the second `now`. -/
structure Rolling (cfg : Config) (now : Int) (s : State) : Prop where
  lastRoll_pos : 0 < s.lastRoll
  lastRoll_le : s.lastRoll ≤ now
  startOfPeriod : s.startOfPeriod = dayOf s.lastRoll * kRollPerSeconds
  lastFlush : s.lastRoll ≤ s.lastFlush
  count_nonneg : 0 ≤ s.count
  count_lt : s.count < cfg.checkEveryN
  size : writtenBytes s > cfg.rollSize → now = s.lastRoll
  openedAt : ∀ f ∈ s.file, f.openedAt = s.lastRoll
  writes : ∀ f ∈ s.file, ∀ w ∈ f.writes, w ≤ now
  -- Every late line was counted since the file was opened, for no roll was refused on a later day.
  later : ∀ f ∈ s.file, (f.later : Int) ≤ s.count
  closed : ∀ f ∈ s.closed, (f.later : Int) ≤ cfg.checkEveryN

/-- The next file is opened. -/
theorem Rolling.opened {s : State} {reading : Reading} (hroll : 0 ≤ cfg.rollSize)
    (hnow : 0 < reading.now) (hnonneg : 0 ≤ s.count) (hlt : s.count < cfg.checkEveryN)
    (hfiles : ∀ f ∈ s.files, (f.later : Int) ≤ cfg.checkEveryN) :
    Rolling cfg reading.now { s with
      lastRoll := reading.now
      lastFlush := reading.now
      startOfPeriod := periodOf reading.now
      closed := s.files
      file := some ⟨.fopen (getLogFileName cfg.basename reading), reading.now, []⟩ } where
  lastRoll_pos := hnow
  lastRoll_le := Int.le_refl _
  startOfPeriod := periodOf_eq hnow
  lastFlush := Int.le_refl _
  count_nonneg := hnonneg
  count_lt := hlt
  size hsize := absurd hsize (Int.not_lt.2 hroll)
  openedAt := by
    rintro f ⟨⟩
    rfl
  writes := by
    rintro f ⟨⟩
    exact nofun
  later := by
    rintro f ⟨⟩
    exact hnonneg
  closed := hfiles

theorem Rolling.write_le {s : State} {f : Opened} {last now : Int} (hs : Rolling cfg last s)
    (hf : s.file = some f) (hlast : last ≤ now) (logline : Text) :
    ∀ w ∈ (f.write fwrite logline now).writes, w ≤ now := by
  refine List.forall_mem_append.2 ⟨?_, ?_⟩
  · intro w hw
    exact Int.le_trans (hs.writes f hf w hw) hlast
  · rw [List.forall_mem_singleton]

theorem Rolling.later_write {s : State} {f : Opened} {last now : Int} {logline : Text}
    (hs : Rolling cfg last s) (hf : s.file = some f) :
    ((f.write fwrite logline now).later : Int) ≤ s.count + 1 := by
  have := later_write_le fwrite f logline now
  have := hs.later f hf
  omega

theorem Rolling.later_sameDay {s : State} {f : Opened} {last now : Int} {logline : Text}
    (hs : Rolling cfg last s) (hf : s.file = some f) (hlast : last ≤ now)
    (hday : dayOf now ≤ dayOf s.lastRoll) : (f.write fwrite logline now).later = 0 := by
  rw [← hs.openedAt f hf] at hday
  exact later_eq_zero (hs.write_le hf hlast logline) hday

/-- A line is added to the file. -/
theorem Rolling.written {s : State} {f : Opened} {last now count lastFlush : Int} {logline : Text}
    (hs : Rolling cfg last s) (hf : s.file = some f) (hlast : last ≤ now) (hnonneg : 0 ≤ count)
    (hlt : count < cfg.checkEveryN) (hflush : s.lastRoll ≤ lastFlush)
    (hsize : (f.write fwrite logline now).file.writtenBytes > cfg.rollSize → now = s.lastRoll)
    (hlater : ((f.write fwrite logline now).later : Int) ≤ count) :
    Rolling cfg now { s with
      file := some (f.write fwrite logline now), count := count, lastFlush := lastFlush } where
  lastRoll_pos := hs.lastRoll_pos
  lastRoll_le := Int.le_trans hs.lastRoll_le hlast
  startOfPeriod := hs.startOfPeriod
  lastFlush := hflush
  count_nonneg := hnonneg
  count_lt := hlt
  size := hsize
  openedAt := by
    rintro g ⟨⟩
    exact hs.openedAt f hf
  writes := by
    rintro g ⟨⟩
    exact hs.write_le hf hlast logline
  later := by
    rintro g ⟨⟩
    exact hlater
  closed := hs.closed

/-- A roll is refused only in the second the file was opened in. -/
theorem Rolling.append {s t : State} {last : Int} {logline : Text} {reading : Reading}
    (hroll : 0 ≤ cfg.rollSize) (hcheck : 1 ≤ cfg.checkEveryN) (hs : Rolling cfg last s)
    (hlast : last ≤ reading.now)
    (h : appendUnlocked fwrite cfg s logline reading.now reading = .ok t) :
    Rolling cfg reading.now t := by
  obtain ⟨f, u, hf, hu, h⟩ := appendUnlocked_cases h
  have hpos := hs.lastRoll_pos
  have hlastRoll := hs.lastRoll_le
  have hnonneg := hs.count_nonneg
  have hlt := hs.count_lt
  have hlater : ((f.write fwrite logline reading.now).later : Int) ≤ s.count + 1 :=
    hs.later_write hf
  have hfiles : ∀ g ∈ u.files, (g.later : Int) ≤ cfg.checkEveryN := by
    rw [hu]
    refine List.forall_mem_append.2 ⟨hs.closed, ?_⟩
    intro g hg
    rw [List.mem_singleton.1 hg]
    omega
  have hperiod : periodOf reading.now = dayOf reading.now * kRollPerSeconds :=
    periodOf_eq (by omega)
  have hstart := hs.startOfPeriod
  rcases h with ⟨-, h⟩ | ⟨hsize, ⟨-, hday, h⟩ | ⟨-, hday, h⟩ | ⟨hcount, rfl⟩⟩
  · obtain ⟨hrefused, rfl⟩ | ⟨-, rfl⟩ := rollFile_cases h
    · rw [hu] at hrefused ⊢
      dsimp only at hrefused
      have hzero : (f.write fwrite logline reading.now).later = 0 :=
        hs.later_sameDay hf hlast (dayOf_mono hrefused)
      exact hs.written hf hlast hnonneg hlt hs.lastFlush (fun _ => by omega) (by omega)
    · have hcount : u.count = s.count := by rw [hu]
      exact Rolling.opened hroll (by omega) (by omega) (by omega) hfiles
  · obtain ⟨hrefused, -⟩ | ⟨-, rfl⟩ := rollFile_cases h
    · -- the same second would be on the same day
      rw [hu] at hrefused
      dsimp only at hrefused
      have heq : reading.now = s.lastRoll := by omega
      rw [hperiod, hstart, heq] at hday
      exact absurd rfl hday
    · exact Rolling.opened hroll (by omega) (Int.le_refl 0) hcheck hfiles
  · have hzero : (f.write fwrite logline reading.now).later = 0 := by
      rw [hperiod, hstart] at hday
      have hsame := Int.eq_of_mul_eq_mul_right (by decide) hday
      exact hs.later_sameDay hf hlast (Int.le_of_eq hsame)
    have hstays (lastFlush : Int) (hflush : s.lastRoll ≤ lastFlush) :
        Rolling cfg reading.now { u with count := 0, lastFlush := lastFlush } := by
      rw [hu] at hsize ⊢
      exact hs.written hf hlast (Int.le_refl 0) hcheck hflush
        (fun hover => absurd hover (Int.not_lt.2 hsize)) (by omega)
    rcases h with rfl | rfl
    · exact hstays _ (by omega)
    · have hflush : u.lastFlush = s.lastFlush := by rw [hu]
      exact hstays _ (by rw [hflush]; exact hs.lastFlush)
  · rw [hu] at hsize ⊢
    exact hs.written hf hlast (by omega) hcount hs.lastFlush
      (fun hover => absurd hover (Int.not_lt.2 hsize)) hlater

/-! ## Runs -/

/-- Each line with the reading of its append. -/
def appendsOf (lines : List (Text × Reading)) : List Action :=
  lines.map fun line => .append line.1 line.2.now line.2

theorem Rolling.run {s t : State} {last : Int} {lines : List (Text × Reading)}
    (hroll : 0 ≤ cfg.rollSize) (hcheck : 1 ≤ cfg.checkEveryN) (hs : Rolling cfg last s)
    (hclock : (last :: lines.map fun line => line.2.now).Pairwise (· ≤ ·))
    (h : (logFile fwrite cfg).run s (appendsOf lines) = some t) :
    Rolling cfg ((lines.map fun line => line.2.now).getLastD last) t := by
  induction lines generalizing s last with
  | nil =>
    cases h
    exact hs
  | cons line lines ih =>
    obtain ⟨-, u, hu, h⟩ := (Machine.run_cons_iff _ _ _ _ _).1 h
    obtain ⟨hlast, hclock⟩ := List.pairwise_cons.1 hclock
    have hu := hs.append hroll hcheck (hlast _ List.mem_cons_self) hu
    rw [List.map_cons, List.getLastD_cons]
    exact ih hu hclock h

theorem Rolling.construct {s : State} {reading : Reading} (hroll : 0 ≤ cfg.rollSize)
    (hcheck : 1 ≤ cfg.checkEveryN) (hnow : 0 < reading.now)
    (h : construct cfg reading = .ok s) : Rolling cfg reading.now s := by
  obtain ⟨hrefused, -⟩ | ⟨-, rfl⟩ := rollFile_cases (construct_cases h).2
  · exact absurd hnow (Int.not_lt.2 hrefused)
  · exact Rolling.opened hroll hnow (Int.le_refl 0) hcheck nofun

theorem logFile_rollover {first : Reading} {s t : State} {lines : List (Text × Reading)}
    (hroll : 0 ≤ cfg.rollSize) (hcheck : 1 ≤ cfg.checkEveryN) (hnow : 0 < first.now)
    (hclock : (first.now :: lines.map fun line => line.2.now).Pairwise (· ≤ ·))
    (hs : construct cfg first = .ok s)
    (ht : (logFile fwrite cfg).run s (appendsOf lines) = some t) :
    (writtenBytes t > cfg.rollSize →
      (lines.map fun line => line.2.now).getLastD first.now = t.lastRoll ∧
        ∀ f ∈ t.file, f.openedAt = t.lastRoll) ∧
    t.startOfPeriod = t.lastRoll / 86400 * 86400 ∧ t.lastRoll ≤ t.lastFlush ∧
    0 ≤ t.count ∧ t.count < cfg.checkEveryN ∧
    ∀ f ∈ t.files,
      ((f.writes.countP fun now => f.openedAt / 86400 < now / 86400 : Nat) : Int) ≤
        cfg.checkEveryN := by
  have hrolling := (Rolling.construct hroll hcheck hnow hs).run hroll hcheck hclock ht
  refine ⟨fun hsize => ⟨hrolling.size hsize, hrolling.openedAt⟩, hrolling.startOfPeriod,
    hrolling.lastFlush, hrolling.count_nonneg, hrolling.count_lt, ?_⟩
  refine List.forall_mem_append.2 ⟨hrolling.closed, ?_⟩
  intro f hf
  have hlater := hrolling.later f (Option.mem_toList.1 hf)
  exact Int.le_trans hlater (Int.le_of_lt hrolling.count_lt)

/-- A roll refused in the second of the constructor, one by size, and one by the day. -/
def exampleLines : List (Text × Reading) :=
  [("hello".toList, exampleReading 100), ("a".toList, exampleReading 86399),
    ("b".toList, exampleReading 86400), ("c".toList, exampleReading 86401)]

theorem exampleLines_rollover :
    ∃ s t, construct exampleConfig (exampleReading 100) = .ok s ∧
      (logFile (fun _ n => n) exampleConfig).run s (appendsOf exampleLines) = some t ∧
      t.files.map Opened.openedAt = [100, 86399, 86401] ∧ t.lastRoll = 86401 ∧
      t.startOfPeriod = t.lastRoll / 86400 * 86400 ∧ t.count < 2 ∧
      ∀ f ∈ t.files,
        ((f.writes.countP fun now => f.openedAt / 86400 < now / 86400 : Nat) : Int) ≤ 2 := by
  have hrun : ∃ s t, construct exampleConfig (exampleReading 100) = .ok s ∧
      (logFile (fun _ n => n) exampleConfig).run s (appendsOf exampleLines) = some t ∧
      t.files.map Opened.openedAt = [100, 86399, 86401] ∧ t.lastRoll = 86401 :=
    ⟨_, _, rfl, rfl, rfl, rfl⟩
  obtain ⟨s, t, hs, ht, hfiles, hroll⟩ := hrun
  obtain ⟨-, hstart, -, -, hcount, hlater⟩ := logFile_rollover (by decide) (by decide)
    (show 0 < (exampleReading 100).now by decide) (by decide) hs ht
  exact ⟨s, t, hs, ht, hfiles, hroll, hstart, hcount, hlater⟩

end LogFile

end Rawmd
