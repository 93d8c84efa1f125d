import Rawmd.Lib.Machine
import Rawmd.Lib.Except
import Rawmd.Base.FileUtil
import Rawmd.Base.TimeZone

/-!
# `base/LogFile.cpp`

A `LogFile` with the files it has opened.  Every call of `time` gives any value; a reading for
`getLogFileName` also has the host name and the process id of that moment.

    the files hold the lines in their order, each in one file      (logFile_keeps_lines)
    and have different names, by the seconds they were opened in    (getLogFileName_inj)
-/

namespace Rawmd

open Printf

namespace LogFile

def kRollPerSeconds : Int := 60 * 60 * 24

structure Config where
  basename : Text
  rollSize : Int
  flushInterval : Int
  checkEveryN : Int

/-- What `getLogFileName` reads; `opened` says that `fopen` succeeds. -/
structure Reading where
  now : Int
  hostname : Text
  pid : Int
  opened : Bool

/-- `strftime(".%Y%m%d-%H%M%S.")` -/
def timebuf (tm : Tm) : Text :=
  ['.'] ++ (signed (tm.year + 1900) ++ (zeroPadded 2 (tm.mon + 1) ++ (zeroPadded 2 tm.mday ++
    (['-'] ++ (zeroPadded 2 tm.hour ++ (zeroPadded 2 tm.min ++ (zeroPadded 2 tm.sec ++ ['.'])))))))

def getLogFileName (basename : Text) (reading : Reading) : Text :=
  basename ++ (timebuf (gmtimeR reading.now) ++
    (reading.hostname ++ (snprintf 32 (['.'] ++ signed reading.pid) ++ ".log".toList)))

/-- A file with the second it was opened in and the seconds its lines were written in, which the
program does not keep. -/
structure Opened where
  file : AppendFile
  openedAt : Int
  writes : List Int

structure State where
  count : Int
  startOfPeriod : Int
  lastRoll : Int
  lastFlush : Int
  closed : List Opened
  file : Option Opened

/-- The files in the order they were opened. -/
def State.files (s : State) : List Opened := s.closed ++ s.file.toList

/-- `file_` is null, the assert of `AppendFile` fails, or that of `LogFile`. -/
inductive Fault where
  | null
  | fopen
  | basename
deriving DecidableEq, Repr

/-- `now / kRollPerSeconds_ * kRollPerSeconds_` -/
def periodOf (now : Int) : Int := now.tdiv kRollPerSeconds * kRollPerSeconds

def rollFile (cfg : Config) (s : State) (reading : Reading) : Except Fault State :=
  if reading.now > s.lastRoll then
    if reading.opened then
      .ok { s with
        lastRoll := reading.now
        lastFlush := reading.now
        startOfPeriod := periodOf reading.now
        closed := s.files
        file := some ⟨.fopen (getLogFileName cfg.basename reading), reading.now, []⟩ }
    else .error .fopen
  else .ok s

/-- `LogFile(..)` -/
def construct (cfg : Config) (reading : Reading) : Except Fault State :=
  if '/' ∈ cfg.basename then .error .basename
  else rollFile cfg ⟨0, 0, 0, 0, [], none⟩ reading

variable (fwrite : Nat → Nat → Nat) (cfg : Config)

def Opened.write (f : Opened) (logline : Text) (now : Int) : Opened :=
  ⟨f.file.append fwrite logline, f.openedAt, f.writes ++ [now]⟩

/-- `file_->append`, at the second `now`. -/
def writeLine (s : State) (logline : Text) (now : Int) : Except Fault State :=
  match s.file with
  | some f => .ok { s with file := some (f.write fwrite logline now) }
  | none => .error .null

def writtenBytes (s : State) : Int :=
  match s.file with
  | some f => f.file.writtenBytes
  | none => 0

/-- `now` is read for the day, `reading` for the name of the next file. -/
def appendUnlocked (s : State) (logline : Text) (now : Int) (reading : Reading) :
    Except Fault State := do
  let s ← writeLine fwrite s logline now
  if writtenBytes s > cfg.rollSize then
    rollFile cfg s reading
  else if s.count + 1 ≥ cfg.checkEveryN then
    let s := { s with count := 0 }
    if periodOf now ≠ s.startOfPeriod then
      rollFile cfg s reading
    else if now - s.lastFlush > cfg.flushInterval then
      return { s with lastFlush := now }
    else return s
  else return { s with count := s.count + 1 }

inductive Action where
  | append (logline : Text) (now : Int) (reading : Reading)
  | flush
  | rollFile (reading : Reading)

def logFile : Machine State Action Fault where
  enabled _ _ := true
  step s
    | .append logline now reading => appendUnlocked fwrite cfg s logline now reading
    | .flush => if s.file.isSome then .ok s else .error .null
    | .rollFile reading => LogFile.rollFile cfg s reading

/-! ## File names -/

theorem year_nonneg {now : Int} (h : 0 < now) : 0 ≤ (gmtimeR now).year + 1900 := by
  by_contra hneg
  have hdays : 0 ≤ now / kSecondsPerDay := Int.ediv_nonneg (by omega) (by decide)
  have hyear : (gmtimeR now).year + 1900 = (Civil.ofDays (now / kSecondsPerDay)).year := by
    simp only [gmtimeR, Int.sub_add_cancel]
  have hepoch : Civil.Valid ⟨1970, 1, 1⟩ := ⟨by decide, by decide, by decide, by decide⟩
  have hbefore : (Civil.ofDays (now / kSecondsPerDay)).Before ⟨1970, 1, 1⟩ :=
    .inl (by dsimp only; omega)
  have hlt := Civil.toDays_lt_of_before (Civil.ofDays_valid _) hepoch hbefore
  have hzero : Civil.toDays ⟨1970, 1, 1⟩ = 0 := by decide
  rw [Civil.toDays_ofDays] at hlt
  omega

/-- The date in front of the dash. -/
def dateText (tm : Tm) : Text :=
  signed (tm.year + 1900) ++ (zeroPadded 2 (tm.mon + 1) ++ zeroPadded 2 tm.mday)

theorem not_mem_dateText {now : Int} (h : 0 < now) : '-' ∉ dateText (gmtimeR now) := by
  have hyear := year_nonneg h
  have hb := gmtimeR_bounds now
  have hmon := hb.mon
  have hmday := hb.mday
  have hdigits : ('-' : Char).isDigit = false := by decide
  rw [dateText, signed, zeroPadded, zeroPadded, if_neg (by omega), if_neg (by omega),
    if_neg (by omega)]
  simp only [List.mem_append, not_or]
  exact ⟨not_mem_decimal hdigits _, not_mem_zeros hdigits _ _, not_mem_zeros hdigits _ _⟩

theorem timebuf_append (tm : Tm) (rest : Text) :
    timebuf tm ++ rest = ['.'] ++ (dateText tm ++ '-' :: (zeroPadded 2 tm.hour ++
      (zeroPadded 2 tm.min ++ (zeroPadded 2 tm.sec ++ ('.' :: rest))))) := by
  simp [timebuf, dateText]

theorem dateText_inj {a b : Tm} (ha : a.Bounds) (hb : b.Bounds) (hya : 0 ≤ a.year + 1900)
    (hyb : 0 ≤ b.year + 1900) (h : dateText a = dateText b) :
    a.year = b.year ∧ a.mon = b.mon ∧ a.mday = b.mday := by
  have hamon := ha.mon
  have hamday := ha.mday
  have hbmon := hb.mon
  have hbmday := hb.mday
  have hlen : (zeroPadded 2 (a.mon + 1) ++ zeroPadded 2 a.mday).length =
      (zeroPadded 2 (b.mon + 1) ++ zeroPadded 2 b.mday).length := by
    rw [List.length_append, List.length_append, length_two (by omega), length_two (by omega),
      length_two (by omega), length_two (by omega)]
  obtain ⟨hyear, hrest⟩ := List.append_inj' h hlen
  obtain ⟨hmon, hmday⟩ := two_append_inj (by omega) (by omega) hrest
  have hmday := zeroPadded_inj hmday
  rw [signed, signed, if_neg (by omega), if_neg (by omega)] at hyear
  have := decimal_inj hyear
  omega

/-- Whatever the host and the process are called, the name shows the second. -/
theorem getLogFileName_inj {basename : Text} {a b : Reading} (ha : 0 < a.now) (hb : 0 < b.now)
    (h : getLogFileName basename a = getLogFileName basename b) : a.now = b.now := by
  have hboundsa := gmtimeR_bounds a.now
  have hboundsb := gmtimeR_bounds b.now
  have h := List.append_cancel_left h
  rw [timebuf_append, timebuf_append] at h
  have h := List.append_cancel_left h
  obtain ⟨hdate, h⟩ := append_cons_inj (not_mem_dateText ha) (not_mem_dateText hb) h
  obtain ⟨hyear, hmon, hmday⟩ := dateText_inj hboundsa hboundsb (year_nonneg ha) (year_nonneg hb)
    hdate
  have hhour := hboundsa.hour
  have hhour' := hboundsb.hour
  have hmin := hboundsa.min
  have hmin' := hboundsb.min
  have hsec := hboundsa.sec
  have hsec' := hboundsb.sec
  obtain ⟨hhourEq, h⟩ := two_append_inj (by omega) (by omega) h
  obtain ⟨hminEq, h⟩ := two_append_inj (by omega) (by omega) h
  obtain ⟨hsecEq, -⟩ := two_append_inj (by omega) (by omega) h
  have hseconds : (gmtimeR a.now).seconds = (gmtimeR b.now).seconds := by
    simp only [Tm.seconds, hyear, hmon, hmday, hhourEq, hminEq, hsecEq]
  rwa [seconds_gmtimeR, seconds_gmtimeR] at hseconds

/-! ## What the operations do -/

variable {fwrite cfg}

theorem rollFile_cases {s t : State} {reading : Reading}
    (h : LogFile.rollFile cfg s reading = .ok t) :
    (reading.now ≤ s.lastRoll ∧ t = s) ∨
    (s.lastRoll < reading.now ∧ t = { s with
      lastRoll := reading.now
      lastFlush := reading.now
      startOfPeriod := periodOf reading.now
      closed := s.files
      file := some ⟨.fopen (getLogFileName cfg.basename reading), reading.now, []⟩ }) := by
  unfold LogFile.rollFile at h
  split at h
  · next hlater =>
    split at h
    · cases h
      exact .inr ⟨hlater, rfl⟩
    · cases h
  · next hearlier =>
    cases h
    exact .inl ⟨by omega, rfl⟩

theorem construct_cases {s : State} {reading : Reading} (h : construct cfg reading = .ok s) :
    '/' ∉ cfg.basename ∧ LogFile.rollFile cfg ⟨0, 0, 0, 0, [], none⟩ reading = .ok s := by
  unfold construct at h
  split at h
  · cases h
  · next hbasename => exact ⟨hbasename, h⟩

/-- The line is written first.  Then the size, the day or neither asks for another file. -/
theorem appendUnlocked_cases {s t : State} {logline : Text} {now : Int} {reading : Reading}
    (h : appendUnlocked fwrite cfg s logline now reading = .ok t) :
    ∃ f u, s.file = some f ∧ u = { s with file := some (f.write fwrite logline now) } ∧
      ((writtenBytes u > cfg.rollSize ∧ LogFile.rollFile cfg u reading = .ok t) ∨
      (writtenBytes u ≤ cfg.rollSize ∧
        ((cfg.checkEveryN ≤ s.count + 1 ∧ periodOf now ≠ s.startOfPeriod ∧
          LogFile.rollFile cfg { u with count := 0 } reading = .ok t) ∨
        (cfg.checkEveryN ≤ s.count + 1 ∧ periodOf now = s.startOfPeriod ∧
          (t = { u with count := 0, lastFlush := now } ∨ t = { u with count := 0 })) ∨
        (s.count + 1 < cfg.checkEveryN ∧ t = { u with count := s.count + 1 })))) := by
  obtain ⟨u, hu, h⟩ := Except.bind_ok h
  unfold writeLine at hu
  split at hu
  · next f hf =>
    cases hu
    refine ⟨f, _, hf, rfl, ?_⟩
    split at h
    · next hsize => exact .inl ⟨hsize, h⟩
    · next hsize =>
      refine .inr ⟨Int.not_lt.1 hsize, ?_⟩
      split at h
      · next hcount =>
        dsimp only at h
        split at h
        · next hday => exact .inl ⟨hcount, hday, h⟩
        · next hday =>
          refine .inr (.inl ⟨hcount, not_not.1 hday, ?_⟩)
          split at h
          · cases h
            exact .inl rfl
          · cases h
            exact .inr rfl
      · next hcount =>
        cases h
        exact .inr (.inr ⟨Int.not_le.1 hcount, rfl⟩)
  · cases hu

/-! ## Lines in files -/

/-- The lines are in the files in their order, none of them in two. -/
def Holds (contents lines : List Text) : Prop :=
  ∃ groups : List (List Text), contents = groups.map List.flatten ∧ groups.flatten = lines

theorem Holds.create {contents lines : List Text} (h : Holds contents lines) :
    Holds (contents ++ [[]]) lines := by
  obtain ⟨groups, rfl, rfl⟩ := h
  exact ⟨groups ++ [[]], by simp, by simp⟩

theorem Holds.write {contents lines : List Text} {content : Text}
    (h : Holds (contents ++ [content]) lines) (line : Text) :
    Holds (contents ++ [content ++ line]) (lines ++ [line]) := by
  obtain ⟨groups, hcontents, rfl⟩ := h
  obtain ⟨earlier, last, rfl, rfl, hlast⟩ := List.append_eq_map_iff.1 hcontents
  obtain ⟨group, rfl, rfl⟩ := List.map_eq_singleton_iff.1 hlast
  exact ⟨earlier ++ [group ++ [line]], by simp, by simp⟩

/-! ## What an append keeps -/

/-- What a line, a roll and a change of the counters keep, an append keeps. -/
theorem append_keeps {P : State → Prop} {s t : State} {logline : Text} {now : Int}
    {reading : Reading}
    (hroll : ∀ s t, P s → LogFile.rollFile cfg s reading = .ok t → P t)
    (hcongr : ∀ s t : State, P s → t.files = s.files → t.lastRoll = s.lastRoll → P t)
    (hwrite : ∀ f, s.file = some f → P { s with file := some (f.write fwrite logline now) })
    (h : appendUnlocked fwrite cfg s logline now reading = .ok t) : P t := by
  obtain ⟨f, u, hf, hu, h⟩ := appendUnlocked_cases h
  have hwritten : P u := by
    rw [hu]
    exact hwrite f hf
  rcases h with ⟨-, h⟩ | ⟨-, ⟨-, -, h⟩ | ⟨-, -, rfl | rfl⟩ | ⟨-, rfl⟩⟩
  · exact hroll u t hwritten h
  · exact hroll { u with count := 0 } t (hcongr u _ hwritten rfl rfl) h
  · exact hcongr u _ hwritten rfl rfl
  · exact hcongr u _ hwritten rfl rfl
  · exact hcongr u _ hwritten rfl rfl

theorem files_eq {s : State} {f : Opened} (hf : s.file = some f) : s.files = s.closed ++ [f] := by
  rw [State.files, hf]
  rfl

/-! ## Names -/

/-- The files are named by the seconds they were opened in, which ascend. -/
structure Named (cfg : Config) (s : State) : Prop where
  names : ∀ f ∈ s.files, ∃ reading, f.file.filename = getLogFileName cfg.basename reading ∧
    reading.now = f.openedAt ∧ 0 < f.openedAt
  increasing : s.files.Pairwise fun f g => f.openedAt < g.openedAt
  latest : ∀ f ∈ s.files, f.openedAt ≤ s.lastRoll
  lastRoll_nonneg : 0 ≤ s.lastRoll

theorem Named.empty (cfg : Config) : Named cfg ⟨0, 0, 0, 0, [], none⟩ := by
  refine ⟨fun f hf => ?_, List.Pairwise.nil, fun f hf => ?_, Int.le_refl 0⟩
  · cases hf
  · cases hf

theorem Named.rollFile {s t : State} {reading : Reading} (hs : Named cfg s)
    (h : LogFile.rollFile cfg s reading = .ok t) : Named cfg t := by
  obtain ⟨-, rfl⟩ | ⟨hlater, rfl⟩ := rollFile_cases h
  · exact hs
  · have hpos := hs.lastRoll_nonneg
    constructor
    · refine List.forall_mem_append.2 ⟨hs.names, List.forall_mem_singleton.2 ?_⟩
      exact ⟨reading, rfl, rfl, by dsimp only; omega⟩
    · refine List.pairwise_append.2 ⟨hs.increasing, List.pairwise_singleton _ _, ?_⟩
      intro f hf g hg
      rw [List.mem_singleton.1 hg]
      exact Int.lt_of_le_of_lt (hs.latest f hf) hlater
    · refine List.forall_mem_append.2 ⟨?_, List.forall_mem_singleton.2 (Int.le_refl _)⟩
      intro f hf
      exact Int.le_of_lt (Int.lt_of_le_of_lt (hs.latest f hf) hlater)
    · dsimp only
      omega

/-- Only the files and the time of the last roll matter. -/
theorem Named.congr {s t : State} (hs : Named cfg s) (hfiles : t.files = s.files)
    (hroll : t.lastRoll = s.lastRoll) : Named cfg t := by
  obtain ⟨names, increasing, latest, lastRoll_nonneg⟩ := hs
  rw [← hfiles] at names increasing latest
  rw [← hroll] at latest lastRoll_nonneg
  exact ⟨names, increasing, latest, lastRoll_nonneg⟩

/-- A line changes neither the name of its file nor when it was opened. -/
theorem Named.write {s : State} {f : Opened} (hs : Named cfg s) (hf : s.file = some f)
    (logline : Text) (now : Int) :
    Named cfg { s with file := some (f.write fwrite logline now) } := by
  obtain ⟨names, increasing, latest, lastRoll_nonneg⟩ := hs
  rw [files_eq hf] at names increasing latest
  have hname : (f.write fwrite logline now).file.filename = f.file.filename :=
    AppendFile.append_filename fwrite f.file logline
  obtain ⟨hnames, hname'⟩ := List.forall_mem_append.1 names
  obtain ⟨hlatest, hlatest'⟩ := List.forall_mem_append.1 latest
  constructor
  · refine List.forall_mem_append.2 ⟨hnames, List.forall_mem_singleton.2 ?_⟩
    rw [hname]
    exact hname' f List.mem_cons_self
  · obtain ⟨hclosed, -, hbefore⟩ := List.pairwise_append.1 increasing
    refine List.pairwise_append.2 ⟨hclosed, List.pairwise_singleton _ _, ?_⟩
    intro g hg h hh
    rw [List.mem_singleton.1 hh]
    exact hbefore g hg f List.mem_cons_self
  · refine List.forall_mem_append.2 ⟨hlatest, List.forall_mem_singleton.2 ?_⟩
    exact hlatest' f List.mem_cons_self
  · exact lastRoll_nonneg

theorem Named.step {s t : State} {a : Action} (hs : Named cfg s)
    (h : (logFile fwrite cfg).step s a = .ok t) : Named cfg t := by
  cases a with
  | append logline now reading =>
    exact append_keeps (fun _ _ hs hr => hs.rollFile hr) (fun _ _ hs => hs.congr)
      (fun f hf => hs.write hf logline now) h
  | flush =>
    simp only [logFile] at h
    split at h
    · cases h
      exact hs
    · cases h
  | rollFile reading => exact hs.rollFile h

theorem Named.construct {s : State} {reading : Reading} (h : construct cfg reading = .ok s) :
    Named cfg s := (Named.empty cfg).rollFile (construct_cases h).2

/-! ## Contents -/

/-- What the files hold, and how they are named. -/
structure Inv (cfg : Config) (lines : List Text) (s : State) : Prop where
  holds : Holds (s.files.map fun f => f.file.content) lines
  named : Named cfg s

theorem Inv.rollFile {lines : List Text} {s t : State} {reading : Reading} (hs : Inv cfg lines s)
    (h : LogFile.rollFile cfg s reading = .ok t) : Inv cfg lines t := by
  refine ⟨?_, hs.named.rollFile h⟩
  obtain ⟨-, rfl⟩ | ⟨-, rfl⟩ := rollFile_cases h
  · exact hs.holds
  · simpa [State.files, AppendFile.fopen] using hs.holds.create

theorem Inv.congr {lines : List Text} {s t : State} (hs : Inv cfg lines s)
    (hfiles : t.files = s.files) (hroll : t.lastRoll = s.lastRoll) : Inv cfg lines t := by
  refine ⟨?_, hs.named.congr hfiles hroll⟩
  rw [hfiles]
  exact hs.holds

theorem Inv.write (hfwrite : ∀ i n, fwrite i n = n) {lines : List Text} {s : State} {f : Opened}
    (hs : Inv cfg lines s) (hf : s.file = some f) (logline : Text) (now : Int) :
    Inv cfg (lines ++ [logline]) { s with file := some (f.write fwrite logline now) } := by
  refine ⟨?_, hs.named.write hf logline now⟩
  have holds := hs.holds
  have hcontent : (f.write fwrite logline now).file.content = f.file.content ++ logline :=
    AppendFile.append_all hfwrite f.file logline
  rw [files_eq hf, List.map_append, List.map_singleton] at holds
  have := holds.write logline
  rw [← hcontent] at this
  simpa [State.files] using this

/-- The appended lines. -/
def linesOf : List Action → List Text
  | [] => []
  | .append logline _ _ :: actions => logline :: linesOf actions
  | _ :: actions => linesOf actions

theorem Inv.append (hfwrite : ∀ i n, fwrite i n = n) {lines : List Text} {s t : State}
    {logline : Text} {now : Int} {reading : Reading} (hs : Inv cfg lines s)
    (h : appendUnlocked fwrite cfg s logline now reading = .ok t) :
    Inv cfg (lines ++ [logline]) t :=
  append_keeps (fun _ _ hs hr => hs.rollFile hr) (fun _ _ hs => hs.congr)
    (fun _ hf => hs.write hfwrite hf logline now) h

theorem Inv.step (hfwrite : ∀ i n, fwrite i n = n) {lines : List Text} {s t : State} {a : Action}
    (hs : Inv cfg lines s) (h : (logFile fwrite cfg).step s a = .ok t) :
    Inv cfg (lines ++ linesOf [a]) t := by
  cases a with
  | append logline now reading => exact hs.append hfwrite h
  | flush =>
    have hlines : lines ++ linesOf [.flush] = lines := List.append_nil lines
    rw [hlines]
    simp only [logFile] at h
    split at h
    · cases h
      exact hs
    · cases h
  | rollFile reading =>
    have hlines : lines ++ linesOf [.rollFile reading] = lines := List.append_nil lines
    rw [hlines]
    exact hs.rollFile h

theorem linesOf_cons (a : Action) (actions : List Action) :
    linesOf (a :: actions) = linesOf [a] ++ linesOf actions := by
  cases a <;> rfl

theorem Inv.run (hfwrite : ∀ i n, fwrite i n = n) {lines : List Text} {s t : State}
    {actions : List Action} (hs : Inv cfg lines s)
    (h : (logFile fwrite cfg).run s actions = some t) : Inv cfg (lines ++ linesOf actions) t := by
  induction actions generalizing lines s with
  | nil =>
    cases h
    rw [linesOf, List.append_nil]
    exact hs
  | cons a actions ih =>
    obtain ⟨-, u, hu, h⟩ := (Machine.run_cons_iff _ _ _ _ _).1 h
    rw [linesOf_cons, ← List.append_assoc]
    exact ih (hs.step hfwrite hu) h

theorem Inv.construct {s : State} {reading : Reading} (h : construct cfg reading = .ok s) :
    Inv cfg [] s := by
  have hzero : Inv cfg [] ⟨0, 0, 0, 0, [], none⟩ := ⟨⟨[], rfl, rfl⟩, .empty cfg⟩
  exact hzero.rollFile (construct_cases h).2

/-! ## There is always a file -/

/-- The file that the action may open can be opened. -/
def Action.Opens : Action → Prop
  | .append _ _ reading => reading.opened = true
  | .flush => True
  | .rollFile reading => reading.opened = true

theorem rollFile_ok {s : State} {reading : Reading} (hfile : s.file.isSome)
    (hopened : reading.opened = true) :
    ∃ t, LogFile.rollFile cfg s reading = .ok t ∧ t.file.isSome := by
  unfold LogFile.rollFile
  split
  · exact ⟨_, rfl, rfl⟩
  · exact ⟨s, rfl, hfile⟩

theorem appendUnlocked_ok {s : State} {logline : Text} {now : Int} {reading : Reading}
    (hfile : s.file.isSome) (hopened : reading.opened = true) :
    ∃ t, appendUnlocked fwrite cfg s logline now reading = .ok t ∧ t.file.isSome := by
  obtain ⟨f, hf⟩ := Option.isSome_iff_exists.1 hfile
  simp only [appendUnlocked, writeLine, hf, bind, Except.bind]
  split
  · exact rollFile_ok rfl hopened
  · split
    · split
      · exact rollFile_ok rfl hopened
      · split
        · exact ⟨_, rfl, rfl⟩
        · exact ⟨_, rfl, rfl⟩
    · exact ⟨_, rfl, rfl⟩

theorem step_ok {s : State} {a : Action} (hfile : s.file.isSome) (ha : a.Opens) :
    ∃ t, (logFile fwrite cfg).step s a = .ok t ∧ t.file.isSome := by
  cases a with
  | append logline now reading => exact appendUnlocked_ok hfile ha
  | flush => exact ⟨s, if_pos hfile, hfile⟩
  | rollFile reading => exact rollFile_ok hfile ha

theorem run_ok {s : State} {actions : List Action} (hfile : s.file.isSome)
    (hactions : ∀ a ∈ actions, a.Opens) :
    ∃ t, (logFile fwrite cfg).run s actions = some t := by
  induction actions generalizing s with
  | nil => exact ⟨s, rfl⟩
  | cons a actions ih =>
    rw [List.forall_mem_cons] at hactions
    obtain ⟨u, hu, hopen⟩ := step_ok hfile hactions.1
    obtain ⟨t, ht⟩ := ih hopen hactions.2
    exact ⟨t, (Machine.run_cons_iff _ _ _ _ _).2 ⟨rfl, u, hu, ht⟩⟩

theorem construct_ok {reading : Reading} (hbasename : '/' ∉ cfg.basename)
    (hnow : 0 < reading.now) (hopened : reading.opened = true) :
    ∃ s, construct cfg reading = .ok s := by
  have hlater : reading.now > (0 : Int) := hnow
  unfold construct LogFile.rollFile
  rw [if_neg hbasename, if_pos hlater]
  exact ⟨_, if_pos hopened⟩

theorem construct_isSome {s : State} {reading : Reading} (hnow : 0 < reading.now)
    (h : construct cfg reading = .ok s) : s.file.isSome := by
  obtain ⟨hearlier, -⟩ | ⟨-, rfl⟩ := rollFile_cases (construct_cases h).2
  · exact absurd hnow (Int.not_lt.2 hearlier)
  · rfl

/-! ## Nothing is lost, split or overwritten -/

theorem logFile_keeps_lines (hfwrite : ∀ i n, fwrite i n = n) {reading : Reading} {s : State}
    (hnow : 0 < reading.now) (hs : construct cfg reading = .ok s) (actions : List Action) :
    ((∀ a ∈ actions, a.Opens) → ∃ t, (logFile fwrite cfg).run s actions = some t) ∧
    ∀ t, (logFile fwrite cfg).run s actions = some t →
      (∃ groups : List (List Text),
        t.files.map (fun f => f.file.content) = groups.map List.flatten ∧
        groups.flatten = linesOf actions) ∧
      (t.files.map fun f => f.file.content).flatten = (linesOf actions).flatten ∧
      (t.files.map fun f => f.file.filename).Nodup ∧
      t.files.Pairwise fun f g => f.openedAt < g.openedAt := by
  refine ⟨run_ok (construct_isSome hnow hs), fun t ht => ?_⟩
  have hinv := (Inv.construct hs).run hfwrite ht
  rw [List.nil_append] at hinv
  obtain ⟨groups, hcontents, hlines⟩ := hinv.holds
  refine ⟨⟨groups, hcontents, hlines⟩, ?_, ?_, hinv.named.increasing⟩
  · rw [hcontents, ← hlines]
    exact List.flatten_flatten.symm
  · rw [List.nodup_iff_pairwise_ne, List.pairwise_map]
    refine List.Pairwise.imp_of_mem (fun {f g} hf hg hlt heq => ?_) hinv.named.increasing
    obtain ⟨a, haname, hanow, hapos⟩ := hinv.named.names f hf
    obtain ⟨b, hbname, hbnow, hbpos⟩ := hinv.named.names g hg
    rw [haname, hbname] at heq
    have := getLogFileName_inj (by omega) (by omega) heq
    omega

def exampleConfig : Config := ⟨"app".toList, 4, 3, 2⟩

def exampleReading (now : Int) : Reading := ⟨now, "host".toList, 7, true⟩

/-- The first line rolls the file by its size, the second cannot within the same second, and the
clock goes back before the third. -/
def exampleActions : List Action :=
  [.append "hello".toList 101 (exampleReading 101), .flush,
    .append "world".toList 101 (exampleReading 101), .rollFile (exampleReading 50),
    .append "!".toList 50 (exampleReading 50)]

theorem exampleActions_kept :
    ∃ s t, construct exampleConfig (exampleReading 100) = .ok s ∧
      (logFile (fun _ n => n) exampleConfig).run s exampleActions = some t ∧
      (t.files.map fun f => f.file.content).flatten = "helloworld!".toList ∧
      (t.files.map fun f => f.file.filename).Nodup := by
  have hbasename : '/' ∉ exampleConfig.basename := by decide
  have hnow : 0 < (exampleReading 100).now := by decide
  obtain ⟨s, hs⟩ := construct_ok hbasename hnow rfl
  obtain ⟨hrun, hkeeps⟩ := logFile_keeps_lines (fun _ _ => rfl) hnow hs exampleActions
  have hopens : ∀ a ∈ exampleActions, a.Opens := by
    simp [exampleActions, Action.Opens, exampleReading]
  obtain ⟨t, ht⟩ := hrun hopens
  obtain ⟨-, hcontents, hnames, -⟩ := hkeeps t ht
  exact ⟨s, t, hs, ht, hcontents, hnames⟩

end LogFile

end Rawmd
