import Rawmd.Lib.Monitor
import Rawmd.Base.LogFile
import Rawmd.Base.LoggingRecord

/-!
# `base/LogFile.cpp`: lines from many threads

With `threadSafe`, `append` and `flush` hold `mutex_`, and any threads call them, as loggers do
with their records.  Here each statement is a step, and each call of `fwrite_unlocked`, which may
accept a part of the line only: `write` is then called again for the rest.

    whenever nobody has the mutex, the files hold the lines of the calls in the order in which
    they returned, none of them in two files                        (logFile_threads)
-/

namespace Rawmd

namespace LogFile

/-- What `fwrite_unlocked` accepts: at least one of the bytes, as long as the disk is not full. -/
structure Stream where
  fwrite : Nat → Nat → Nat
  le : ∀ i n, fwrite i n ≤ n
  pos : ∀ i n, 0 < n → 0 < fwrite i n

inductive Call where
  | append (logline : Text) (stream : Stream) (now : Int) (reading : Reading)
  | flush

/-- `append` returns with its line in the file. -/
abbrev Block := Monitor.Block State Call Empty (Option Text) Fault

/-! ## Statements -/

def State.accept (s : State) (bytes : Text) : State :=
  { s with file := s.file.map fun f => { f with file := f.file.accept bytes } }

/-- `writtenBytes_ += len`, at the second `now`. -/
def State.addWritten (s : State) (len : Nat) (now : Int) : State :=
  { s with file := s.file.map fun f =>
      { f with
        file := { f.file with writtenBytes := f.file.writtenBytes + len }
        writes := f.writes ++ [now] } }

/-- The calls of `write` in `AppendFile::append`. -/
def writeAll (logline : Text) (ws : List AppendFile.Write) (k : Block) : Block :=
  ws.foldr (fun w k => .write (fun s => s.accept (w.piece logline)) k) k

/-- `rollFile`, and then the return of `append`. -/
def rollBlock (cfg : Config) (reading : Reading) (v : Option Text) : Block :=
  .read fun s =>
    if reading.now > s.lastRoll then
      .write (fun s => { s with lastRoll := reading.now })
        (.write (fun s => { s with lastFlush := reading.now })
          (.write (fun s => { s with startOfPeriod := periodOf reading.now })
            (if reading.opened then
              .write (fun s => { s with
                closed := s.files
                file := some ⟨.fopen (getLogFileName cfg.basename reading), reading.now, []⟩ })
                (.ret v)
            else .fail .fopen)))
    else .ret v

/-- `append_unlocked` after the line. -/
def checkBlock (cfg : Config) (now : Int) (reading : Reading) (v : Option Text) : Block :=
  .read fun s =>
    if writtenBytes s > cfg.rollSize then rollBlock cfg reading v
    else .write (fun s => { s with count := s.count + 1 }) (.read fun s =>
      if s.count ≥ cfg.checkEveryN then
        .write (fun s => { s with count := 0 }) (.read fun s =>
          if periodOf now ≠ s.startOfPeriod then rollBlock cfg reading v
          else if now - s.lastFlush > cfg.flushInterval then
            .write (fun s => { s with lastFlush := now }) (.ret v)
          else .ret v)
      else .ret v)

def code (cfg : Config) : Call → Block
  | .append logline stream now reading =>
    .read fun s =>
      if s.file.isNone then .fail .null
      else writeAll logline (AppendFile.writes stream.fwrite logline.length)
        (.write (fun s => s.addWritten logline.length now)
          (checkBlock cfg now reading (some logline)))
  | .flush => .read fun s => if s.file.isNone then .fail .null else .ret none

abbrev Threads := Monitor.Fine State Call Empty (Option Text) Fault Nat

def threads (cfg : Config) : Machine Threads (Monitor.Fine.Action Call Empty Nat) Fault :=
  Monitor.fine Nat (code cfg)

/-- The lines of the calls, in the order in which they returned. -/
def returnedLines (returned : List (Nat × Option Text)) : List Text :=
  returned.filterMap Prod.snd

/-! ## Whole lines -/

variable {cfg : Config} {s t : State} {logline : Text} {stream : Stream} {now : Int}
  {reading : Reading} {cs : Empty → CondVar Nat}

/-- The stream is offered the rest of the line until it has all of it. -/
theorem total_writes (stream : Stream) (file : AppendFile) (logline : Text) :
    logline.length ≤ AppendFile.total (AppendFile.writes stream.fwrite logline.length) := by
  have hap := AppendFile.append_appendsPrefix stream.le file logline
  rcases hap.ends with hall | ⟨ws, w, -, hws, hzero⟩
  · exact Nat.le_of_eq hall.symm
  · have hw := hap.offered ws w [] hws
    rw [hw] at hzero
    have hnone : ¬ 0 < logline.length - AppendFile.total ws := by
      intro hpos
      have := stream.pos ws.length _ hpos
      exact absurd hzero (Nat.ne_of_gt this)
    rw [hws, AppendFile.total_append]
    omega

theorem append_eq (stream : Stream) (file : AppendFile) (logline : Text) :
    file.append stream.fwrite logline = file.append (fun _ n => n) logline := by
  have hap := AppendFile.append_appendsPrefix stream.le file logline
  have hcontent : (file.append stream.fwrite logline).content =
      (file.append (fun _ n => n) logline).content := by
    rw [hap.content, List.take_of_length_le (total_writes stream file logline),
      AppendFile.append_all (fun _ _ => rfl)]
  have hname : (file.append stream.fwrite logline).filename =
      (file.append (fun _ n => n) logline).filename := by
    rw [AppendFile.append_filename, AppendFile.append_filename]
  have hwritten : (file.append stream.fwrite logline).writtenBytes =
      (file.append (fun _ n => n) logline).writtenBytes := by
    rw [AppendFile.append_writtenBytes, AppendFile.append_writtenBytes]
  cases hg : file.append stream.fwrite logline with
  | mk name content written =>
    cases hg' : file.append (fun _ n => n) logline with
    | mk name' content' written' =>
      rw [hg, hg'] at hname hcontent hwritten
      cases hname
      cases hcontent
      cases hwritten
      rfl

theorem appendUnlocked_eq (stream : Stream) (cfg : Config) :
    appendUnlocked stream.fwrite cfg = appendUnlocked (fun _ n => n) cfg := by
  have hwrite : Opened.write stream.fwrite = Opened.write (fun _ n => n) := by
    funext f logline now
    rw [Opened.write, Opened.write, append_eq]
  unfold appendUnlocked writeLine
  rw [hwrite]

/-- What the calls of `write` leave, with the counter. -/
theorem accept_writes (fwrite : Nat → Nat → Nat) (file : AppendFile) (logline : Text) :
    { file.accept ((AppendFile.writes fwrite logline.length).flatMap
        (AppendFile.Write.piece logline)) with
      writtenBytes := file.writtenBytes + logline.length } = file.append fwrite logline := by
  have hcontent : (file.append fwrite logline).content = _ := AppendFile.append_content file logline
  have hname := AppendFile.append_filename fwrite file logline
  have hwritten : (file.append fwrite logline).writtenBytes = _ :=
    AppendFile.append_writtenBytes file logline
  cases hg : file.append fwrite logline with
  | mk name content written =>
    rw [hg] at hname hcontent hwritten
    cases hname
    cases hcontent
    cases hwritten
    rfl

/-! ## A block is `append_unlocked` -/

variable {ps : List (Nat → Bool)} {v : Option Text}

abbrev Outcome :=
  Except Fault (State × (Empty → CondVar Nat) × Monitor.End Call Empty (Option Text))

/-- What `append` comes to, when it has come to `s`. -/
def returns (cs : Empty → CondVar Nat) (v : Option Text) (s : State) :
    State × (Empty → CondVar Nat) × Monitor.End Call Empty (Option Text) := (s, cs, .ret v)

theorem run_writeAll (ws : List AppendFile.Write) (k : Block) :
    (writeAll logline ws k).run s cs ps =
      k.run (s.accept (ws.flatMap (AppendFile.Write.piece logline))) cs ps := by
  induction ws generalizing s with
  | nil =>
    have haccept : s.accept [] = s := by
      obtain ⟨count, startOfPeriod, lastRoll, lastFlush, closed, file⟩ := s
      cases file with
      | none => rfl
      | some f =>
        unfold State.accept AppendFile.accept
        simp only [Option.map_some, List.append_nil]
    show k.run s cs ps = k.run (s.accept []) cs ps
    rw [haccept]
  | cons w ws ih =>
    have haccept : (s.accept (w.piece logline)).accept
        (ws.flatMap (AppendFile.Write.piece logline)) =
        s.accept ((w :: ws).flatMap (AppendFile.Write.piece logline)) := by
      unfold State.accept AppendFile.accept
      cases s.file with
      | none => rfl
      | some f =>
        simp only [Option.map_some, List.flatMap_cons, List.append_assoc]
    show (writeAll logline ws k).run (s.accept (w.piece logline)) cs ps = _
    rw [ih, haccept]

theorem run_rollBlock : (rollBlock cfg reading v).run s cs [] =
    some ((LogFile.rollFile cfg s reading).map (returns cs v)) := by
  unfold rollBlock LogFile.rollFile
  simp only [Monitor.Block.run]
  by_cases hlater : reading.now > s.lastRoll
  · rw [if_pos hlater, if_pos hlater]
    simp only [Monitor.Block.run]
    by_cases hopened : reading.opened = true
    · rw [if_pos hopened, if_pos hopened]
      rfl
    · rw [if_neg hopened, if_neg hopened]
      rfl
  · rw [if_neg hlater, if_neg hlater]
    rfl

theorem run_checkBlock : (checkBlock cfg now reading v).run s cs [] =
    some ((if writtenBytes s > cfg.rollSize then LogFile.rollFile cfg s reading
      else if s.count + 1 ≥ cfg.checkEveryN then
        if periodOf now ≠ s.startOfPeriod then LogFile.rollFile cfg { s with count := 0 } reading
        else if now - s.lastFlush > cfg.flushInterval then
          .ok { s with count := 0, lastFlush := now }
        else .ok { s with count := 0 }
      else .ok { s with count := s.count + 1 }).map (returns cs v)) := by
  unfold checkBlock
  simp only [Monitor.Block.run]
  by_cases hsize : writtenBytes s > cfg.rollSize
  · rw [if_pos hsize, if_pos hsize]
    exact run_rollBlock
  · rw [if_neg hsize, if_neg hsize]
    simp only [Monitor.Block.run]
    by_cases hcount : s.count + 1 ≥ cfg.checkEveryN
    · rw [if_pos hcount, if_pos hcount]
      simp only [Monitor.Block.run]
      by_cases hday : periodOf now ≠ s.startOfPeriod
      · rw [if_pos hday, if_pos hday]
        exact run_rollBlock
      · rw [if_neg hday, if_neg hday]
        by_cases hflush : now - s.lastFlush > cfg.flushInterval
        · rw [if_pos hflush, if_pos hflush]
          rfl
        · rw [if_neg hflush, if_neg hflush]
          rfl
    · rw [if_neg hcount, if_neg hcount]
      rfl

theorem run_append : (code cfg (.append logline stream now reading)).run s cs [] =
    some ((appendUnlocked (fun _ n => n) cfg s logline now reading).map
      (returns cs (some logline))) := by
  rw [← appendUnlocked_eq stream]
  unfold code appendUnlocked writeLine
  simp only [Monitor.Block.run]
  cases hf : s.file with
  | none => rfl
  | some f =>
    have hopen : ¬ (some f).isNone = true := Bool.false_ne_true
    rw [if_neg hopen, run_writeAll]
    have hwrite : (s.accept ((AppendFile.writes stream.fwrite logline.length).flatMap
        (AppendFile.Write.piece logline))).addWritten logline.length now =
        { s with file := some (f.write stream.fwrite logline now) } := by
      rw [Opened.write, ← accept_writes]
      simp only [State.accept, State.addWritten, hf, Option.map_some]
      rfl
    simp only [Monitor.Block.run]
    rw [hwrite, run_checkBlock]
    rfl

theorem run_flush : (code cfg .flush).run s cs [] =
    some ((if s.file.isSome then Except.ok s else Except.error Fault.null).map
      (returns cs none)) := by
  simp only [code, Monitor.Block.run]
  cases s.file with
  | none => rfl
  | some f => rfl

/-- Nothing is notified, so there is nothing to choose. -/
theorem run_choices (c : Call) (p : Nat → Bool) : (code cfg c).run s cs (p :: ps) = none := by
  have hroll (s : State) (v : Option Text) (reading : Reading) :
      (rollBlock cfg reading v).run s cs (p :: ps) = none := by
    simp only [rollBlock, Monitor.Block.run]
    split
    · simp only [Monitor.Block.run]
      split <;> rfl
    · rfl
  cases c with
  | flush =>
    simp only [code, Monitor.Block.run]
    split <;> rfl
  | append logline stream now reading =>
    simp only [code, Monitor.Block.run]
    split
    · rfl
    · rw [run_writeAll]
      simp only [checkBlock, Monitor.Block.run]
      split
      · exact hroll _ _ _
      · simp only [Monitor.Block.run]
        split
        · simp only [Monitor.Block.run]
          split
          · exact hroll _ _ _
          · split <;> rfl
        · rfl

/-! ## Runs -/

/-- Each file splits at its newlines into whole records; read one after another, these are the
lines in their order. -/
def HoldsRecords (contents lines : List Text) : Prop :=
  ∃ groups : List (List Text), contents.map (List.splitOn '\n') = groups.map (· ++ [[]]) ∧
    lines = groups.flatten.map (· ++ ['\n'])

theorem splitOn_flatten {lines : List Text} (h : ∀ line ∈ lines, Logging.OneLine line) :
    lines.flatten.splitOn '\n' = lines.map List.dropLast ++ [[]] := by
  induction lines with
  | nil => rfl
  | cons line lines ih =>
    rw [List.forall_mem_cons] at h
    obtain ⟨⟨record, hrecord, rfl⟩, hlines⟩ := h
    rw [List.flatten_cons, List.append_assoc, List.singleton_append,
      List.splitOn_append_cons_self_of_not_mem hrecord, ih hlines, List.map_cons,
      List.dropLast_concat, List.cons_append]

theorem Holds.records {contents lines : List Text} (h : Holds contents lines)
    (hlines : ∀ line ∈ lines, Logging.OneLine line) : HoldsRecords contents lines := by
  obtain ⟨groups, rfl, rfl⟩ := h
  have hgroups : ∀ group ∈ groups, ∀ line ∈ group, Logging.OneLine line := by
    intro group hgroup line hline
    exact hlines line (List.mem_flatten.2 ⟨group, hgroup, hline⟩)
  refine ⟨groups.map (List.map List.dropLast), ?_, ?_⟩
  · rw [List.map_map, List.map_map]
    refine List.map_congr_left fun group hgroup => ?_
    exact splitOn_flatten (hgroups group hgroup)
  · rw [← List.map_flatten, List.map_map]
    refine (List.map_id _).symm.trans (List.map_congr_left fun line hline => ?_)
    obtain ⟨record, -, rfl⟩ := hlines line hline
    show record ++ ['\n'] = (record ++ ['\n']).dropLast ++ ['\n']
    rw [List.dropLast_concat]

abbrev Lines := Monitor.Atomic State Call Empty (Option Text) Nat

/-- The lines that have returned are in the files, and nobody waits. -/
structure Kept (cfg : Config) (a : Lines) : Prop where
  inv : Inv cfg (returnedLines a.returned) a.data
  file : a.data.file.isSome
  awake : ∀ t, a.asleep t = none

theorem appendUnlocked_error {e : Fault} (hfile : s.file.isSome)
    (h : appendUnlocked (fun _ n => n) cfg s logline now reading = .error e) : e = .fopen := by
  by_cases hopened : reading.opened = true
  · obtain ⟨t, ht, -⟩ : ∃ t, appendUnlocked (fun _ n => n) cfg s logline now reading = .ok t ∧ _ :=
      appendUnlocked_ok hfile hopened
    rw [ht] at h
    cases h
  · have hroll (s : State) (e : Fault) (h : LogFile.rollFile cfg s reading = .error e) :
        e = .fopen := by
      unfold LogFile.rollFile at h
      rw [if_neg hopened] at h
      split at h
      · cases h
        rfl
      · cases h
    obtain ⟨f, hf⟩ := Option.isSome_iff_exists.1 hfile
    simp only [appendUnlocked, writeLine, hf, bind, Except.bind] at h
    split at h
    · exact hroll _ _ h
    · split at h
      · split at h
        · exact hroll _ _ h
        · split at h <;> cases h
      · cases h

/-- What a block comes to, the function does. -/
theorem run_cases {c : Call} {r : Outcome} (hfile : s.file.isSome)
    (h : (code cfg c).run s cs ps = some r) :
    (∃ t v, r = .ok (t, cs, .ret v) ∧ t.file.isSome ∧
      ((v = none ∧ t = s) ∨ ∃ logline now reading, v = some logline ∧
        appendUnlocked (fun _ n => n) cfg s logline now reading = .ok t)) ∨
    r = .error .fopen := by
  cases ps with
  | cons p ps =>
    rw [run_choices] at h
    cases h
  | nil =>
    cases c with
    | flush =>
      rw [run_flush, if_pos hfile] at h
      cases h
      exact .inl ⟨s, none, rfl, hfile, .inl ⟨rfl, rfl⟩⟩
    | append logline stream now reading =>
      rw [run_append] at h
      cases happend : appendUnlocked (fun _ n => n) cfg s logline now reading with
      | error e =>
        rw [happend] at h
        cases h
        rw [appendUnlocked_error hfile happend]
        exact .inr rfl
      | ok t =>
        rw [happend] at h
        cases h
        obtain ⟨f, u, hf, rfl, hcases⟩ := appendUnlocked_cases happend
        have hopen : t.file.isSome := by
          rcases hcases with ⟨-, ht⟩ | ⟨-, ⟨-, -, ht⟩ | ⟨-, -, rfl | rfl⟩ | ⟨-, rfl⟩⟩
          · obtain ⟨-, rfl⟩ | ⟨-, rfl⟩ := rollFile_cases ht <;> rfl
          · obtain ⟨-, rfl⟩ | ⟨-, rfl⟩ := rollFile_cases ht <;> rfl
          · rfl
          · rfl
          · rfl
        exact .inl ⟨t, _, rfl, hopen, .inr ⟨logline, now, reading, rfl, happend⟩⟩

theorem Kept.step {a : Lines} (h : Kept cfg a) {act : Monitor.Atomic.Action Call Empty Nat}
    {r : Except Fault Lines} (hr : a.result (code cfg) act = some r) :
    (∃ a', r = .ok a' ∧ Kept cfg a') ∨ r = .error .fopen := by
  cases act with
  | wake i u => exact i.elim
  | resume t ps =>
    simp only [Monitor.Atomic.result, h.awake] at hr
    cases hr
  | enter t c ps =>
    simp only [Monitor.Atomic.result] at hr
    rw [if_pos (h.awake t)] at hr
    obtain ⟨o, ho, rfl⟩ := Option.map_eq_some_iff.1 hr
    have hawake : ∀ u, Function.update a.asleep t none u = none := by
      intro u
      by_cases hu : u = t
      · subst hu
        rw [Function.update_self]
      · rw [Function.update_of_ne hu]
        exact h.awake u
    rcases run_cases h.file ho with ⟨d, v, rfl, hopen, hv⟩ | rfl
    · refine .inl ⟨_, rfl, ?_, hopen, hawake⟩
      show Inv cfg (returnedLines (a.returned ++ [(t, v)])) d
      unfold returnedLines
      rw [List.filterMap_append]
      rcases hv with ⟨rfl, rfl⟩ | ⟨logline, now, reading, rfl, happend⟩
      · rw [show List.filterMap Prod.snd [(t, (none : Option Text))] = [] from rfl,
          List.append_nil]
        exact h.inv
      · exact h.inv.append (fun _ _ => rfl) happend
    · exact .inr rfl

theorem Kept.init (hnow : 0 < reading.now) (hs : construct cfg reading = .ok s) :
    Kept cfg (Monitor.Atomic.init s) :=
  ⟨Inv.construct hs, construct_isSome hnow hs, fun _ => rfl⟩

theorem Kept.exec {a : Lines} (h : Kept cfg a) {acts : List (Monitor.Atomic.Action Call Empty Nat)}
    {r : Except Fault Lines} (hr : (Monitor.atomic Nat (code cfg)).exec a acts = some r) :
    (∃ a', r = .ok a' ∧ Kept cfg a') ∨ ∃ e, r = .error e ∧ e = .fopen := by
  refine Machine.exec_cases (P := fun _ _ _ => True) ?_ h (Machine.stepsMeet_true _ _) hr
  intro a act h he _
  show (∃ a', (a.result (code cfg) act).getD (.ok a) = .ok a' ∧ _) ∨
    ∃ e, (a.result (code cfg) act).getD (.ok a) = .error e ∧ _
  obtain ⟨r, hr⟩ := Option.isSome_iff_exists.1 he
  rw [hr]
  rcases h.step hr with ⟨a', rfl, h'⟩ | rfl
  · exact .inl ⟨a', rfl, h'⟩
  · exact .inr ⟨.fopen, rfl, rfl⟩

/-- **Lines from any threads stay whole.**  However their statements and the parts of their lines
that `fwrite_unlocked` accepts are interleaved, whenever nobody has the mutex the files hold the
lines of the calls that have returned, in that order and none of them in two files; where the
lines are records, each file splits into records.  Only a file that cannot be opened ends this. -/
theorem logFile_threads (hnow : 0 < reading.now) (hs : construct cfg reading = .ok s)
    (acts : List (Monitor.Fine.Action Call Empty Nat)) (r : Except Fault Threads)
    (hr : (threads cfg).exec (Monitor.Fine.init s) acts = some r) :
    (∃ f, r = .ok f ∧ (f.mutex = none →
      Holds (f.data.files.map fun file => file.file.content) (returnedLines f.returned) ∧
      ((∀ line ∈ returnedLines f.returned, Logging.OneLine line) →
        HoldsRecords (f.data.files.map fun file => file.file.content)
          (returnedLines f.returned)))) ∨
    r = .error .fopen := by
  rcases (Monitor.fine_simulates (code cfg)).exec (Monitor.Follows.init _ s) hr with
    ⟨f, a, bs, rfl, ha, hf⟩ | ⟨e, bs, rfl, ha⟩
  · refine .inl ⟨f, rfl, fun hm => ?_⟩
    rcases (Kept.init hnow hs).exec (Machine.exec_of_run ha) with ⟨a', ha', hkept⟩ | ⟨e, he, -⟩
    · cases ha'
      have hholds := hkept.inv.holds
      rw [← hf.returned, ← (hf.free hm).1] at hholds
      exact ⟨hholds, hholds.records⟩
    · cases he
  · rcases (Kept.init hnow hs).exec ha with ⟨a', ha', -⟩ | ⟨e', he', rfl⟩
    · cases ha'
    · cases he'
      exact .inr rfl

/-- A stream that takes two bytes at a time. -/
def twoBytes : Stream where
  fwrite _ n := min n 2
  le _ n := Nat.min_le_left n 2
  pos _ _ hn := Nat.lt_min.2 ⟨hn, Nat.two_pos⟩

/-- Thread 2 comes when thread 1 has written a part of its line. -/
def overlapping : List (Monitor.Fine.Action Call Empty Nat) :=
  let call (line : Text) : Call := .append line twoBytes 101 ⟨101, [], 7, true⟩
  let step (t : Nat) : Monitor.Fine.Action Call Empty Nat := .next t fun _ => true
  [.call 1 (call "abc\n".toList), .lock 1, step 1, step 1, .call 2 (call "d\n".toList), step 1,
    step 1, step 1, step 1, step 1, step 1, .lock 2, step 2, step 2, step 2, step 2, step 2,
    step 2, step 2]

theorem overlapping_whole :
    ∃ s f, construct ⟨"x".toList, 100, 3, 1024⟩ ⟨100, [], 7, true⟩ = .ok s ∧
      (threads ⟨"x".toList, 100, 3, 1024⟩).exec (Monitor.Fine.init s) overlapping =
        some (.ok f) ∧
      returnedLines f.returned = ["abc\n".toList, "d\n".toList] ∧
      HoldsRecords (f.data.files.map fun file => file.file.content)
        (returnedLines f.returned) := by
  have hrun : ∃ s f, construct ⟨"x".toList, 100, 3, 1024⟩ ⟨100, [], 7, true⟩ = .ok s ∧
      (threads ⟨"x".toList, 100, 3, 1024⟩).exec (Monitor.Fine.init s) overlapping =
        some (.ok f) ∧ f.mutex = none ∧
      returnedLines f.returned = ["abc\n".toList, "d\n".toList] := ⟨_, _, rfl, rfl, rfl, rfl⟩
  obtain ⟨s, f, hs, hf, hm, hlines⟩ := hrun
  refine ⟨s, f, hs, hf, hlines, ?_⟩
  rcases logFile_threads (by decide) hs overlapping _ hf with ⟨f', hok, h⟩ | herror
  · cases hok
    refine (h hm).2 ?_
    rw [hlines]
    intro line hline
    rcases List.mem_cons.1 hline with rfl | hline
    · exact ⟨"abc".toList, by decide, rfl⟩
    · rw [List.mem_singleton.1 hline]
      exact ⟨"d".toList, by decide, rfl⟩
  · cases herror

end LogFile

end Rawmd
