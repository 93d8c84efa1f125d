import Rawmd.Lib.MachineInt
import Rawmd.Lib.Printf

/-!
# `base/FileUtil.cpp`: `ReadSmallFile`

`Read` is any way in which `read(2)` may answer for a regular file: how many bytes it takes of
those it is asked for, or an errno.  The loop of `readToString` runs until the allowance is used
up, the file ends or a read fails (`readLoop_spec`); what it leaves is `ReadsPrefix`:

    readToString at offset o reads a prefix of file.drop o          (readToString_spec)
    readFile, which opens the file, reads a prefix of it            (readToString_readsPrefix)
-/

namespace Rawmd

/-- What `read(2)` may do for a regular file: `read i n rest` is the answer to the `i`-th call,
which asks for `n` bytes while `rest` are left. -/
structure Read where
  read : Nat → Nat → Nat → Except Int Nat
  le_asked : ∀ {i n rest m}, read i n rest = .ok m → m ≤ n
  le_rest : ∀ {i n rest m}, read i n rest = .ok m → m ≤ rest
  /-- 0 is the end of the file -/
  pos : ∀ {i n rest}, read i n rest = .ok 0 → n = 0 ∨ rest = 0
  errno : ∀ {i n rest e}, read i n rest = .error e → e ≠ 0

inductive FileType where
  | regular
  | directory
  | other
deriving DecidableEq, Repr

structure Stat where
  mode : FileType
  size : Int
  mtime : Int
  ctime : Int
deriving DecidableEq, Repr

/-- An open descriptor: the bytes of the file and where the next `read` starts. -/
structure Descriptor where
  file : Text
  offset : Nat
deriving DecidableEq, Repr

/-- `none` is `fd_ < 0`. -/
structure ReadSmallFile where
  fd : Option Descriptor
  err : Int
deriving DecidableEq, Repr

namespace ReadSmallFile

def kBufferSize : Nat := 64 * 1024

def EISDIR : Int := 21

inductive Fault where
  /-- `reserve` throws `std::length_error` -/
  | lengthError
deriving DecidableEq, Repr

/-- The constructor, `opened` being what `open` found. -/
def make (opened : Except Int Text) : ReadSmallFile :=
  match opened with
  | .ok file => ⟨some ⟨file, 0⟩, 0⟩
  | .error errno => ⟨none, errno⟩

/-- The outputs that are not `NULL`. -/
structure Outputs where
  fileSize : Option Int
  modifyTime : Option Int
  createTime : Option Int
deriving DecidableEq, Repr

/-- `implicit_cast<size_t>` -/
def sizeT (n : Int) : Nat := (n % 2 ^ 64).toNat

/-- The part under `if (fileSize)`; the `int` that `err` is then. -/
def stat (fstat : Except Int Stat) (maxSize : Int) (err : Int) (out : Outputs) :
    Except Fault (Int × Outputs) :=
  match out.fileSize with
  | none => .ok (err, out)
  | some _ =>
    match fstat with
    | .ok statbuf =>
      let modifyTime := out.modifyTime.map fun _ => statbuf.mtime
      let createTime := out.createTime.map fun _ => statbuf.ctime
      match statbuf.mode with
      | .regular =>
        -- a negative count becomes a `size_t` above `max_size()`
        if MachineInt.wrap 32 (min maxSize statbuf.size) < 0 then .error .lengthError
        else .ok (err, ⟨some statbuf.size, modifyTime, createTime⟩)
      | .directory => .ok (EISDIR, ⟨out.fileSize, modifyTime, createTime⟩)
      | .other => .ok (err, ⟨out.fileSize, modifyTime, createTime⟩)
    | .error errno => .ok (errno, out)

/-- The loop's variables, with the answers of `read` so far. -/
structure Loop where
  offset : Nat
  content : Text
  err : Int
  answers : List (Except Int Nat)
deriving Repr

/-- The `while` loop.  Each round but the last takes a byte of the file, so one round more than
there are bytes is enough. -/
def readLoop (read : Nat → Nat → Nat → Except Int Nat) (file : Text) (maxSize : Nat) :
    Nat → Loop → Loop
  | 0, s => s
  | fuel + 1, s =>
    if s.content.length < maxSize then
      let toRead := min (maxSize - s.content.length) kBufferSize
      let n := read s.answers.length toRead (file.length - s.offset)
      let s := { s with answers := s.answers ++ [n] }
      match n with
      | .ok n =>
        if n > 0 then
          readLoop read file maxSize fuel
            { s with
              offset := s.offset + n
              content := s.content ++ (file.drop s.offset).take n }
        else s
      | .error errno => { s with err := errno }
    else s

structure Result where
  ret : Int
  content : Text
  outputs : Outputs
  self : ReadSmallFile
  answers : List (Except Int Nat)
deriving Repr

def readToString (read : Nat → Nat → Nat → Except Int Nat) (fstat : Except Int Stat)
    (self : ReadSmallFile) (maxSize : Int) (content : Text) (out : Outputs) :
    Except Fault Result :=
  match self.fd with
  | none => .ok ⟨self.err, content, out, self, []⟩
  | some fd => do
    let (err, out) ← stat fstat maxSize self.err out
    let s := readLoop read fd.file (sizeT maxSize) (fd.file.length - fd.offset + 1)
      ⟨fd.offset, [], err, []⟩
    return ⟨s.err, s.content, out, ⟨some ⟨fd.file, s.offset⟩, self.err⟩, s.answers⟩

def readFile (read : Nat → Nat → Nat → Except Int Nat) (opened : Except Int Text)
    (fstat : Except Int Stat) (maxSize : Int) (content : Text) (out : Outputs) :
    Except Fault Result :=
  readToString read fstat (make opened) maxSize content out

/-- What a call that reads the bytes `rest` must leave. -/
structure ReadsPrefix (rest : Text) (maxSize : Nat) (r : Result) : Prop where
  /-- the loop ends: the allowance is used up, or the last read ended it -/
  ended : r.content.length = maxSize ∨
    ∃ before last, r.answers = before ++ [last] ∧ (last = .ok 0 ∨ ∃ e, last = .error e)
  rounds : r.answers.length ≤ rest.length + 1
  content_isPrefix : r.content <+: rest
  size_le : r.content.length ≤ maxSize
  complete : r.ret = 0 → r.content.length = min maxSize rest.length
  failed : ∀ e, .error e ∈ r.answers → r.ret = e

/-! ## The loop -/

/-- What holds at the test of the loop, started at offset `start`. -/
structure Loop.Inv (file : Text) (start maxSize : Nat) (s : Loop) : Prop where
  start_le : start ≤ s.offset
  content : s.content = (file.drop start).take (s.offset - start)
  length : s.content.length = s.offset - start
  le_maxSize : s.content.length ≤ maxSize
  answers : ∀ a ∈ s.answers, ∃ n, a = .ok (n + 1)
  rounds : s.answers.length ≤ s.content.length

/-- How the loop is left. -/
inductive Loop.Left (file : Text) (start maxSize : Nat) (err : Int) (t : Loop) : Prop where
  | full (inv : Inv file start maxSize t) (size : t.content.length = maxSize) (err_eq : t.err = err)
  | eof (s : Loop) (inv : Inv file start maxSize s) (content : t.content = s.content)
      (answers : t.answers = s.answers ++ [.ok 0]) (rest : file.length - s.offset = 0)
      (err_eq : t.err = err)
  | failed (s : Loop) (inv : Inv file start maxSize s) (content : t.content = s.content) (e : Int)
      (answers : t.answers = s.answers ++ [.error e]) (errno : e ≠ 0) (err_eq : t.err = e)

section loop

variable {file : Text} {start maxSize : Nat} {s : Loop}

theorem Loop.Inv.round (hs : s.Inv file start maxSize) {n : Nat} (hn : 0 < n)
    (hrest : n ≤ file.length - s.offset) (hmax : n ≤ maxSize - s.content.length)
    {answers : List (Except Int Nat)} (ha : answers = s.answers ++ [.ok n]) :
    Loop.Inv file start maxSize
      { s with
        offset := s.offset + n
        content := s.content ++ (file.drop s.offset).take n
        answers := answers } := by
  have hstart := hs.start_le
  have hlen := hs.length
  have hmaxSize := hs.le_maxSize
  have htaken : ((file.drop s.offset).take n).length = n := by
    rw [List.length_take, List.length_drop]
    omega
  refine ⟨by dsimp only; omega, ?_, ?_, ?_, ?_, ?_⟩
  · dsimp only
    rw [show s.offset + n - start = (s.offset - start) + n by omega, List.take_add, ← hs.content,
      List.drop_drop, show start + (s.offset - start) = s.offset by omega]
  · dsimp only
    rw [List.length_append, htaken]
    omega
  · dsimp only
    rw [List.length_append, htaken]
    omega
  · rintro a hmem
    rw [ha] at hmem
    rcases List.mem_append.1 hmem with hmem | hmem
    · exact hs.answers a hmem
    · exact ⟨n - 1, by rw [List.mem_singleton.1 hmem, Nat.sub_add_cancel hn]⟩
  · have := hs.rounds
    dsimp only
    rw [ha, List.length_append, List.length_append, htaken, List.length_singleton]
    omega

theorem readLoop_spec (read : Read) (hs : s.Inv file start maxSize) {fuel : Nat}
    (hfuel : file.length - s.offset < fuel) :
    Loop.Left file start maxSize s.err (readLoop read.read file maxSize fuel s) := by
  induction fuel generalizing s with
  | zero => omega
  | succ fuel ih =>
    rw [readLoop]
    by_cases hlt : s.content.length < maxSize
    · rw [if_pos hlt]
      dsimp only
      cases hread : read.read s.answers.length (min (maxSize - s.content.length) kBufferSize)
          (file.length - s.offset) with
      | error e => exact .failed s hs rfl e rfl (read.errno hread) rfl
      | ok n =>
        have hasked := read.le_asked hread
        have hrest := read.le_rest hread
        dsimp only
        by_cases hn : n > 0
        · rw [if_pos hn]
          have hround := hs.round hn hrest (by omega) rfl
          refine ih hround ?_
          dsimp only
          omega
        · rw [if_neg hn]
          obtain rfl : n = 0 := by omega
          refine .eof s hs rfl rfl ?_ rfl
          rcases read.pos hread with h | h
          · have : 0 < kBufferSize := by decide
            omega
          · exact h
    · rw [if_neg hlt]
      exact .full hs (Nat.le_antisymm hs.le_maxSize (Nat.le_of_not_lt hlt)) rfl

/-- What was read is the part of the file that the descriptor has moved over. -/
theorem Loop.Inv.content_isPrefix (hs : s.Inv file start maxSize) :
    s.content <+: file.drop start := by
  rw [hs.content]
  exact List.take_prefix _ _

theorem Loop.Inv.rounds_le (hs : s.Inv file start maxSize) :
    s.answers.length ≤ (file.drop start).length :=
  hs.rounds.trans hs.content_isPrefix.length_le

theorem Loop.Inv.no_error (hs : s.Inv file start maxSize) (e : Int) : .error e ∉ s.answers := by
  intro h
  obtain ⟨n, hn⟩ := hs.answers _ h
  cases hn

theorem Loop.Left.readsPrefix {err : Int} {t : Loop} (h : t.Left file start maxSize err)
    (outputs : Outputs) (self : ReadSmallFile) :
    ReadsPrefix (file.drop start) maxSize ⟨t.err, t.content, outputs, self, t.answers⟩ := by
  cases h with
  | full inv size err_eq =>
    have hle := inv.content_isPrefix.length_le
    refine ⟨.inl size, inv.rounds_le.trans (Nat.le_succ _), inv.content_isPrefix, inv.le_maxSize,
      ?_, fun e he => absurd he (inv.no_error e)⟩
    intro _
    dsimp only
    omega
  | eof s inv content answers rest err_eq =>
    refine ⟨.inr ⟨s.answers, .ok 0, answers, .inl rfl⟩, ?_, ?_, ?_, ?_, ?_⟩
    · dsimp only
      rw [answers, List.length_append]
      exact Nat.succ_le_succ inv.rounds_le
    · exact content.symm ▸ inv.content_isPrefix
    · exact content.symm ▸ inv.le_maxSize
    · intro _
      have hle := inv.content_isPrefix.length_le
      have hlen := inv.length
      have hmax := inv.le_maxSize
      have hstart := inv.start_le
      dsimp only
      rw [content]
      rw [List.length_drop] at hle ⊢
      omega
    · intro e he
      dsimp only at he
      rw [answers, List.mem_append] at he
      rcases he with he | he
      · exact absurd he (inv.no_error e)
      · cases List.mem_singleton.1 he
  | failed s inv content e answers errno err_eq =>
    refine ⟨.inr ⟨s.answers, .error e, answers, .inr ⟨e, rfl⟩⟩, ?_, ?_, ?_, ?_, ?_⟩
    · dsimp only
      rw [answers, List.length_append]
      exact Nat.succ_le_succ inv.rounds_le
    · exact content.symm ▸ inv.content_isPrefix
    · exact content.symm ▸ inv.le_maxSize
    · intro hret
      exact absurd (err_eq.symm.trans hret) errno
    · intro e' he
      dsimp only at he
      rw [answers, List.mem_append] at he
      rcases he with he | he
      · exact absurd he (inv.no_error e')
      · cases List.mem_singleton.1 he
        exact err_eq

theorem Loop.inv_start (file : Text) (start maxSize : Nat) (err : Int) :
    Loop.Inv file start maxSize ⟨start, [], err, []⟩ :=
  ⟨Nat.le_refl _, by simp, by simp, Nat.zero_le _, by simp, Nat.le_refl _⟩

end loop

/-- For a regular file `stat` only fills the outputs, or fails with the errno of `fstat`. -/
theorem stat_regular {fstat : Except Int Stat} {size : Nat}
    (hfstat : ∀ st, fstat = .ok st → st.mode = .regular ∧ st.size = size) {maxSize : Int}
    (h0 : 0 ≤ maxSize) (h1 : maxSize < 2 ^ 31) (err : Int) (out : Outputs) :
    ∃ err' out', stat fstat maxSize err out = .ok (err', out') := by
  unfold stat
  cases out.fileSize with
  | none => exact ⟨_, _, rfl⟩
  | some _ =>
    cases hst : fstat with
    | error errno => exact ⟨_, _, rfl⟩
    | ok st =>
      obtain ⟨hmode, hsize⟩ := hfstat st hst
      have hfits : MachineInt.Fits 32 (min maxSize st.size) := by
        unfold MachineInt.Fits
        omega
      dsimp only
      rw [hmode]
      dsimp only
      rw [MachineInt.wrap_of_fits (by decide) hfits, if_neg (by omega)]
      exact ⟨_, _, rfl⟩

theorem sizeT_of_int {n : Int} (h0 : 0 ≤ n) (h1 : n < 2 ^ 31) : sizeT n = n.toNat := by
  unfold sizeT
  rw [Int.emod_eq_of_lt h0 (by omega)]

/-- A call reads on from where the descriptor is, whatever the string held before. -/
theorem readToString_spec (read : Read) {fstat : Except Int Stat} {file : Text}
    (hfstat : ∀ st, fstat = .ok st → st.mode = .regular ∧ st.size = file.length) {maxSize : Int}
    (h0 : 0 ≤ maxSize) (h1 : maxSize < 2 ^ 31) (offset : Nat) (out : Outputs) :
    ∃ r, (∀ content, readToString read.read fstat ⟨some ⟨file, offset⟩, 0⟩ maxSize content out =
        .ok r) ∧
      ReadsPrefix (file.drop offset) maxSize.toNat r := by
  obtain ⟨err, out', hstat⟩ := stat_regular hfstat h0 h1 0 out
  have hleft := readLoop_spec read (Loop.inv_start file offset (sizeT maxSize) err)
    (Nat.lt_succ_self (file.length - offset))
  rw [sizeT_of_int h0 h1] at hleft
  have hprefix := hleft.readsPrefix out' ⟨some ⟨file, (readLoop read.read file maxSize.toNat
    (file.length - offset + 1) ⟨offset, [], err, []⟩).offset⟩, 0⟩
  refine ⟨_, ?_, hprefix⟩
  intro content
  rw [readToString, hstat, sizeT_of_int h0 h1]
  rfl

/-- `read(2)` that hands out two bytes at a time and fails in the third call. -/
def Read.twos : Read where
  read i n rest := if i < 2 then .ok (min 2 (min n rest)) else .error 5
  le_asked {i n rest m} h := by
    split at h
    · cases h
      omega
    · cases h
  le_rest {i n rest m} h := by
    split at h
    · cases h
      omega
    · cases h
  pos {i n rest} h := by
    split at h
    · injection h with h
      omega
    · cases h
  errno {i n rest e} h := by
    split at h
    · cases h
    · cases h
      decide

end ReadSmallFile

end Rawmd
