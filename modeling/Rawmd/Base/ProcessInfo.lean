import Rawmd.Lib.Scan
import Rawmd.Base.LogStream

/-!
# `base/ProcessInfo.cpp`: what the kernel says about the process

`procname` and `numThreads` search the texts of `/proc/self/stat` and `/proc/self/status`, which
hold the name of the process, for parentheses and for `Threads:`.  The name may hold both.
`procname` takes the first and the last parenthesis and cannot be misled; `numThreads` takes the
first `Threads:`, at the start of a line or not.

    every name and every number are read back ↔ no `Threads:` before the line of that name
                                                                     (processInfo_iff)
-/

namespace Rawmd.ProcessInfo

open Printf MachineInt Scan
open LogStream (Piece)

/-- `name.set(stat.data()+lp+1, static_cast<int>(rp-lp-1))` -/
def nameBetween (stat : Text) (lp rp : Nat) (h : rp < stat.length) : Piece where
  data := stat.drop (lp + 1)
  size := wrap 32 ((rp - lp - 1 : Nat) : Int)
  fits := wrap_fits (by decide) _
  readable := by
    have hle := wrap_le 32 (rp - lp - 1)
    rw [List.length_drop]
    omega

/-- `StringPiece()` -/
def noName : Piece := ⟨[], 0, by decide, by decide⟩

def procname (stat : Text) : Piece :=
  match find '(' stat, hrp : rfind ')' stat with
  | some lp, some rp => if lp < rp then nameBetween stat lp rp (rfind_lt hrp) else noName
  | _, _ => noName

def threadsTag : Text := "Threads:".toList

def numThreads (status : Text) : Int :=
  match findText threadsTag status with
  | some pos => atoi (status.drop (pos + 8))
  | none => 0

/-! ## The texts of the kernel -/

/-- `/proc/self/stat` -/
def statLine (pid : Nat) (comm fields : Text) : Text :=
  decimal pid ++ [' ', '('] ++ comm ++ [')', ' '] ++ fields

def ofLines (lines : List Text) : Text := lines.flatMap fun line => line ++ ['\n']

/-- The first line of `/proc/self/status`. -/
def nameLine (comm : Text) : Text := "Name:\t".toList ++ comm

/-- `/proc/self/status`: `lines` is what stands between the name and the number of threads. -/
def statusText (comm : Text) (lines : List Text) (blanks : Text) (k : Nat) (after : Text) : Text :=
  ofLines (nameLine comm :: lines) ++ (threadsTag ++ (blanks ++ decimal k ++ after))

/-! ## The name -/

theorem procname_eq {stat : Text} {lp rp : Nat} (hlp : find '(' stat = some lp)
    (hrp : rfind ')' stat = some rp) (hlt : lp < rp) :
    procname stat = nameBetween stat lp rp (rfind_lt hrp) := by
  unfold procname
  split
  · next lp' rp' hlp' hrp' =>
    rw [hlp] at hlp'
    rw [hrp] at hrp'
    cases hlp'
    cases hrp'
    exact if_pos hlt
  · next hnone => exact absurd hrp (hnone lp rp hlp)

/-- Whatever the name: the first `(` is before it and the last `)` behind it. -/
theorem procname_statLine (pid : Nat) {comm fields : Text} (hcomm : comm.length < 2 ^ 31)
    (hfields : ')' ∉ fields) : (procname (statLine pid comm fields)).asString = some comm := by
  have hleft : statLine pid comm fields =
      (decimal pid ++ [' ']) ++ '(' :: (comm ++ ')' :: ' ' :: fields) := by
    simp [statLine]
  have hright : statLine pid comm fields =
      (decimal pid ++ [' ', '('] ++ comm) ++ ')' :: ' ' :: fields := by
    simp [statLine]
  have hlp : find '(' (statLine pid comm fields) = some ((decimal pid).length + 1) := by
    rw [hleft, find_append, List.length_append, List.length_singleton]
    rw [List.mem_append, List.mem_singleton]
    rintro (h | h)
    · exact not_mem_decimal (by decide) pid h
    · cases h
  have hrp : rfind ')' (statLine pid comm fields) =
      some ((decimal pid).length + 2 + comm.length) := by
    rw [hright, rfind_append, List.length_append, List.length_append]
    · rfl
    · rw [List.mem_cons]
      rintro (h | h)
      · cases h
      · exact hfields h
  have hsize : wrap 32 (((decimal pid).length + 2 + comm.length - ((decimal pid).length + 1) - 1 :
      Nat) : Int) = comm.length := by
    rw [show (decimal pid).length + 2 + comm.length - ((decimal pid).length + 1) - 1 =
      comm.length by omega]
    exact wrap_of_fits (by decide) ⟨by omega, by omega⟩
  rw [procname_eq hlp hrp (by omega)]
  simp only [Piece.asString, nameBetween, hsize]
  rw [if_pos (by omega), Int.toNat_natCast, hright, List.append_assoc, List.drop_left' (by simp),
    List.take_left' rfl]

/-! ## The number of threads -/

theorem newline_not_mem_threadsTag : '\n' ∉ threadsTag := by decide

theorem ofLines_cons (line : Text) (lines : List Text) (y : Text) :
    ofLines (line :: lines) ++ y = line ++ '\n' :: (ofLines lines ++ y) := by
  simp [ofLines]

/-- Lines that do not hold the tag are skipped. -/
theorem findText_ofLines {lines : List Text} (h : ∀ line ∈ lines, ¬ threadsTag <:+: line)
    (y : Text) : findText threadsTag (ofLines lines ++ y) =
      (findText threadsTag y).map (· + (ofLines lines).length) := by
  induction lines with
  | nil => simp [ofLines]
  | cons line lines ih =>
    obtain ⟨hline, hlines⟩ := List.forall_mem_cons.1 h
    have hlen : (ofLines (line :: lines)).length = (ofLines lines).length + (line.length + 1) := by
      simp [ofLines]
      omega
    rw [ofLines_cons, findText_append newline_not_mem_threadsTag hline, ih hlines, hlen]
    cases findText threadsTag y with
    | none => rfl
    | some i => simp [Nat.add_assoc]

/-- A line that holds the tag hides what follows the lines. -/
theorem findText_ofLines_of_mem {lines : List Text} (h : ∃ line ∈ lines, threadsTag <:+: line) :
    ∃ i u, ∀ y, findText threadsTag (ofLines lines ++ y) = some i ∧
      (ofLines lines ++ y).drop (i + 8) = u ++ y := by
  induction lines with
  | nil =>
    obtain ⟨line, hline, -⟩ := h
    cases hline
  | cons line lines ih =>
    by_cases hline : threadsTag <:+: line
    · obtain ⟨i, hi, hfind⟩ := findText_of_infix newline_not_mem_threadsTag hline
      change i + 8 ≤ line.length at hi
      refine ⟨i, line.drop (i + 8) ++ '\n' :: ofLines lines, ?_⟩
      intro y
      rw [ofLines_cons, List.drop_append_of_le_length hi, List.append_assoc]
      exact ⟨hfind _, rfl⟩
    · have hlines : ∃ line ∈ lines, threadsTag <:+: line := by
        obtain ⟨line', hmem, hline'⟩ := h
        rcases List.mem_cons.1 hmem with rfl | hmem
        · exact absurd hline' hline
        · exact ⟨line', hmem, hline'⟩
      obtain ⟨i, u, hfind⟩ := ih hlines
      refine ⟨i + (line.length + 1), u, ?_⟩
      intro y
      obtain ⟨hi, hdrop⟩ := hfind y
      rw [ofLines_cons, findText_append newline_not_mem_threadsTag hline, hi]
      refine ⟨rfl, ?_⟩
      rw [← hdrop, show i + (line.length + 1) + 8 = line.length + 1 + (i + 8) by omega,
        ← List.drop_drop, List.append_cons, List.drop_left' (by simp)]

section

variable {comm blanks after : Text} {lines : List Text}

variable (comm) in
/-- No `T` comes before the name. -/
theorem threadsTag_infix_nameLine : threadsTag <:+: nameLine comm ↔ threadsTag <:+: comm :=
  infix_append_iff (by decide)

theorem numThreads_statusText
    (h : ∀ line ∈ nameLine comm :: lines, ¬ threadsTag <:+: line) (k : Nat) :
    numThreads (statusText comm lines blanks k after) = atoi (blanks ++ decimal k ++ after) := by
  rw [numThreads, statusText, findText_ofLines h, findText_self]
  show atoi ((ofLines (nameLine comm :: lines) ++ _).drop (0 + _ + 8)) = _
  rw [Nat.zero_add, ← List.drop_drop, List.drop_left' rfl]
  rfl

variable (blanks after) in
/-- The number that is read does not depend on the one that is meant. -/
theorem numThreads_of_mem (h : ∃ line ∈ nameLine comm :: lines, threadsTag <:+: line) :
    ∃ v, ∀ k, numThreads (statusText comm lines blanks k after) = v := by
  obtain ⟨i, u, hfind⟩ := findText_ofLines_of_mem h
  refine ⟨atoi u, ?_⟩
  intro k
  obtain ⟨hi, hdrop⟩ := hfind (threadsTag ++ (blanks ++ decimal k ++ after))
  -- the scan stops at the `T` of the line that is meant, if not before
  have hscan : scan (u ++ (threadsTag ++ (blanks ++ decimal k ++ after))) = scan u :=
    scan_append (by decide) (by decide) (by decide) (by decide) u _
  rw [numThreads, statusText, hi]
  show atoi ((ofLines (nameLine comm :: lines) ++ _).drop (i + 8)) = _
  rw [hdrop, atoi, strtol, hscan]
  rfl

/-- An `int` holds the numbers below 2³¹. -/
theorem atoi_decimal_eq_iff (hblanks : ∀ c ∈ blanks, isSpace c = true)
    (hafter : ∀ c ∈ after.head?, c.isDigit = false) (k : Nat) :
    atoi (blanks ++ decimal k ++ after) = k ↔ k < 2 ^ 31 := by
  have hscan : scan (blanks ++ decimal k ++ after) = k := by
    have hsigned : signed (k : Int) = decimal k := by
      rw [signed, if_neg (by omega), Int.natAbs_natCast]
    rw [← hsigned]
    exact scan_signed k hblanks hafter
  constructor
  · intro h
    have hfits : Fits 32 (atoi (blanks ++ decimal k ++ after)) := wrap_fits (by decide) _
    rw [h] at hfits
    have hlt := hfits.2
    omega
  · intro hk
    rw [← hscan]
    exact atoi_of_fits (by rw [hscan]; exact ⟨by omega, by omega⟩)

/-- For a process of any name: the name is read back, and so is exactly every number of threads
that an `int` can hold, if and only if the tag is neither in the name nor in another line before
the number. -/
theorem processInfo_iff (pid : Nat) (comm fields : Text) (lines : List Text) (blanks after : Text)
    (hcomm : comm.length < 2 ^ 31) (hfields : '(' ∉ fields ∧ ')' ∉ fields)
    (hblanks : ∀ c ∈ blanks, isSpace c = true) (hafter : ∀ c ∈ after.head?, c.isDigit = false) :
    ((procname (statLine pid comm fields)).asString = some comm ∧
      ∀ k, numThreads (statusText comm lines blanks k after) = k ↔ k < 2 ^ 31) ↔
    ¬ threadsTag <:+: comm ∧ ∀ line ∈ lines, ¬ threadsTag <:+: line := by
  rw [← threadsTag_infix_nameLine comm, ← List.forall_mem_cons
    (p := fun line => ¬ threadsTag <:+: line)]
  constructor
  · rintro ⟨-, hk⟩
    intro line hline hinfix
    obtain ⟨v, hv⟩ := numThreads_of_mem blanks after ⟨line, hline, hinfix⟩
    have hzero := (hk 0).2 (by decide)
    have hone := (hk 1).2 (by decide)
    rw [hv] at hzero hone
    omega
  · intro h
    refine ⟨procname_statLine pid hcomm hfields.2, ?_⟩
    intro k
    rw [numThreads_statusText h]
    exact atoi_decimal_eq_iff hblanks hafter k

end

/-- A name with parentheses and blanks. -/
theorem processInfo_parentheses :
    (procname (statLine 42 "a) (b".toList "S 1".toList)).asString = some "a) (b".toList ∧
    numThreads (statusText "a) (b".toList ["Umask:\t0022".toList] ['\t'] 3 ['\n']) = 3 := by
  have hblanks : ∀ c ∈ ['\t'], isSpace c = true := by
    intro c hc
    rw [List.mem_singleton.1 hc]
    decide
  have hafter : ∀ c ∈ ['\n'].head?, c.isDigit = false := by
    intro c hc
    cases hc
    rfl
  have h := (processInfo_iff 42 "a) (b".toList "S 1".toList ["Umask:\t0022".toList] ['\t'] ['\n']
    (by decide) (by decide) hblanks hafter).2 (by decide)
  exact ⟨h.1, (h.2 3).2 (by decide)⟩

/-- `numThreads` of a process called `Threads:7` that has three. -/
theorem processInfo_misled :
    (procname (statLine 42 "Threads:7".toList "S 1".toList)).asString =
      some "Threads:7".toList ∧
    numThreads (statusText "Threads:7".toList ["Umask:\t0022".toList] ['\t'] 3 ['\n']) = 7 ∧
    numThreads (statusText "Threads:7".toList ["Umask:\t0022".toList] ['\t'] 3 ['\n']) ≠ 3 := by
  decide

end Rawmd.ProcessInfo
