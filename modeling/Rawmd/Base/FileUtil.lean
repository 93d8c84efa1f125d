import Rawmd.Lib.Printf

/-!
# `base/FileUtil.cpp`: `AppendFile`

`fwrite i n` is what the `i`-th call of `fwrite_unlocked` accepts of the `n` bytes it is offered.
`content` are the bytes accepted by the stream.

    fwrite accepts all bytes → append adds the line              (AppendFile.append_all)
    append adds a prefix of the line, offered piece by piece     (AppendFile.append_appendsPrefix)
    it counts what it added ↔ no retry is answered 0             (AppendFile.append_counts_iff)
-/

namespace Rawmd

structure AppendFile where
  filename : Text
  content : Text
  writtenBytes : Nat
deriving DecidableEq, Repr

namespace AppendFile

/-- A file that has just been opened. -/
def fopen (filename : Text) : AppendFile := ⟨filename, [], 0⟩

def accept (file : AppendFile) (bytes : Text) : AppendFile :=
  { file with content := file.content ++ bytes }

/-- The `while` loop: `n` bytes of the line have been accepted by the first `i` calls.  Each round
but the last accepts a byte, so `logline.length` rounds are enough. -/
def appendLoop (fwrite : Nat → Nat → Nat) (logline : Text) :
    Nat → Nat → Nat → AppendFile → AppendFile
  | 0, _, _, file => file
  | fuel + 1, i, n, file =>
    let remain := logline.length - n
    if remain > 0 then
      let x := fwrite i remain
      if x = 0 then file
      else appendLoop fwrite logline fuel (i + 1) (n + x) (file.accept ((logline.drop n).take x))
    else file

def append (fwrite : Nat → Nat → Nat) (file : AppendFile) (logline : Text) : AppendFile :=
  let n := fwrite 0 logline.length
  let file := appendLoop fwrite logline logline.length 1 n (file.accept (logline.take n))
  { file with writtenBytes := file.writtenBytes + logline.length }

theorem appendLoop_done (fwrite : Nat → Nat → Nat) (logline : Text) (fuel i : Nat)
    (file : AppendFile) : appendLoop fwrite logline fuel i logline.length file = file := by
  cases fuel with
  | zero => rfl
  | succ fuel =>
    rw [appendLoop, if_neg]
    omega

theorem appendLoop_filename (fwrite : Nat → Nat → Nat) (logline : Text) (fuel i n : Nat)
    (file : AppendFile) :
    (appendLoop fwrite logline fuel i n file).filename = file.filename := by
  induction fuel generalizing i n file with
  | zero => rfl
  | succ fuel ih =>
    rw [appendLoop]
    dsimp only
    split
    · split
      · rfl
      · exact ih _ _ _
    · rfl

theorem append_filename (fwrite : Nat → Nat → Nat) (file : AppendFile) (logline : Text) :
    (append fwrite file logline).filename = file.filename :=
  appendLoop_filename fwrite logline _ _ _ _

theorem append_all {fwrite : Nat → Nat → Nat} (h : ∀ i n, fwrite i n = n) (file : AppendFile)
    (logline : Text) : (append fwrite file logline).content = file.content ++ logline := by
  simp only [append, h, appendLoop_done, List.take_length, accept]

/-! ## The calls of `write` -/

/-- One call: where in the line it starts, the bytes that it offers, the bytes accepted. -/
structure Write where
  offset : Nat
  len : Nat
  accepted : Nat
deriving DecidableEq, Repr

/-- The calls of the `while` loop, which has been entered with `n` bytes accepted. -/
def retries (fwrite : Nat → Nat → Nat) (len : Nat) : Nat → Nat → Nat → List Write
  | 0, _, _ => []
  | fuel + 1, i, n =>
    let remain := len - n
    if remain > 0 then
      let x := fwrite i remain
      if x = 0 then [⟨n, remain, x⟩]
      else ⟨n, remain, x⟩ :: retries fwrite len fuel (i + 1) (n + x)
    else []

def writes (fwrite : Nat → Nat → Nat) (len : Nat) : List Write :=
  let n := fwrite 0 len
  ⟨0, len, n⟩ :: retries fwrite len len 1 n

def total (ws : List Write) : Nat := (ws.map (·.accepted)).sum

/-- The bytes of the line that a call adds to the stream. -/
def Write.piece (logline : Text) (w : Write) : Text := (logline.drop w.offset).take w.accepted

/-- What the stream has accepted of a line of `len` bytes after `i` calls, each offering the rest
of the line. -/
def accepted (fwrite : Nat → Nat → Nat) (len : Nat) : Nat → Nat
  | 0 => 0
  | i + 1 => accepted fwrite len i + fwrite i (len - accepted fwrite len i)

/-- `append` offers the line piece by piece, each where the one before it ended, until it is
accepted or a retry is answered 0. -/
structure AppendsPrefix (fwrite : Nat → Nat → Nat) (file : AppendFile) (logline : Text) : Prop where
  rounds : (writes fwrite logline.length).length ≤ logline.length + 1
  ends : total (writes fwrite logline.length) = logline.length ∨
    ∃ ws w, ws ≠ [] ∧ writes fwrite logline.length = ws ++ [w] ∧ w.accepted = 0
  offered : ∀ ws w ws', writes fwrite logline.length = ws ++ w :: ws' →
    w = ⟨total ws, logline.length - total ws, fwrite ws.length (logline.length - total ws)⟩
  pieces : (append fwrite file logline).content =
    file.content ++ (writes fwrite logline.length).flatMap (Write.piece logline)
  content : (append fwrite file logline).content =
    file.content ++ logline.take (total (writes fwrite logline.length))
  whole : (∀ w ∈ (writes fwrite logline.length).tail, w.accepted ≠ 0) →
    total (writes fwrite logline.length) = logline.length

section calls

variable {fwrite : Nat → Nat → Nat} {len : Nat}

/-- The `i`-th call. -/
def call (fwrite : Nat → Nat → Nat) (len i : Nat) : Write :=
  ⟨accepted fwrite len i, len - accepted fwrite len i, fwrite i (len - accepted fwrite len i)⟩

theorem accepted_le (h : ∀ i n, fwrite i n ≤ n) (len i : Nat) : accepted fwrite len i ≤ len := by
  induction i with
  | zero => exact Nat.zero_le _
  | succ i ih =>
    rw [accepted]
    have := h i (len - accepted fwrite len i)
    omega

theorem total_append (ws ws' : List Write) : total (ws ++ ws') = total ws + total ws' := by
  simp [total]

theorem total_calls (k : Nat) :
    total ((List.range k).map (call fwrite len)) = accepted fwrite len k := by
  induction k with
  | zero => rfl
  | succ k ih =>
    rw [List.range_succ, List.map_append, total_append, ih]
    simp [total, call, accepted]

/-- The loop makes the calls `i`, `i + 1`, …, the bytes that are left being enough rounds. -/
theorem retries_eq (h : ∀ i n, fwrite i n ≤ n) (len fuel i : Nat)
    (hfuel : len - accepted fwrite len i ≤ fuel) :
    ∃ k ≤ len - accepted fwrite len i,
      retries fwrite len fuel i (accepted fwrite len i) =
        (List.range' i k).map (call fwrite len) ∧
      (∀ j, j + 1 < k → fwrite (i + j) (len - accepted fwrite len (i + j)) ≠ 0) ∧
      (accepted fwrite len (i + k) = len ∨
        ∃ j, k = j + 1 ∧ fwrite (i + j) (len - accepted fwrite len (i + j)) = 0) := by
  induction fuel generalizing i with
  | zero =>
    have := accepted_le h len i
    exact ⟨0, by omega, rfl, by omega, .inl (by rw [Nat.add_zero]; omega)⟩
  | succ fuel ih =>
    have hle := accepted_le h len i
    rw [retries]
    dsimp only
    by_cases hremain : len - accepted fwrite len i > 0
    · rw [if_pos hremain]
      by_cases hx : fwrite i (len - accepted fwrite len i) = 0
      · rw [if_pos hx]
        exact ⟨1, hremain, rfl, by omega, .inr ⟨0, rfl, hx⟩⟩
      · rw [if_neg hx]
        have hstep : accepted fwrite len i + fwrite i (len - accepted fwrite len i) =
            accepted fwrite len (i + 1) := rfl
        rw [hstep]
        obtain ⟨k, hk, heq, hbefore, hend⟩ := ih (i + 1) (by omega)
        refine ⟨k + 1, by omega, ?_, ?_, ?_⟩
        · rw [heq, List.range'_succ, List.map_cons]
          rfl
        · intro j hj
          rcases j with _ | j
          · exact hx
          · rw [show i + (j + 1) = i + 1 + j by omega]
            exact hbefore j (by omega)
        · rw [show i + (k + 1) = i + 1 + k by omega]
          rcases hend with hall | ⟨j, rfl, hzero⟩
          · exact .inl hall
          · refine .inr ⟨j + 1, rfl, ?_⟩
            rwa [show i + (j + 1) = i + 1 + j by omega]
    · rw [if_neg hremain]
      exact ⟨0, by omega, rfl, by omega, .inl (by rw [Nat.add_zero]; omega)⟩

theorem writes_eq (h : ∀ i n, fwrite i n ≤ n) (len : Nat) :
    ∃ k ≤ len, writes fwrite len = (List.range (k + 1)).map (call fwrite len) ∧
      (∀ i, 1 ≤ i → i < k → fwrite i (len - accepted fwrite len i) ≠ 0) ∧
      (accepted fwrite len (k + 1) = len ∨
        1 ≤ k ∧ fwrite k (len - accepted fwrite len k) = 0) := by
  obtain ⟨k, hk, heq, hbefore, hend⟩ := retries_eq h len len 1 (Nat.sub_le _ _)
  have hfirst : accepted fwrite len 1 = fwrite 0 len := by simp [accepted]
  refine ⟨k, by omega, ?_, ?_, ?_⟩
  · rw [List.range_succ_eq_map, List.map_cons, List.map_map, writes]
    rw [← hfirst, heq, List.range'_eq_map_range, List.map_map]
    congr 1
    · simp [call, accepted]
    · refine List.map_congr_left ?_
      intro j hj
      simp [Nat.add_comm]
  · intro i hi hik
    have := hbefore (i - 1) (by omega)
    rwa [show 1 + (i - 1) = i by omega] at this
  · rcases hend with hall | ⟨j, rfl, hzero⟩
    · exact .inl (by rwa [Nat.add_comm] at hall)
    · exact .inr ⟨by omega, by rwa [Nat.add_comm] at hzero⟩

theorem flatMap_piece_calls (logline : Text) (k : Nat) :
    ((List.range k).map (call fwrite logline.length)).flatMap (Write.piece logline) =
      logline.take (accepted fwrite logline.length k) := by
  induction k with
  | zero => rfl
  | succ k ih =>
    rw [List.range_succ, List.map_append, List.flatMap_append, ih, accepted, List.take_add]
    simp [Write.piece, call]

theorem appendLoop_content (logline : Text) (fuel i n : Nat) (file : AppendFile) :
    (appendLoop fwrite logline fuel i n file).content =
      file.content ++ (retries fwrite logline.length fuel i n).flatMap (Write.piece logline) := by
  induction fuel generalizing i n file with
  | zero => simp [appendLoop, retries]
  | succ fuel ih =>
    rw [appendLoop, retries]
    dsimp only
    split
    · split
      · next hx => simp [Write.piece, hx]
      · rw [ih]
        simp [accept, Write.piece]
    · simp

theorem append_content (file : AppendFile) (logline : Text) :
    (append fwrite file logline).content =
      file.content ++ (writes fwrite logline.length).flatMap (Write.piece logline) := by
  show (appendLoop fwrite logline _ _ _ _).content = _
  rw [appendLoop_content, writes]
  simp [accept, Write.piece]

theorem appendLoop_writtenBytes (logline : Text) (fuel i n : Nat) (file : AppendFile) :
    (appendLoop fwrite logline fuel i n file).writtenBytes = file.writtenBytes := by
  induction fuel generalizing i n file with
  | zero => rfl
  | succ fuel ih =>
    rw [appendLoop]
    dsimp only
    split
    · split
      · rfl
      · exact ih _ _ _
    · rfl

/-- The counter grows by the length of the line, whatever was accepted. -/
theorem append_writtenBytes (file : AppendFile) (logline : Text) :
    (append fwrite file logline).writtenBytes = file.writtenBytes + logline.length := by
  show (appendLoop fwrite logline _ _ _ _).writtenBytes + _ = _
  rw [appendLoop_writtenBytes]
  rfl

/-- A call in a list of the first calls stands at its own place. -/
theorem eq_call_of_range {k : Nat} {ws ws' : List Write} {w : Write}
    (h : (List.range k).map (call fwrite len) = ws ++ w :: ws') :
    total ws = accepted fwrite len ws.length ∧ w = call fwrite len ws.length := by
  have hk : ws.length < k := by
    have := congrArg List.length h
    simp only [List.length_map, List.length_range, List.length_append, List.length_cons] at this
    omega
  have hget := congrArg (·[ws.length]?) h
  have htake := congrArg (·.take ws.length) h
  simp only [List.getElem?_map, List.getElem?_range hk, Option.map_some,
    List.getElem?_append_right (Nat.le_refl _), Nat.sub_self, List.getElem?_cons_zero,
    Option.some.injEq, ← List.map_take, List.take_range, Nat.min_eq_left hk.le,
    List.take_left] at hget htake
  exact ⟨by rw [← htake, total_calls, List.length_map, List.length_range], hget.symm⟩

theorem append_appendsPrefix (h : ∀ i n, fwrite i n ≤ n) (file : AppendFile) (logline : Text) :
    AppendsPrefix fwrite file logline := by
  obtain ⟨k, hk, heq, -, hend⟩ := writes_eq h logline.length
  have htotal : total (writes fwrite logline.length) = accepted fwrite logline.length (k + 1) := by
    rw [heq, total_calls]
  refine ⟨?_, ?_, ?_, append_content file logline, ?_, ?_⟩
  · rw [heq, List.length_map, List.length_range]
    omega
  · rcases hend with hall | ⟨hpos, hzero⟩
    · exact .inl (htotal.trans hall)
    · refine .inr ⟨(List.range k).map (call fwrite logline.length), call fwrite logline.length k,
        ?_, ?_, hzero⟩
      · simp only [ne_eq, List.map_eq_nil_iff, List.range_eq_nil]
        omega
      · rw [heq, List.range_succ, List.map_append]
        rfl
  · intro ws w ws' hws
    obtain ⟨hsum, rfl⟩ := eq_call_of_range (heq.symm.trans hws)
    rw [hsum]
    rfl
  · rw [append_content, htotal, heq, flatMap_piece_calls]
  · intro hnz
    rcases hend with hall | ⟨hpos, hzero⟩
    · exact htotal.trans hall
    · refine absurd hzero (hnz (call fwrite logline.length k) ?_)
      rw [heq, List.range_succ_eq_map, List.map_cons, List.tail_cons, List.map_map]
      refine List.mem_map.2 ⟨k - 1, List.mem_range.2 (by omega), ?_⟩
      simp [Nat.sub_add_cancel hpos]

/-- `writtenBytes()` counts what the stream accepted exactly if no retry is answered 0: the counter
takes the whole line in any case. -/
theorem append_counts_iff (h : ∀ i n, fwrite i n ≤ n) (file : AppendFile) (logline : Text) :
    (AppendsPrefix fwrite file logline ∧
      (append fwrite file logline).writtenBytes =
        file.writtenBytes + total (writes fwrite logline.length)) ↔
    ∀ i, 1 ≤ i → accepted fwrite logline.length i < logline.length →
      fwrite i (logline.length - accepted fwrite logline.length i) ≠ 0 := by
  rw [and_iff_right (append_appendsPrefix h file logline), append_writtenBytes,
    Nat.add_left_cancel_iff]
  obtain ⟨k, hk, heq, hbefore, hend⟩ := writes_eq h logline.length
  rw [heq, total_calls]
  have hstep (i : Nat) : accepted fwrite logline.length (i + 1) =
      accepted fwrite logline.length i +
        fwrite i (logline.length - accepted fwrite logline.length i) := rfl
  constructor
  · intro hall i hi hlt hzero
    have hik : i ≤ k := by
      by_contra hgt
      have hmono := monotone_nat_of_le_succ
        (fun i => (hstep i).symm ▸ Nat.le_add_right _ _) (show k + 1 ≤ i by omega)
      omega
    rcases Nat.lt_or_eq_of_le hik with hlt' | rfl
    · exact hbefore i hi hlt' hzero
    · have := hstep i
      omega
  · intro hretry
    rcases hend with hall | ⟨hpos, hzero⟩
    · exact hall.symm
    · have hle := accepted_le h logline.length k
      have hnot : ¬ accepted fwrite logline.length k < logline.length :=
        fun hlt => hretry k hpos hlt hzero
      have := hstep k
      omega

/-- Three bytes at a time. -/
theorem append_counts_threes :
    AppendsPrefix (fun _ n => min 3 n) (fopen []) "hello".toList ∧
      (append (fun _ n => min 3 n) (fopen []) "hello".toList).writtenBytes =
        (fopen []).writtenBytes + total (writes (fun _ n => min 3 n) "hello".toList.length) := by
  refine (append_counts_iff (fun i n => Nat.min_le_right 3 n) (fopen []) "hello".toList).2 ?_
  intro i _ hlt
  omega

/-- A first write of two bytes, then one that fails: two bytes are in the stream, five are
counted. -/
theorem append_counts_failed :
    ¬ (append (fun i n => if i = 0 then min 2 n else 0) (fopen []) "hello".toList).writtenBytes =
      (fopen []).writtenBytes +
        total (writes (fun i n => if i = 0 then min 2 n else 0) "hello".toList.length) := by
  decide

end calls

end AppendFile

end Rawmd
