import Rawmd.Lib.Machine
import Rawmd.Lib.MachineInt
import Rawmd.Base.LogConvert

/-!
# `base/LogStream.h`: the buffer of a log record

A `FixedBuffer` is the bytes before `cur_`.  A store outside `data_` is the fault `overrun`, the
NUL behind a number included, and `add` over bytes that were not written is `unwritten`.

    every insertion appends its complete text or nothing, by its test     (insert_eq)
    the content is the accepted texts since the last reset, in order      (logStream_accepted)
-/

namespace Rawmd

open Printf MachineInt

namespace LogStream

def kSmallBuffer : Nat := 4000

def kMaxNumericSize : Int := 32

inductive Fault where
  | overrun
  | unwritten
deriving DecidableEq, Repr

/-! ## `FixedBuffer` -/

structure FixedBuffer (SIZE : Nat) where
  content : Text
deriving DecidableEq, Repr

namespace FixedBuffer

variable {SIZE : Nat}

def init : FixedBuffer SIZE := ⟨[]⟩

def length (buffer : FixedBuffer SIZE) : Int := buffer.content.length

def avail (buffer : FixedBuffer SIZE) : Int := SIZE - buffer.length

/-- `n` bytes are stored from `cur_` on. -/
def store (buffer : FixedBuffer SIZE) (n : Nat) : Except Fault Unit :=
  if buffer.content.length + n ≤ SIZE then .ok () else .error .overrun

/-- The text has been stored at `cur_`: `add` of its length. -/
def add (buffer : FixedBuffer SIZE) (text : Text) : FixedBuffer SIZE := ⟨buffer.content ++ text⟩

/-- The conversion to `size_t`. -/
def sizeT (n : Int) : Nat := (n % 2 ^ 64).toNat

/-- `memcpy` reads `len` bytes of `buf`. -/
def append (buffer : FixedBuffer SIZE) (buf : Text) (len : Nat) :
    Except Fault (FixedBuffer SIZE) :=
  if sizeT buffer.avail > len then do
    buffer.store len
    return buffer.add (buf.take len)
  else return buffer

def reset (_ : FixedBuffer SIZE) : FixedBuffer SIZE := ⟨[]⟩

/-- `*cur_ = '\0'` -/
def debugString (buffer : FixedBuffer SIZE) : Except Fault (FixedBuffer SIZE) := do
  buffer.store 1
  return buffer

end FixedBuffer

/-! ## `LogStream` -/

abbrev Buffer := FixedBuffer kSmallBuffer

/-- A `StringPiece`, or the arguments of `append`: an `int` length, of which the bytes can be read
if it is not negative. -/
structure Piece where
  data : Text
  size : Int
  fits : Fits 32 size
  readable : size ≤ data.length

/-- `as_string`; `std::string` does not take a negative length. -/
def Piece.asString (v : Piece) : Option Text :=
  if 0 ≤ v.size then some (v.data.take v.size.toNat) else none

/-- A buffer of another stream. -/
structure OtherBuffer where
  buffer : Buffer
  length_lt : buffer.content.length < kSmallBuffer

inductive IntType where
  | short
  | unsignedShort
  | int
  | unsignedInt
  | long
  | unsignedLong
  | longLong
  | unsignedLongLong
deriving DecidableEq, Repr

/-- The values from the least to the greatest. -/
def IntType.bounds : IntType → Int × Int
  | .short => (-2 ^ 15, 2 ^ 15 - 1)
  | .unsignedShort => (0, 2 ^ 16 - 1)
  | .int => (-2 ^ 31, 2 ^ 31 - 1)
  | .unsignedInt => (0, 2 ^ 32 - 1)
  | .long => (-2 ^ 63, 2 ^ 63 - 1)
  | .unsignedLong => (0, 2 ^ 64 - 1)
  | .longLong => (-2 ^ 63, 2 ^ 63 - 1)
  | .unsignedLongLong => (0, 2 ^ 64 - 1)

structure Integer where
  type : IntType
  value : Int
  low : type.bounds.1 ≤ value
  high : value ≤ type.bounds.2

/-- What can be inserted; `append` is the member function. -/
inductive Insertion (Double : Type) where
  | bool (v : Bool)
  | char (v : Char)
  | cString (str : Option Text)
  | string (v : Text)
  | piece (v : Piece)
  | buffer (v : OtherBuffer)
  | integer (v : Integer)
  | pointer (v : UInt64)
  | double (v : Double)
  | append (v : Piece)

def formatInteger (buffer : Buffer) (v : Int) : Except Fault Buffer :=
  if buffer.avail ≥ kMaxNumericSize then do
    let text := convert v
    buffer.store (text.length + 1)
    return buffer.add text
  else return buffer

/-- `operator<<(const void*)` -/
def insertPointer (buffer : Buffer) (v : UInt64) : Except Fault Buffer :=
  if buffer.avail ≥ kMaxNumericSize then do
    let text := ['0', 'x'] ++ convertHex v.toNat
    buffer.store (text.length + 1)
    return buffer.add text
  else return buffer

/-- `operator<<(double)`: `text` is what "%.12g" gives, `snprintf` cuts it. -/
def insertDouble (buffer : Buffer) (text : Text) : Except Fault Buffer :=
  if buffer.avail ≥ kMaxNumericSize then do
    buffer.store ((snprintf 32 text).length + 1)
    if text.length < 32 then return buffer.add text else .error .unwritten
  else return buffer

def insertPiece (buffer : Buffer) (v : Piece) : Except Fault Buffer :=
  buffer.append v.data (FixedBuffer.sizeT v.size)

variable {Double : Type} (format : Double → Text)

/-- `operator<<`; a `short` becomes an `int` and a `float` a `double` first. -/
def insert (buffer : Buffer) : Insertion Double → Except Fault Buffer
  | .bool v => buffer.append (if v then ['1'] else ['0']) 1
  | .char v => buffer.append [v] 1
  | .cString (some str) => buffer.append str str.length
  | .cString none => buffer.append "(null)".toList 6
  | .string v => buffer.append v v.length
  | .piece v => insertPiece buffer v
  | .buffer v => buffer.append v.buffer.content (FixedBuffer.sizeT v.buffer.length)
  | .integer v => formatInteger buffer v.value
  | .pointer v => insertPointer buffer v
  | .double v => insertDouble buffer (format v)
  | .append v => insertPiece buffer v

inductive Action (Double : Type) where
  | insert (x : Insertion Double)
  | resetBuffer
  | debugString

def logStream : Machine Buffer (Action Double) Fault where
  enabled _ _ := true
  step buffer
    | .insert x => insert format buffer x
    | .resetBuffer => .ok buffer.reset
    | .debugString => buffer.debugString

/-! ## What is accepted -/

/-- The complete text of a value. -/
def Insertion.text : Insertion Double → Text
  | .bool v => if v then ['1'] else ['0']
  | .char v => [v]
  | .cString (some str) => str
  | .cString none => "(null)".toList
  | .string v => v
  | .piece v => v.data.take v.size.toNat
  | .buffer v => v.buffer.content
  | .integer v => signed v.value
  | .pointer v => ['0', 'x'] ++ upperHex v.toNat
  | .double v => format v
  | .append v => v.data.take v.size.toNat

@[simp] theorem Insertion.text_char (v : Char) :
    (.char v : Insertion Double).text format = [v] := rfl

@[simp] theorem Insertion.text_cString (str : Option Text) :
    (.cString str : Insertion Double).text format = str.getD "(null)".toList := by
  cases str <;> rfl

@[simp] theorem Insertion.text_string (v : Text) :
    (.string v : Insertion Double).text format = v := rfl

@[simp] theorem Insertion.text_integer (v : Integer) :
    (.integer v : Insertion Double).text format = signed v.value := rfl

@[simp] theorem Insertion.text_append (v : Piece) :
    (.append v : Insertion Double).text format = v.data.take v.size.toNat := rfl

/-- The test of an insertion into a buffer with `free` bytes: numbers and pointers need 32, a text
of `n` bytes more than `n`, and a negative length is never accepted. -/
def Insertion.Accepted (free : Int) : Insertion Double → Prop
  | .integer _ | .pointer _ | .double _ => 32 ≤ free
  | .piece v | .append v => 0 ≤ v.size ∧ v.size < free
  | x => (x.text format).length < free

instance (free : Int) (x : Insertion Double) : Decidable (x.Accepted format free) :=
  match x with
  | .integer _ | .pointer _ | .double _ => inferInstanceAs (Decidable (32 ≤ free))
  | .piece v | .append v => inferInstanceAs (Decidable (0 ≤ v.size ∧ v.size < free))
  | .bool _ | .char _ | .cString (some _) | .cString none | .string _ | .buffer _ =>
    inferInstanceAs (Decidable ((_ : Int) < free))

/-- The buffer as it is meant: the texts accepted since the last reset. -/
def accept (texts : List Text) : Action Double → List Text
  | .insert x =>
    if x.Accepted format (kSmallBuffer - (texts.flatten.length : Int)) then texts ++ [x.text format]
    else texts
  | .resetBuffer => []
  | .debugString => texts

def accepted (actions : List (Action Double)) : List Text := actions.foldl (accept format) []

/-! ## Lemmas -/

/-- There is always room for a NUL. -/
def FixedBuffer.Open {SIZE : Nat} (buffer : FixedBuffer SIZE) : Prop :=
  buffer.content.length < SIZE

theorem FixedBuffer.sizeT_of_nonneg {n : Int} (h0 : 0 ≤ n) (h1 : n < 2 ^ 64) :
    FixedBuffer.sizeT n = n.toNat := by
  rw [FixedBuffer.sizeT, Int.emod_eq_of_lt h0 h1]

theorem FixedBuffer.append_eq {SIZE : Nat} {buffer : FixedBuffer SIZE} (h : buffer.Open)
    (hsize : SIZE < 2 ^ 64) (buf : Text) (len : Nat) :
    buffer.append buf len =
      .ok (if (len : Int) < buffer.avail then buffer.add (buf.take len) else buffer) := by
  unfold FixedBuffer.Open at h
  have havail : FixedBuffer.sizeT buffer.avail = SIZE - buffer.content.length := by
    rw [FixedBuffer.sizeT_of_nonneg]
    all_goals
      simp only [FixedBuffer.avail, FixedBuffer.length]
      omega
  have htest : FixedBuffer.sizeT buffer.avail > len ↔ (len : Int) < buffer.avail := by
    rw [havail]
    simp only [FixedBuffer.avail, FixedBuffer.length]
    omega
  unfold FixedBuffer.append
  by_cases hlen : (len : Int) < buffer.avail
  · have hroom : buffer.content.length + len ≤ SIZE := by
      rw [← htest, havail] at hlen
      omega
    rw [if_pos (htest.2 hlen), if_pos hlen, FixedBuffer.store, if_pos hroom]
    rfl
  · rw [if_neg (fun hgt => hlen (htest.1 hgt)), if_neg hlen]
    rfl

variable {format} {buffer : Buffer}

theorem append_eq (h : buffer.Open) (text : Text) :
    buffer.append text text.length =
      .ok (if (text.length : Int) < buffer.avail then buffer.add text else buffer) := by
  rw [FixedBuffer.append_eq h (by decide), List.take_length]

/-- A number with its NUL fits into the 32 bytes that were tested for. -/
theorem number_eq {text : Text} (hlen : text.length < 32) :
    (if buffer.avail ≥ kMaxNumericSize then do
      buffer.store (text.length + 1)
      return buffer.add text
    else return buffer : Except Fault Buffer) =
      .ok (if 32 ≤ buffer.avail then buffer.add text else buffer) := by
  by_cases hroom : 32 ≤ buffer.avail
  · have hstore : buffer.store (text.length + 1) = .ok () := by
      simp only [FixedBuffer.avail, FixedBuffer.length] at hroom
      exact if_pos (by omega)
    rw [if_pos (show buffer.avail ≥ kMaxNumericSize from hroom), if_pos hroom, hstore]
    rfl
  · rw [if_neg (show ¬ buffer.avail ≥ kMaxNumericSize from hroom), if_neg hroom]
    rfl

theorem Integer.length_le (v : Integer) : (signed v.value).length ≤ 20 := by
  obtain ⟨type, value, low, high⟩ := v
  have hlow : -2 ^ 63 ≤ type.bounds.1 := by cases type <;> decide
  have hhigh : type.bounds.2 ≤ 2 ^ 64 - 1 := by cases type <;> decide
  refine (length_signed_le_iff (by decide)).2 ?_
  dsimp only
  omega

theorem Integer.length_lt (v : Integer) : (signed v.value).length < 31 :=
  Nat.lt_of_le_of_lt v.length_le (by decide)

theorem pointer_length_lt (v : UInt64) : (['0', 'x'] ++ upperHex v.toNat).length < 31 := by
  have := length_upperHex_le (n := v.toNat) (k := 16) (by decide) v.toNat_lt
  simp only [List.length_append, List.length_cons, List.length_nil]
  omega

theorem insertPiece_eq (h : buffer.Open) (v : Piece) :
    insertPiece buffer v = .ok (if 0 ≤ v.size ∧ v.size < buffer.avail
      then buffer.add (v.data.take v.size.toNat) else buffer) := by
  obtain ⟨hlow, hhigh⟩ := v.fits
  have hle : buffer.avail ≤ 4000 := by
    simp only [FixedBuffer.avail, FixedBuffer.length, kSmallBuffer]
    omega
  rw [insertPiece, FixedBuffer.append_eq h (by decide)]
  generalize v.size = size at *
  by_cases hsize : 0 ≤ size
  · rw [FixedBuffer.sizeT_of_nonneg hsize (by omega), Int.toNat_of_nonneg hsize]
    simp only [hsize, true_and]
  · -- as a `size_t` the length is at least 2 ^ 63
    have hbig : ¬ ((FixedBuffer.sizeT size : Nat) : Int) < buffer.avail := by
      unfold FixedBuffer.sizeT
      omega
    rw [if_neg hbig, if_neg (fun hboth => hsize hboth.1)]

theorem insert_eq (hformat : ∀ v, (format v).length < 32) (h : buffer.Open)
    (x : Insertion Double) :
    insert format buffer x =
      .ok (if x.Accepted format buffer.avail then buffer.add (x.text format) else buffer) := by
  cases x with
  | bool v =>
    cases v with
    | false => exact append_eq h ['0']
    | true => exact append_eq h ['1']
  | char v => exact append_eq h [v]
  | cString str =>
    cases str with
    | none => exact append_eq h "(null)".toList
    | some str => exact append_eq h str
  | string v => exact append_eq h v
  | piece v => exact insertPiece_eq h v
  | append v => exact insertPiece_eq h v
  | buffer v =>
    have hsize : FixedBuffer.sizeT v.buffer.length = v.buffer.content.length := by
      have := v.length_lt
      unfold kSmallBuffer at this
      rw [FixedBuffer.length, FixedBuffer.sizeT_of_nonneg (by omega) (by omega)]
      rfl
    rw [insert, hsize]
    exact append_eq h v.buffer.content
  | integer v =>
    rw [insert, formatInteger, convert_eq]
    exact number_eq (Nat.lt_succ_of_lt v.length_lt)
  | pointer v =>
    rw [insert, insertPointer, convertHex_eq]
    exact number_eq (Nat.lt_succ_of_lt (pointer_length_lt v))
  | double v =>
    have hlen := hformat v
    rw [insert, insertDouble, snprintf_of_fits hlen, if_pos hlen]
    exact number_eq hlen

/-- Both tests leave room for a NUL. -/
theorem Insertion.length_lt_of_accepted (hformat : ∀ v, (format v).length < 32)
    {x : Insertion Double} {free : Int} (h : x.Accepted format free) :
    ((x.text format).length : Int) < free := by
  cases x with
  | bool v => exact h
  | char v => exact h
  | cString str =>
    cases str with
    | none => exact h
    | some str => exact h
  | string v => exact h
  | buffer v => exact h
  | piece v | append v =>
    obtain ⟨hlow, hhigh⟩ := h
    show ((v.data.take v.size.toNat).length : Int) < free
    rw [List.length_take]
    omega
  | integer v =>
    have hroom : 32 ≤ free := h
    have := v.length_lt
    show ((signed v.value).length : Int) < free
    omega
  | pointer v =>
    have hroom : 32 ≤ free := h
    have := pointer_length_lt v
    show ((['0', 'x'] ++ upperHex v.toNat).length : Int) < free
    omega
  | double v =>
    have hroom : 32 ≤ free := h
    have := hformat v
    show ((format v).length : Int) < free
    omega

/-- The buffer that holds `texts`. -/
def bufferOf (texts : List Text) : Buffer := ⟨texts.flatten⟩

theorem bufferOf_nil_open : (bufferOf []).Open := Nat.succ_pos 3999

theorem bufferOf_concat (texts : List Text) (text : Text) :
    bufferOf (texts ++ [text]) = (bufferOf texts).add text := by
  simp [bufferOf, FixedBuffer.add]

theorem logStream_step (hformat : ∀ v, (format v).length < 32) {texts : List Text}
    (h : (bufferOf texts).Open) (action : Action Double) :
    (logStream format).step (bufferOf texts) action = .ok (bufferOf (accept format texts action)) ∧
      (bufferOf (accept format texts action)).Open := by
  cases action with
  | insert x =>
    have hinsert := insert_eq hformat h x
    have havail : (bufferOf texts).avail = kSmallBuffer - (texts.flatten.length : Int) := rfl
    rw [havail] at hinsert
    simp only [accept]
    by_cases haccept : x.Accepted format (kSmallBuffer - (texts.flatten.length : Int))
    · rw [if_pos haccept] at hinsert ⊢
      rw [bufferOf_concat]
      refine ⟨hinsert, ?_⟩
      have := Insertion.length_lt_of_accepted hformat haccept
      simp only [FixedBuffer.Open, FixedBuffer.add, bufferOf, List.length_append]
      omega
    · rw [if_neg haccept] at hinsert ⊢
      exact ⟨hinsert, h⟩
  | resetBuffer => exact ⟨rfl, bufferOf_nil_open⟩
  | debugString =>
    have hstore : (bufferOf texts).store 1 = .ok () := if_pos h
    refine ⟨?_, h⟩
    simp only [logStream, FixedBuffer.debugString, hstore]
    rfl

theorem logStream_run (hformat : ∀ v, (format v).length < 32) {texts : List Text}
    (h : (bufferOf texts).Open) (actions : List (Action Double)) :
    (logStream format).run (bufferOf texts) actions =
        some (bufferOf (actions.foldl (accept format) texts)) ∧
      (bufferOf (actions.foldl (accept format) texts)).Open := by
  induction actions generalizing texts with
  | nil => exact ⟨rfl, h⟩
  | cons action actions ih =>
    obtain ⟨hstep, hopen⟩ := logStream_step hformat h action
    obtain ⟨hrun, hend⟩ := ih hopen
    exact ⟨((logStream format).run_cons_iff _ _ _ _).2 ⟨rfl, _, hstep, hrun⟩, hend⟩

/-- After every sequence of insertions and resets, without a fault: the content is that of the
accepted texts, and the next insertion appends its complete text exactly if its test holds. -/
theorem logStream_accepted (hformat : ∀ v, (format v).length < 32)
    (actions : List (Action Double)) :
    ∃ buffer, (logStream format).run .init actions = some buffer ∧
      buffer.length ≤ 3999 ∧ 0 < buffer.avail ∧
      buffer.content = (accepted format actions).flatten ∧
      (∃ buffer', buffer.debugString = .ok buffer' ∧ buffer' = buffer) ∧
      ∀ x, ∃ buffer', insert format buffer x = .ok buffer' ∧
        (x.Accepted format buffer.avail → buffer'.content = buffer.content ++ x.text format) ∧
        (¬ x.Accepted format buffer.avail → buffer' = buffer) := by
  obtain ⟨hrun, hopen⟩ := logStream_run hformat bufferOf_nil_open actions
  refine ⟨_, hrun, ?_, ?_, rfl, ⟨_, (logStream_step hformat hopen .debugString).1, rfl⟩,
    fun x => ⟨_, insert_eq hformat hopen x, fun haccept => ?_, fun hreject => ?_⟩⟩
  · simp only [FixedBuffer.Open, kSmallBuffer] at hopen
    simp only [FixedBuffer.length]
    omega
  · simp only [FixedBuffer.Open] at hopen
    simp only [FixedBuffer.avail, FixedBuffer.length]
    omega
  · rw [if_pos haccept]
    rfl
  · rw [if_neg hreject]

/-- "%.12g" of a small whole number. -/
def formatSmall (v : UInt8) : Text := decimal v.toNat

theorem formatSmall_length (v : UInt8) : (formatSmall v).length < 32 := by
  have hlt : v.toNat < 10 ^ 3 := Nat.lt_trans v.toNat_lt (by decide)
  have := (length_decimal_le_iff (by decide)).2 hlt
  exact Nat.lt_of_le_of_lt this (by decide)

theorem formatSmall_accepted :
    (∀ v, (formatSmall v).length < 32) ∧
      ∃ buffer, (logStream formatSmall).run .init
          [.insert (.char 'a'), .resetBuffer, .insert (.double 5), .insert (.cString none)] =
          some buffer ∧
        buffer.content = "5(null)".toList ∧ 0 < buffer.avail := by
  obtain ⟨buffer, hrun, -, havail, hcontent, -⟩ := logStream_accepted formatSmall_length
    [.insert (.char 'a'), .resetBuffer, .insert (.double 5), .insert (.cString none)]
  refine ⟨formatSmall_length, buffer, hrun, ?_, havail⟩
  rw [hcontent]
  decide

end LogStream

end Rawmd
