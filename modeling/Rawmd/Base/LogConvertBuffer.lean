import Rawmd.Lib.Scan
import Rawmd.Base.LogStream

/-!
# `base/LogStream.cpp`: integers written into a buffer

`convertInto` and `convertHexInto` are `convert` and `convertHex` store by store: the digits from
the last one on, the sign, the NUL, and then `std::reverse` of what is in front of it.  They leave
the text of `LogConvert` in the buffer.

    convertInto buf value = .ok (convert value ++ nul :: what was behind, its length)
                                                                       (convertInto_eq)
-/

namespace Rawmd

open Printf

namespace LogStream

/-- `*p = c` -/
def storeAt (buf : Text) (p : Nat) (c : Char) : Except Fault Text :=
  if p < buf.length then .ok (buf.set p c) else .error .overrun

section

variable {α : Type} [DecidableEq α] (digit : α → Char) (next : α → α) (zero : α)

/-- `do { *p++ = digit(i); i = next(i); } while (i != 0);` -/
def storeDigits : Nat → Text → Nat → α → Except Fault (Text × Nat)
  | 0, buf, p, _ => .ok (buf, p)
  | fuel + 1, buf, p, i => do
    let buf ← storeAt buf p (digit i)
    if next i ≠ zero then storeDigits fuel buf (p + 1) (next i) else return (buf, p + 1)

/-- The digits that the loop stores. -/
def digitsFrom : Nat → α → Text
  | 0, _ => []
  | fuel + 1, i => digit i :: if next i ≠ zero then digitsFrom fuel (next i) else []

end

/-- `*p = '\0'; std::reverse(buf, p); return p - buf;` -/
def finishAt (buf : Text) (p : Nat) : Except Fault (Text × Nat) := do
  let buf ← storeAt buf p nul
  return ((buf.take p).reverse ++ buf.drop p, p)

/-- `convert`: the buffer and the length that is returned. -/
def convertInto (buf : Text) (value : Int) : Except Fault (Text × Nat) := do
  let (buf, p) ← storeDigits (fun i => zeroAt (i.tmod 10)) (fun i => i.tdiv 10) 0
    (value.natAbs + 1) buf 0 value
  if value < 0 then
    let buf ← storeAt buf p '-'
    finishAt buf (p + 1)
  else finishAt buf p

/-- `convertHex` -/
def convertHexInto (buf : Text) (value : Nat) : Except Fault (Text × Nat) := do
  let (buf, p) ← storeDigits (fun i => digitsHex.getD (i % 16) default) (fun i => i / 16) 0
    (value + 1) buf 0 value
  finishAt buf p

/-! ## What is in the buffer afterwards -/

theorem storeAt_append (pre post : Text) (x c : Char) :
    storeAt (pre ++ x :: post) pre.length c = .ok (pre ++ c :: post) := by
  rw [storeAt, if_pos (by simp)]
  simp

theorem finishAt_append (text post : Text) (x : Char) :
    finishAt (text ++ x :: post) text.length = .ok (text.reverse ++ nul :: post, text.length) := by
  rw [finishAt, storeAt_append]
  show Except.ok (_, _) = _
  rw [List.take_left' rfl, List.drop_left' rfl]

section

variable {α : Type} [DecidableEq α] {digit : α → Char} {next : α → α} {zero : α}

/-- By induction on the digits; what is in front of them and behind them stays. -/
theorem storeDigits_eq (fuel : Nat) (pre mid post : Text) (i : α)
    (hmid : mid.length = (digitsFrom digit next zero fuel i).length) :
    storeDigits digit next zero fuel (pre ++ (mid ++ post)) pre.length i =
      .ok (pre ++ (digitsFrom digit next zero fuel i ++ post), pre.length + mid.length) := by
  induction fuel generalizing pre mid i with
  | zero =>
    obtain rfl : mid = [] := List.eq_nil_of_length_eq_zero hmid
    rfl
  | succ fuel ih =>
    cases mid with
    | nil => simp [digitsFrom] at hmid
    | cons x mid =>
      rw [storeDigits, List.cons_append, storeAt_append]
      show (if next i ≠ zero then _ else _) = _
      simp only [digitsFrom] at hmid ⊢
      by_cases hnext : next i ≠ zero
      · rw [if_pos hnext, List.length_cons, List.length_cons, Nat.add_right_cancel_iff] at hmid
        have hstep := ih (pre ++ [digit i]) mid (next i) hmid
        rw [List.append_assoc, List.length_append, List.length_singleton] at hstep
        rw [if_pos hnext, if_pos hnext]
        rw [List.length_cons,
          show pre.length + (mid.length + 1) = pre.length + 1 + mid.length by omega]
        simpa using hstep
      · rw [if_neg hnext] at hmid
        obtain rfl : mid = [] := by simpa using hmid
        rw [if_neg hnext, if_neg hnext]
        rfl

/-- From the front of the buffer on. -/
theorem storeDigits_front {fuel : Nat} {mid post text : Text} {i : α}
    (htext : digitsFrom digit next zero fuel i = text) (hmid : mid.length = text.length) :
    storeDigits digit next zero fuel (mid ++ post) 0 i = .ok (text ++ post, text.length) := by
  subst htext
  have hstore := storeDigits_eq fuel [] mid post i hmid
  rw [List.nil_append, List.nil_append, List.length_nil, Nat.zero_add, hmid] at hstore
  exact hstore

end

theorem convertDigits_eq_digitsFrom (fuel : Nat) (i : Int) :
    digitsFrom (fun i => zeroAt (i.tmod 10)) (fun i => i.tdiv 10) 0 fuel i =
      convertDigits fuel i := by
  induction fuel generalizing i with
  | zero => rfl
  | succ fuel ih => rw [digitsFrom, convertDigits, ih]

theorem convertHexDigits_eq_digitsFrom (fuel i : Nat) :
    digitsFrom (fun i => digitsHex.getD (i % 16) default) (fun i => i / 16) 0 fuel i =
      convertHexDigits fuel i := by
  induction fuel generalizing i with
  | zero => rfl
  | succ fuel ih => rw [digitsFrom, convertHexDigits, ih]

/-- A buffer is split behind its first `n` bytes. -/
theorem exists_split {buf : Text} {n : Nat} (h : n < buf.length) :
    ∃ mid x post, buf = mid ++ x :: post ∧ mid.length = n ∧ post = buf.drop (n + 1) := by
  refine ⟨buf.take n, buf[n], buf.drop (n + 1), ?_, ?_, rfl⟩
  · rw [← List.drop_eq_getElem_cons h, List.take_append_drop]
  · rw [List.length_take]
    omega

theorem convertInto_eq {buf : Text} {value : Int} (h : (convert value).length < buf.length) :
    convertInto buf value =
      .ok (convert value ++ nul :: buf.drop ((convert value).length + 1),
        (convert value).length) := by
  have htext := convertDigits_eq_digitsFrom (value.natAbs + 1) value
  have hlen : (convert value).length = (convertDigits (value.natAbs + 1) value).length +
      if value < 0 then 1 else 0 := by
    unfold convert
    split <;> simp [*]
  obtain ⟨mid, x, post, hbuf, hmid, hpost⟩ := exists_split h
  rw [← hpost]
  unfold convertInto
  by_cases hneg : value < 0
  · -- the last of the bytes is the sign's
    rw [if_pos hneg] at hlen
    obtain ⟨mid, y, rfl⟩ : ∃ m y, mid = m ++ [y] := by
      refine ⟨mid.dropLast, mid.getLast ?_, (List.dropLast_append_getLast _).symm⟩
      rintro rfl
      rw [List.length_nil] at hmid
      omega
    rw [List.length_append, List.length_singleton, hlen, Nat.add_right_cancel_iff] at hmid
    rw [hbuf, List.append_assoc, List.singleton_append, storeDigits_front htext hmid]
    show (if value < 0 then _ else _) = _
    rw [if_pos hneg, storeAt_append]
    show finishAt _ _ = _
    have hfinish := finishAt_append (convertDigits (value.natAbs + 1) value ++ ['-']) post x
    rw [List.append_assoc, List.singleton_append, List.length_append, List.length_singleton]
      at hfinish
    rw [hfinish, hlen, convert, if_pos hneg]
  · rw [if_neg hneg, Nat.add_zero] at hlen
    rw [hbuf, storeDigits_front htext (hmid.trans hlen)]
    show (if value < 0 then _ else _) = _
    rw [if_neg hneg, finishAt_append, hlen, convert, if_neg hneg]

theorem convertHexInto_eq {buf : Text} {value : Nat} (h : (convertHex value).length < buf.length) :
    convertHexInto buf value =
      .ok (convertHex value ++ nul :: buf.drop ((convertHex value).length + 1),
        (convertHex value).length) := by
  have htext := convertHexDigits_eq_digitsFrom (value + 1) value
  have hlen : (convertHex value).length = (convertHexDigits (value + 1) value).length := by
    rw [convertHex, List.length_reverse]
  obtain ⟨mid, x, post, hbuf, hmid, hpost⟩ := exists_split h
  rw [← hpost, convertHexInto, hbuf, storeDigits_front htext (hmid.trans hlen)]
  show finishAt _ _ = _
  rw [finishAt_append, hlen, convertHex]

/-! ## Canonical texts -/

/-- `-` exactly in front of a negative value, then digits, with no zero in front of others. -/
structure CanonicalDecimal (text : Text) (value : Int) : Prop where
  minus : text.head? = some '-' ↔ value < 0
  digits : ∃ ds, (text = ds ∨ text = '-' :: ds) ∧ ds ≠ [] ∧ (∀ c ∈ ds, c.isDigit = true) ∧
    (ds.head? = some '0' → text = ['0'])
  zero : value = 0 → text = ['0']
  parses : Scan.scan text = value

/-- The value of upper-case hexadecimal digits. -/
def hexValue (text : Text) : Nat := text.foldl (fun n c => n * 16 + digitsHex.idxOf c) 0

structure CanonicalHex (text : Text) (value : Nat) : Prop where
  nonempty : text ≠ []
  digits : ∀ c ∈ text, c ∈ digitsHex
  no_zero : text.head? = some '0' → text = ['0']
  zero : value = 0 → text = ['0']
  parses : hexValue text = value

theorem canonicalDecimal_signed (value : Int) : CanonicalDecimal (signed value) value := by
  obtain ⟨c, t, hct, hc⟩ := Scan.decimal_eq_cons value.natAbs
  have hparses : Scan.scan ([] ++ signed value ++ []) = value :=
    Scan.scan_signed value (fun c hc => nomatch hc) (fun c hc => nomatch hc)
  rw [List.nil_append, List.append_nil] at hparses
  have hdigits : ∀ c ∈ decimal value.natAbs, c.isDigit = true := by
    intro c hc
    exact Nat.isDigit_of_mem_toDigits (by decide) (by decide) hc
  have hzero : (decimal value.natAbs).head? = some '0' → value = 0 := by
    intro h
    rw [hct, List.head?_cons, Option.some.injEq] at h
    have := toDigits_zero_cons (by decide) (h ▸ hct)
    omega
  have hne : decimal value.natAbs ≠ [] := Nat.toDigits_ne_nil
  refine ⟨?_, ⟨decimal value.natAbs, ?_, hne, hdigits, ?_⟩, ?_, hparses⟩
  · unfold signed
    split
    · next hneg => exact iff_of_true rfl hneg
    · next hneg =>
      refine iff_of_false ?_ hneg
      rw [hct, List.head?_cons, Option.some.injEq]
      exact (Scan.digit_cases hc).2.1
  · unfold signed
    split
    · exact .inr rfl
    · exact .inl rfl
  · intro h
    rw [hzero h]
    rfl
  · rintro rfl
    rfl

theorem hexDigit_all : ∀ d, d < 16 → (Nat.digitChar d).toUpper ∈ digitsHex ∧
    digitsHex.idxOf (Nat.digitChar d).toUpper = d := by
  decide

/-- One digit after the other, from the first one on. -/
theorem canonicalHex_upperHex (value : Nat) : CanonicalHex (upperHex value) value := by
  induction value using Nat.strong_induction_on with
  | _ value ih =>
    by_cases hlt : value < 16
    · have htext : upperHex value = [(Nat.digitChar value).toUpper] := by
        rw [upperHex, Nat.toDigits_of_lt_base hlt]
        rfl
      obtain ⟨hmem, hidx⟩ := hexDigit_all value hlt
      rw [htext]
      refine ⟨by simp, ?_, ?_, ?_, ?_⟩
      · intro c hc
        rw [List.mem_singleton.1 hc]
        exact hmem
      · intro h
        rw [List.head?_cons, Option.some.injEq] at h
        rw [h]
      · rintro rfl
        rfl
      · show 0 * 16 + digitsHex.idxOf _ = value
        rw [hidx]
        omega
    · have htext : upperHex value =
          upperHex (value / 16) ++ [(Nat.digitChar (value % 16)).toUpper] := by
        rw [upperHex, upperHex, Nat.toDigits_of_base_le (by decide) (by omega), List.map_append]
        rfl
      have hrest := ih (value / 16) (by omega)
      obtain ⟨hmem, hidx⟩ := hexDigit_all (value % 16) (by omega)
      have hvalue : hexValue (upperHex value) = value := by
        rw [htext, hexValue, List.foldl_append]
        show hexValue (upperHex (value / 16)) * 16 + digitsHex.idxOf _ = value
        rw [hrest.parses, hidx]
        omega
      rw [htext] at hvalue ⊢
      refine ⟨by simp, ?_, ?_, by omega, hvalue⟩
      · intro c hc
        rcases List.mem_append.1 hc with hc | hc
        · exact hrest.digits c hc
        · rw [List.mem_singleton.1 hc]
          exact hmem
      · intro h
        rw [List.head?_append_of_ne_nil _ hrest.nonempty] at h
        have hparses := hrest.parses
        rw [hrest.no_zero h] at hparses
        have : hexValue ['0'] = 0 := by decide
        omega

theorem formatInteger_eq {buffer : Buffer} (h : kMaxNumericSize ≤ buffer.avail) {value : Int}
    (hlen : (convert value).length < 32) :
    formatInteger buffer value = .ok (buffer.add (convert value)) := by
  calc formatInteger buffer value
      = .ok (if 32 ≤ buffer.avail then buffer.add (convert value) else buffer) := number_eq hlen
    _ = .ok (buffer.add (convert value)) := by rw [if_pos (show 32 ≤ buffer.avail from h)]

theorem insertPointer_eq {buffer : Buffer} (h : kMaxNumericSize ≤ buffer.avail) {p : UInt64}
    (hlen : (['0', 'x'] ++ convertHex p.toNat).length < 32) :
    insertPointer buffer p = .ok (buffer.add (['0', 'x'] ++ convertHex p.toNat)) := by
  calc insertPointer buffer p
      = .ok (if 32 ≤ buffer.avail then buffer.add (['0', 'x'] ++ convertHex p.toNat) else buffer) :=
        number_eq hlen
    _ = .ok (buffer.add (['0', 'x'] ++ convertHex p.toNat)) := by
        rw [if_pos (show 32 ≤ buffer.avail from h)]

/-- Every integer and every pointer: the buffer holds its canonical text and a NUL, in at most 21
and 17 bytes, and what is behind them is as it was.  With `0x` in front there is room for it in
the bytes that an insertion tests for. -/
theorem numbers_canonical (v : Integer) (p : UInt64) :
    (CanonicalDecimal (convert v.value) v.value ∧ (convert v.value).length + 1 ≤ 21 ∧
      (∀ buf, 21 ≤ buf.length → convertInto buf v.value =
        .ok (convert v.value ++ nul :: buf.drop ((convert v.value).length + 1),
          (convert v.value).length)) ∧
      ((convert v.value).length + 1 : Int) < kMaxNumericSize ∧
      ∀ buffer : Buffer, kMaxNumericSize ≤ buffer.avail →
        formatInteger buffer v.value = .ok (buffer.add (convert v.value))) ∧
    (CanonicalHex (convertHex p.toNat) p.toNat ∧ (convertHex p.toNat).length + 1 ≤ 17 ∧
      (∀ buf, 17 ≤ buf.length → convertHexInto buf p.toNat =
        .ok (convertHex p.toNat ++ nul :: buf.drop ((convertHex p.toNat).length + 1),
          (convertHex p.toNat).length)) ∧
      ((['0', 'x'] ++ convertHex p.toNat).length + 1 : Int) < kMaxNumericSize ∧
      ∀ buffer : Buffer, kMaxNumericSize ≤ buffer.avail →
        insertPointer buffer p = .ok (buffer.add (['0', 'x'] ++ convertHex p.toNat))) := by
  have hmax : kMaxNumericSize = 32 := rfl
  constructor
  · have hlen : (convert v.value).length ≤ 20 := by
      rw [convert_eq]
      exact v.length_le
    refine ⟨?_, by omega, ?_, by rw [hmax]; omega, ?_⟩
    · rw [convert_eq]
      exact canonicalDecimal_signed v.value
    · intro buf hbuf
      exact convertInto_eq (by omega)
    · intro buffer havail
      exact formatInteger_eq havail (by omega)
  · have hlen : (convertHex p.toNat).length ≤ 16 := by
      rw [convertHex_eq]
      exact length_upperHex_le (by decide) p.toNat_lt
    have hprefixed : (['0', 'x'] ++ convertHex p.toNat).length ≤ 18 := by
      rw [List.length_append]
      show 2 + _ ≤ 18
      omega
    refine ⟨?_, by omega, ?_, by rw [hmax]; omega, ?_⟩
    · rw [convertHex_eq]
      exact canonicalHex_upperHex p.toNat
    · intro buf hbuf
      exact convertHexInto_eq (by omega)
    · intro buffer havail
      exact insertPointer_eq havail (by omega)

/-- The most negative `long` fills the 21 bytes, the greatest pointer the 17. -/
theorem numbers_canonical_extreme :
    convertInto (List.replicate 21 'x') (-9223372036854775808) =
      .ok ("-9223372036854775808".toList ++ [nul], 20) ∧
    convertHexInto (List.replicate 17 'x') 18446744073709551615 =
      .ok ("FFFFFFFFFFFFFFFF".toList ++ [nul], 16) := by
  obtain ⟨⟨-, -, hbuf, -, -⟩, -, -, hhex, -, -⟩ :=
    numbers_canonical ⟨.long, -9223372036854775808, by decide, by decide⟩ 18446744073709551615
  have htext : convert (-9223372036854775808) = "-9223372036854775808".toList := by
    rw [convert_eq]
    decide
  have hhexText : convertHex 18446744073709551615 = "FFFFFFFFFFFFFFFF".toList := by
    rw [convertHex_eq]
    decide
  have hdecimal := hbuf (List.replicate 21 'x') (by decide)
  have hpointer := hhex (List.replicate 17 'x') (by decide)
  rw [show (18446744073709551615 : UInt64).toNat = 18446744073709551615 from rfl, hhexText]
    at hpointer
  rw [htext] at hdecimal
  exact ⟨hdecimal, hpointer⟩

end LogStream

end Rawmd
