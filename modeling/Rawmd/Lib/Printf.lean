import Mathlib.Data.List.Basic
import Mathlib.Tactic.Positivity

/-!
# Decimal text and bounded buffers

`Text` is a string without its terminating NUL, `decimal` what `%u` prints, and `snprintf size`
what is left of a text that is printed into a buffer of `size` bytes.  `padded w` and `zeroPadded w`
are what `%wd` and `%0wd` print.

    decimal is injective, and n has at most k digits iff n < 10 ^ k
    the first k digits of 10 ^ k are those of 10 ^ (k - 1)             (take_decimal_pow)
    zeros w is injective, and w digits are enough iff n < 10 ^ w
-/

abbrev Text := List Char

namespace Printf

def nul : Char := '\x00'

def decimal (n : Nat) : Text := Nat.toDigits 10 n

/-- The digits with zeros in front, up to `w` of them. -/
def zeros (w n : Nat) : Text := List.replicate (w - (decimal n).length) '0' ++ decimal n

/-- `%d` -/
def signed (n : Int) : Text := if n < 0 then '-' :: decimal n.natAbs else decimal n.natAbs

/-- `%wd`: blanks in front of the sign. -/
def padded (w : Nat) (n : Int) : Text := List.replicate (w - (signed n).length) ' ' ++ signed n

/-- `%0wd`: zeros behind the sign. -/
def zeroPadded (w : Nat) (n : Int) : Text :=
  if n < 0 then '-' :: zeros (w - 1) n.natAbs else zeros w n.natAbs

/-- `%lX` -/
def upperHex (n : Nat) : Text := (Nat.toDigits 16 n).map Char.toUpper

/-- The text is cut so that it fits with its NUL. -/
def snprintf (size : Nat) (text : Text) : Text := text.take (size - 1)

theorem decimal_inj {m n : Nat} (h : decimal m = decimal n) : m = n := by
  have := congrArg (fun digits => Nat.ofDigitChars 10 digits 0) h
  simpa only [decimal, Nat.ofDigitChars_ten_toDigits] using this

theorem length_decimal_pos (n : Nat) : 0 < (decimal n).length :=
  Nat.length_toDigits_pos

/-- Only 0 starts with a zero. -/
theorem toDigits_zero_cons {b n : Nat} (hb : 1 < b) {t : Text}
    (h : Nat.toDigits b n = '0' :: t) : n = 0 := by
  induction n using Nat.strong_induction_on generalizing t with
  | _ n ih =>
    by_cases hlt : n < b
    · rw [Nat.toDigits_of_lt_base hlt] at h
      exact Nat.digitChar_eq_zero.1 (List.head_eq_of_cons_eq h)
    · rw [Nat.toDigits_of_base_le hb (by omega)] at h
      have hdiv : n / b < n := Nat.div_lt_self (by omega) hb
      have hpos : 0 < n / b := Nat.div_pos (by omega) (by omega)
      cases hd : Nat.toDigits b (n / b) with
      | nil => exact absurd hd Nat.toDigits_ne_nil
      | cons c u =>
        rw [hd, List.cons_append] at h
        have hc : c = '0' := List.head_eq_of_cons_eq h
        have := ih (n / b) hdiv (hc ▸ hd)
        omega

theorem decimal_zero_cons {n : Nat} {t : Text} (h : decimal n = '0' :: t) : t = [] := by
  obtain rfl := toDigits_zero_cons (by decide) h
  exact (List.tail_eq_of_cons_eq h).symm

theorem length_decimal_le_iff {n k : Nat} (hk : 0 < k) : (decimal n).length ≤ k ↔ n < 10 ^ k :=
  Nat.length_toDigits_le_iff (by decide) hk

theorem length_decimal_pow {k : Nat} (hk : 0 < k) : (decimal (10 ^ k)).length = k + 1 := by
  have hle : (decimal (10 ^ k)).length ≤ k + 1 :=
    (length_decimal_le_iff (by omega)).2 (Nat.pow_lt_pow_right (by decide) (by omega))
  have hgt : ¬ (decimal (10 ^ k)).length ≤ k := by
    rw [length_decimal_le_iff hk]
    exact Nat.lt_irrefl _
  omega

theorem take_decimal_pow {k : Nat} (hk : 1 < k) :
    (decimal (10 ^ k)).take k = decimal (10 ^ (k - 1)) := by
  obtain ⟨j, rfl⟩ : ∃ j, k = j + 1 := ⟨k - 1, by omega⟩
  have hlen := length_decimal_pow (k := j) (by omega)
  have hsplit : decimal (10 ^ (j + 1)) = decimal (10 ^ j) ++ [Nat.digitChar 0] := by
    unfold decimal
    rw [Nat.toDigits_of_base_le (by decide) (Nat.le_self_pow (by omega) 10), Nat.pow_succ,
      Nat.mul_div_cancel _ (by decide), Nat.mul_mod_left]
  rw [hsplit, List.take_append_of_le_length (by omega), Nat.add_sub_cancel,
    List.take_of_length_le (by omega)]

theorem length_signed_le {n : Int} {k : Nat} (h : n.natAbs < 10 ^ (k + 1)) :
    (signed n).length ≤ k + 2 := by
  have hlen := (length_decimal_le_iff (Nat.succ_pos k)).2 h
  unfold signed
  split
  · rw [List.length_cons]
    omega
  · omega

theorem length_upperHex_le {n k : Nat} (hk : 0 < k) (h : n < 16 ^ k) :
    (upperHex n).length ≤ k := by
  rw [upperHex, List.length_map]
  exact (Nat.length_toDigits_le_iff (by decide) hk).2 h

theorem snprintf_of_fits {size : Nat} {text : Text} (h : text.length < size) :
    snprintf size text = text :=
  List.take_of_length_le (by omega)

/-! ## Padding -/

theorem length_zeros (w n : Nat) : (zeros w n).length = max w (decimal n).length := by
  rw [zeros, List.length_append, List.length_replicate]
  omega

theorem length_zeros_eq_iff {w n : Nat} (hw : 0 < w) : (zeros w n).length = w ↔ n < 10 ^ w := by
  rw [length_zeros, ← length_decimal_le_iff hw]
  omega

theorem zeros_inj {w m n : Nat} (h : zeros w m = zeros w n) : m = n := by
  have hval : ∀ k, Nat.ofDigitChars 10 (zeros w k) 0 = k := by
    intro k
    rw [zeros, Nat.ofDigitChars_append, Nat.ofDigitChars_replicate_zero, Nat.mul_zero]
    exact Nat.ofDigitChars_ten_toDigits
  rw [← hval m, h, hval n]

/-- A minus sign takes the place of a digit. -/
theorem length_zeroPadded_eq_iff {w : Nat} {n : Int} (hw : 1 < w) :
    (zeroPadded w n).length = w ↔ -10 ^ (w - 1) < n ∧ n < 10 ^ w := by
  have hpos : (0 : Int) < 10 ^ w := by positivity
  have hpos' : (0 : Int) < 10 ^ (w - 1) := by positivity
  have habs : ∀ k : Nat, n.natAbs < 10 ^ k ↔ (n.natAbs : Int) < 10 ^ k := by
    intro k
    exact_mod_cast Iff.rfl
  by_cases hn : n < 0
  · have hlen : (zeros (w - 1) n.natAbs).length + 1 = w ↔
        (zeros (w - 1) n.natAbs).length = w - 1 := by omega
    rw [zeroPadded, if_pos hn, List.length_cons, hlen, length_zeros_eq_iff (by omega), habs]
    omega
  · rw [zeroPadded, if_neg hn, length_zeros_eq_iff (by omega), habs]
    omega

theorem length_signed_le_iff {w : Nat} {n : Int} (hw : 1 < w) :
    (signed n).length ≤ w ↔ -10 ^ (w - 1) < n ∧ n < 10 ^ w := by
  have hpos : (0 : Int) < 10 ^ w := by positivity
  have hpos' : (0 : Int) < 10 ^ (w - 1) := by positivity
  have habs : ∀ k : Nat, n.natAbs < 10 ^ k ↔ (n.natAbs : Int) < 10 ^ k := by
    intro k
    exact_mod_cast Iff.rfl
  by_cases hn : n < 0
  · have hlen : (decimal n.natAbs).length + 1 ≤ w ↔ (decimal n.natAbs).length ≤ w - 1 := by omega
    rw [signed, if_pos hn, List.length_cons, hlen, length_decimal_le_iff (by omega), habs]
    omega
  · rw [signed, if_neg hn, length_decimal_le_iff (by omega), habs]
    omega

theorem length_padded (w : Nat) (n : Int) : (padded w n).length = max w (signed n).length := by
  rw [padded, List.length_append, List.length_replicate]
  omega

theorem length_padded_eq_iff {w : Nat} {n : Int} (hw : 1 < w) :
    (padded w n).length = w ↔ -10 ^ (w - 1) < n ∧ n < 10 ^ w := by
  rw [length_padded, ← length_signed_le_iff hw]
  omega

theorem length_two {n : Int} (h : 0 ≤ n ∧ n < 100) : (zeroPadded 2 n).length = 2 :=
  (length_zeroPadded_eq_iff (by decide)).2 ⟨by omega, by omega⟩

/-- A number of `w + 1` digits is printed without blanks. -/
theorem padded_eq_decimal {w : Nat} {n : Int} (h0 : 10 ^ w ≤ n) (h1 : n < 10 ^ (w + 1)) :
    padded (w + 1) n = decimal n.natAbs ∧ (decimal n.natAbs).length = w + 1 := by
  have hpos : (0 : Int) < 10 ^ w := by positivity
  obtain ⟨k, rfl⟩ := Int.eq_ofNat_of_zero_le (a := n) (by omega)
  have hle : (decimal k).length ≤ w + 1 :=
    (length_decimal_le_iff (by omega)).2 (by exact_mod_cast h1)
  have hlt : ¬ (0 < w ∧ (decimal k).length ≤ w) := by
    rintro ⟨hw, hlen⟩
    have : (k : Int) < 10 ^ w := by exact_mod_cast (length_decimal_le_iff hw).1 hlen
    omega
  have hlen : (decimal k).length = w + 1 := by
    have := length_decimal_pos k
    omega
  refine ⟨?_, hlen⟩
  rw [padded, signed, if_neg (by omega), Int.natAbs_natCast, hlen, Nat.sub_self,
    List.replicate_zero, List.nil_append]

/-! ## Characters -/

theorem not_mem_decimal {c : Char} (h : c.isDigit = false) (n : Nat) : c ∉ decimal n := by
  intro hc
  have := Nat.isDigit_of_mem_toDigits (by decide) (by decide) hc
  rw [h] at this
  cases this

theorem not_mem_signed {c : Char} (h : c.isDigit = false) (hminus : c ≠ '-') (n : Int) :
    c ∉ signed n := by
  have hdigits := not_mem_decimal h n.natAbs
  unfold signed
  split
  · simp [hminus, hdigits]
  · exact hdigits

theorem not_mem_padded {c : Char} (h : c.isDigit = false) (hminus : c ≠ '-') (hblank : c ≠ ' ')
    (w : Nat) (n : Int) : c ∉ padded w n := by
  simp [padded, not_mem_signed h hminus n, hblank]

theorem not_mem_zeros {c : Char} (h : c.isDigit = false) (w n : Nat) : c ∉ zeros w n := by
  have hzero : c ≠ '0' := by
    rintro rfl
    cases h
  simp [zeros, not_mem_decimal h n, hzero]

theorem not_mem_zeroPadded {c : Char} (h : c.isDigit = false) (hminus : c ≠ '-')
    (w : Nat) (n : Int) : c ∉ zeroPadded w n := by
  unfold zeroPadded
  split
  · simp [hminus, not_mem_zeros h (w - 1) n.natAbs]
  · exact not_mem_zeros h w n.natAbs

/-- The sign and the digits determine the number, with and without zeros in front. -/
theorem sign_digits_inj {d : Bool → Nat → Text} (hminus : ∀ b k, '-' ∉ d b k)
    (hinj : ∀ b k l, d b k = d b l → k = l) {m n : Int}
    (h : (if m < 0 then '-' :: d true m.natAbs else d false m.natAbs) =
      if n < 0 then '-' :: d true n.natAbs else d false n.natAbs) : m = n := by
  by_cases hm : m < 0
  · by_cases hn : n < 0
    · rw [if_pos hm, if_pos hn] at h
      have := hinj true _ _ (List.tail_eq_of_cons_eq h)
      omega
    · rw [if_pos hm, if_neg hn] at h
      exact absurd (h ▸ List.mem_cons_self) (hminus false n.natAbs)
  · by_cases hn : n < 0
    · rw [if_neg hm, if_pos hn] at h
      exact absurd (h ▸ List.mem_cons_self) (hminus false m.natAbs)
    · rw [if_neg hm, if_neg hn] at h
      have := hinj false _ _ h
      omega

theorem signed_inj {m n : Int} (h : signed m = signed n) : m = n :=
  sign_digits_inj (d := fun _ => decimal) (fun _ => not_mem_decimal (by decide))
    (fun _ _ _ => decimal_inj) h

theorem zeroPadded_inj {w : Nat} {m n : Int} (h : zeroPadded w m = zeroPadded w n) : m = n :=
  sign_digits_inj (d := fun b => zeros (if b then w - 1 else w))
    (fun _ => not_mem_zeros (by decide) _) (fun _ _ _ => zeros_inj) h

theorem two_append_inj {m n : Int} {s t : Text} (hm : 0 ≤ m ∧ m < 100) (hn : 0 ≤ n ∧ n < 100)
    (h : zeroPadded 2 m ++ s = zeroPadded 2 n ++ t) : m = n ∧ s = t := by
  obtain ⟨htwo, hrest⟩ := List.append_inj h (by rw [length_two hm, length_two hn])
  exact ⟨zeroPadded_inj htwo, hrest⟩

/-- Two texts are split at the first `c`. -/
theorem append_cons_inj {c : Char} {x y s t : Text} (hx : c ∉ x) (hy : c ∉ y)
    (h : x ++ c :: s = y ++ c :: t) : x = y ∧ s = t := by
  induction x generalizing y with
  | nil =>
    cases y with
    | nil => exact ⟨rfl, List.tail_eq_of_cons_eq h⟩
    | cons b y =>
      have hhead : c = b := List.head_eq_of_cons_eq h
      exact absurd List.mem_cons_self (hhead ▸ hy)
  | cons a x ih =>
    cases y with
    | nil =>
      have hhead : a = c := List.head_eq_of_cons_eq h
      exact absurd List.mem_cons_self (hhead ▸ hx)
    | cons b y =>
      obtain rfl : a = b := List.head_eq_of_cons_eq h
      obtain ⟨rfl, hst⟩ := ih (List.not_mem_of_not_mem_cons hx) (List.not_mem_of_not_mem_cons hy)
        (List.tail_eq_of_cons_eq h)
      exact ⟨rfl, hst⟩

end Printf
