import Rawmd.Lib.Printf
import Mathlib.Data.Char

/-!
# The order of texts

Texts are compared character by character, from the left.  Numbers that are printed with the same
number of digits are in the order of their texts; so are texts made of such numbers, which are
compared field by field.

    m < n → as long as each other → decimal m < decimal n               (decimal_lt)
    x < y → as long as each other → x ++ s < y ++ t                     (append_lt_append)
-/

namespace Printf

/-! ## Parts of a text -/

/-- Where two texts have a part of the same length in front, a smaller part decides. -/
theorem append_lt_append {x y : Text} (hlen : x.length = y.length) (h : x < y) (s t : Text) :
    x ++ s < y ++ t := by
  induction x generalizing y with
  | nil =>
    cases y with
    | nil => exact absurd h (List.lt_irrefl _)
    | cons d y => cases hlen
  | cons c x ih =>
    cases y with
    | nil => cases hlen
    | cons d y =>
      rw [List.cons_append, List.cons_append]
      rcases List.cons_lt_cons_iff.1 h with hlt | ⟨rfl, hlt⟩
      · exact List.cons_lt_cons_iff.2 (.inl hlt)
      · exact List.cons_lt_cons_iff.2 (.inr ⟨rfl, ih (Nat.succ.inj hlen) hlt⟩)

/-- The same part in front does not. -/
theorem append_lt_append_left (x : Text) {s t : Text} (h : s < t) : x ++ s < x ++ t := by
  induction x with
  | nil => exact h
  | cons c x ih => exact List.cons_lt_cons_iff.2 (.inr ⟨rfl, ih⟩)

/-! ## Digits -/

theorem toNat_of_isDigit {c : Char} (h : c.isDigit = true) : 48 ≤ c.toNat ∧ c.toNat ≤ 57 := by
  unfold Char.isDigit at h
  rw [Bool.and_eq_true, decide_eq_true_iff, decide_eq_true_iff] at h
  exact h

theorem ofDigitChars_lt {x : Text} (h : ∀ c ∈ x, c.isDigit = true) :
    Nat.ofDigitChars 10 x 0 < 10 ^ x.length := by
  induction x with
  | nil => decide
  | cons c x ih =>
    rw [List.forall_mem_cons] at h
    have hx := ih h.2
    have hc := toNat_of_isDigit h.1
    have hzero : ('0' : Char).toNat = 48 := rfl
    rw [Nat.ofDigitChars_cons, Nat.ofDigitChars_eq_ofDigitChars_zero, List.length_cons, hzero,
      Nat.mul_zero, Nat.zero_add]
    have hmul : 10 ^ x.length * (c.toNat - 48) ≤ 10 ^ x.length * 9 :=
      Nat.mul_le_mul_left _ (by omega)
    rw [Nat.pow_succ]
    omega

/-- Digits of the same length are in the order of their values. -/
theorem lt_of_ofDigitChars_lt {x y : Text} (hx : ∀ c ∈ x, c.isDigit = true)
    (hy : ∀ c ∈ y, c.isDigit = true) (hlen : x.length = y.length)
    (h : Nat.ofDigitChars 10 x 0 < Nat.ofDigitChars 10 y 0) : x < y := by
  induction x generalizing y with
  | nil =>
    cases y with
    | nil => exact absurd h (Nat.lt_irrefl _)
    | cons d y => cases hlen
  | cons c x ih =>
    cases y with
    | nil => cases hlen
    | cons d y =>
      have hlen : x.length = y.length := Nat.succ.inj hlen
      rw [List.forall_mem_cons] at hx hy
      have hc := toNat_of_isDigit hx.1
      have hd := toNat_of_isDigit hy.1
      have hylt := ofDigitChars_lt hy.2
      have hzero : ('0' : Char).toNat = 48 := rfl
      rw [Nat.ofDigitChars_cons, Nat.ofDigitChars_cons, Nat.ofDigitChars_eq_ofDigitChars_zero,
        Nat.ofDigitChars_eq_ofDigitChars_zero (l := y), hlen, hzero, Nat.mul_zero, Nat.zero_add,
        Nat.zero_add] at h
      rcases Nat.lt_trichotomy c.toNat d.toNat with hlt | heq | hgt
      · exact List.cons_lt_cons_iff.2 (.inl hlt)
      · rw [heq] at h
        have hcd : c = d := Char.toNat_inj.1 heq
        exact List.cons_lt_cons_iff.2 (.inr ⟨hcd, ih hx.2 hy.2 hlen (by omega)⟩)
      · -- the first digit of `y` would be too small for the rest to make up for it
        have hmul : 10 ^ y.length * (d.toNat - 48 + 1) ≤ 10 ^ y.length * (c.toNat - 48) :=
          Nat.mul_le_mul_left _ (by omega)
        rw [Nat.mul_succ] at hmul
        omega

theorem isDigit_of_mem_decimal {n : Nat} {c : Char} (h : c ∈ decimal n) : c.isDigit = true :=
  Nat.isDigit_of_mem_toDigits (by decide) (by decide) h

theorem isDigit_of_mem_zeros {w n : Nat} {c : Char} (h : c ∈ zeros w n) : c.isDigit = true := by
  rcases List.mem_append.1 h with h | h
  · rw [List.eq_of_mem_replicate h]
    decide
  · exact isDigit_of_mem_decimal h

theorem decimal_lt {m n : Nat} (hlen : (decimal m).length = (decimal n).length) (h : m < n) :
    decimal m < decimal n := by
  refine lt_of_ofDigitChars_lt (fun _ => isDigit_of_mem_decimal) (fun _ => isDigit_of_mem_decimal)
    hlen ?_
  rw [decimal, decimal, Nat.ofDigitChars_ten_toDigits, Nat.ofDigitChars_ten_toDigits]
  exact h

theorem zeros_lt {w m n : Nat} (hlen : (zeros w m).length = (zeros w n).length) (h : m < n) :
    zeros w m < zeros w n := by
  have hvalue (n : Nat) : Nat.ofDigitChars 10 (zeros w n) 0 = n := by
    rw [zeros, Nat.ofDigitChars_append, Nat.ofDigitChars_replicate_zero, Nat.mul_zero, decimal,
      Nat.ofDigitChars_ten_toDigits]
  refine lt_of_ofDigitChars_lt (fun _ => isDigit_of_mem_zeros) (fun _ => isDigit_of_mem_zeros)
    hlen ?_
  rw [hvalue, hvalue]
  exact h

/-- Two digits, and what follows them. -/
theorem two_append_lt {m n : Int} (hm : 0 ≤ m) (hn : n < 100) {s t : Text}
    (h : m < n ∨ m = n ∧ s < t) : zeroPadded 2 m ++ s < zeroPadded 2 n ++ t := by
  rcases h with hlt | ⟨rfl, hlt⟩
  · have hlen : (zeroPadded 2 m).length = (zeroPadded 2 n).length := by
      rw [length_two (by omega), length_two (by omega)]
    refine append_lt_append hlen ?_ s t
    rw [zeroPadded, zeroPadded, if_neg (by omega), if_neg (by omega)] at hlen ⊢
    exact zeros_lt hlen (by omega)
  · exact append_lt_append_left _ hlt

end Printf
