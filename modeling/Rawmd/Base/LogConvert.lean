import Mathlib.Data.Int.Basic
import Mathlib.Tactic.IntervalCases
import Rawmd.Lib.Printf

/-!
# `base/LogStream.cpp`: integers as text

`convert` and `convertHex` write the digits from the last one on and then turn them around.  What
they write in front of the NUL is the value in decimal and in upper-case hexadecimal.

    convert value = signed value            (convert_eq)
    convertHex value = upperHex value       (convertHex_eq)
-/

namespace Rawmd

open Printf

namespace LogStream

def digits : Text :=
  ['9', '8', '7', '6', '5', '4', '3', '2', '1', '0', '1', '2', '3', '4', '5', '6', '7', '8', '9']

/-- `zero[lsd]`, where `zero` points to the middle of `digits`. -/
def zeroAt (lsd : Int) : Char := digits.getD (9 + lsd).toNat default

def digitsHex : Text :=
  ['0', '1', '2', '3', '4', '5', '6', '7', '8', '9', 'A', 'B', 'C', 'D', 'E', 'F']

/-- The `do` loop of `convert`; `%` and `/` of the source round to zero. -/
def convertDigits : Nat → Int → Text
  | 0, _ => []
  | fuel + 1, i =>
    let lsd := i.tmod 10
    let i := i.tdiv 10
    zeroAt lsd :: if i ≠ 0 then convertDigits fuel i else []

def convert (value : Int) : Text :=
  let buf := convertDigits (value.natAbs + 1) value
  let buf := if value < 0 then buf ++ ['-'] else buf
  buf.reverse

def convertHexDigits : Nat → Nat → Text
  | 0, _ => []
  | fuel + 1, i =>
    let lsd := i % 16
    let i := i / 16
    digitsHex.getD lsd default :: if i ≠ 0 then convertHexDigits fuel i else []

def convertHex (value : Nat) : Text := (convertHexDigits (value + 1) value).reverse

/-- The table is the same on both sides of `zero`. -/
theorem zeroAt_eq {lsd : Int} (h : lsd.natAbs < 10) : zeroAt lsd = Nat.digitChar lsd.natAbs := by
  have hlow : -9 ≤ lsd := by omega
  have hhigh : lsd ≤ 9 := by omega
  interval_cases lsd <;> rfl

theorem digitsHex_getD {lsd : Nat} (h : lsd < 16) :
    digitsHex.getD lsd default = (Nat.digitChar lsd).toUpper := by
  interval_cases lsd <;> rfl

theorem convertDigits_eq {fuel : Nat} {i : Int} (h : i.natAbs < fuel) :
    convertDigits fuel i = (decimal i.natAbs).reverse := by
  induction fuel generalizing i with
  | zero => omega
  | succ fuel ih =>
    have hlsd : (i.tmod 10).natAbs = i.natAbs % 10 := Int.natAbs_tmod i 10
    have hrest : (i.tdiv 10).natAbs = i.natAbs / 10 := Int.natAbs_tdiv i 10
    have hdigit : zeroAt (i.tmod 10) = Nat.digitChar (i.natAbs % 10) := by
      rw [zeroAt_eq (by omega), hlsd]
    simp only [convertDigits, hdigit]
    unfold decimal
    by_cases hlast : i.tdiv 10 = 0
    · rw [if_neg (by simpa using hlast)]
      have hsmall : i.natAbs < 10 := by omega
      rw [Nat.toDigits_of_lt_base hsmall, Nat.mod_eq_of_lt hsmall]
      rfl
    · rw [if_pos hlast, ih (by omega), hrest]
      have hbig : 10 ≤ i.natAbs := by omega
      rw [Nat.toDigits_of_base_le (by decide) hbig, List.reverse_append]
      rfl

theorem convert_eq (value : Int) : convert value = signed value := by
  unfold convert signed
  rw [convertDigits_eq (Nat.lt_succ_self _)]
  dsimp only
  split
  · rw [List.reverse_append, List.reverse_reverse]
    rfl
  · rw [List.reverse_reverse]

theorem convertHexDigits_eq {fuel i : Nat} (h : i < fuel) :
    convertHexDigits fuel i = (upperHex i).reverse := by
  induction fuel generalizing i with
  | zero => omega
  | succ fuel ih =>
    have hdigit := digitsHex_getD (Nat.mod_lt i (by decide : 0 < 16))
    simp only [convertHexDigits, hdigit]
    by_cases hlast : i / 16 = 0
    · have hsmall : i < 16 := by omega
      rw [if_neg (by simpa using hlast), upperHex, Nat.toDigits_of_lt_base hsmall,
        Nat.mod_eq_of_lt hsmall]
      rfl
    · have hbig : 16 ≤ i := by omega
      rw [if_pos hlast, ih (by omega), upperHex, upperHex, Nat.toDigits_of_base_le (by decide) hbig,
        List.map_append, List.reverse_append]
      rfl

theorem convertHex_eq (value : Nat) : convertHex value = upperHex value := by
  rw [convertHex, convertHexDigits_eq (Nat.lt_succ_self _), List.reverse_reverse]

example : convert (-9223372036854775808) = "-9223372036854775808".toList := by
  rw [convert_eq]
  decide

end LogStream

end Rawmd
