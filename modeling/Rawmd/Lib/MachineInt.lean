import Mathlib.Data.Int.Basic
import Mathlib.Tactic.Positivity
import Mathlib.Tactic.Ring

/-!
# Two's complement integers of `w` bits

`wrap w x` is the value a signed `w`-bit integer holds after `x` is stored in it, and
`Fits w x` says that nothing is lost.  `add`, `sub` and `mul` have no result if theirs does not
fit.
-/

namespace MachineInt

def wrap (w : Nat) (x : Int) : Int := Int.bmod x (2 ^ w)

def Fits (w : Nat) (x : Int) : Prop := -2 ^ (w - 1) ≤ x ∧ x < 2 ^ (w - 1)

instance (w : Nat) (x : Int) : Decidable (Fits w x) := inferInstanceAs (Decidable (_ ∧ _))

theorem wrap_of_fits {w : Nat} {x : Int} (hw : 0 < w) (h : Fits w x) : wrap w x = x := by
  obtain ⟨v, rfl⟩ : ∃ v, w = v + 1 := ⟨w - 1, by omega⟩
  unfold Fits at h
  simp only [Nat.add_sub_cancel] at h
  have hp : ((2 ^ (v + 1) : Nat) : Int) = 2 * 2 ^ v := by push_cast; ring
  unfold wrap
  refine Int.bmod_eq_of_le ?_ ?_
  · rw [hp]; omega
  · rw [hp]; omega

theorem wrap_fits {w : Nat} (hw : 0 < w) (x : Int) : Fits w (wrap w x) := by
  obtain ⟨v, rfl⟩ : ∃ v, w = v + 1 := ⟨w - 1, by omega⟩
  have hpos : (0 : Nat) < 2 ^ (v + 1) := by positivity
  have hp : ((2 ^ (v + 1) : Nat) : Int) = 2 * 2 ^ v := by push_cast; ring
  have hlow := Int.le_bmod (x := x) hpos
  have hhigh := Int.bmod_lt (x := x) hpos
  unfold Fits wrap
  simp only [Nat.add_sub_cancel]
  rw [hp] at hlow hhigh
  constructor <;> omega

theorem wrap_le (w n : Nat) : wrap w n ≤ n := by
  have hmod : (n : Int) % ((2 ^ w : Nat) : Int) ≤ n := by exact_mod_cast Nat.mod_le n (2 ^ w)
  unfold wrap
  rw [Int.bmod_eq_emod]
  split <;> omega

/-! ## Arithmetic that must not overflow -/

def checked (w : Nat) (x : Int) : Option Int := if Fits w x then some x else none

def add (w : Nat) (x y : Int) : Option Int := checked w (x + y)

def sub (w : Nat) (x y : Int) : Option Int := checked w (x - y)

def mul (w : Nat) (x y : Int) : Option Int := checked w (x * y)

theorem checked_of_fits {w : Nat} {x : Int} (h : Fits w x) : checked w x = some x := if_pos h

theorem checked_32 {x : Int} (h0 : -2147483648 ≤ x) (h1 : x ≤ 2147483647) :
    checked 32 x = some x :=
  checked_of_fits ⟨h0, Int.lt_of_le_sub_one h1⟩

theorem add_32 {x y : Int} (h0 : -2147483648 ≤ x + y) (h1 : x + y ≤ 2147483647) :
    add 32 x y = some (x + y) := checked_32 h0 h1

theorem sub_32 {x y : Int} (h0 : -2147483648 ≤ x - y) (h1 : x - y ≤ 2147483647) :
    sub 32 x y = some (x - y) := checked_32 h0 h1

theorem mul_32 {x y : Int} (h0 : -2147483648 ≤ x * y) (h1 : x * y ≤ 2147483647) :
    mul 32 x y = some (x * y) := checked_32 h0 h1

end MachineInt
