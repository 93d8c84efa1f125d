import Mathlib.Data.List.Basic

/-!
# `lower_bound`: binary search over `[first, first + len)`

`lowerBound less xs` is the index that the search ends at, where `less x` says that `x` is
before the value looked for.  The search reads the elements at its middles only, so it has a
result for a list that is not sorted, too.

    lowerBound less (x :: xs) = 0 → less x = false
    the elements with `less` come first → lowerBound less xs is their number   (lowerBound_spec)
-/

namespace List

variable {α : Type}

def lowerBoundFrom (less : α → Bool) (xs : List α) : Nat → Nat → Nat → Nat
  | 0, first, _ => first
  | fuel + 1, first, len =>
    if 0 < len then
      let half := len / 2
      match xs[first + half]? with
      | some middle =>
        if less middle then lowerBoundFrom less xs fuel (first + half + 1) (len - half - 1)
        else lowerBoundFrom less xs fuel first half
      | none => first
    else first

/-- Each round leaves fewer elements, so `xs.length` rounds are enough. -/
def lowerBound (less : α → Bool) (xs : List α) : Nat :=
  lowerBoundFrom less xs xs.length 0 xs.length

theorem first_le_lowerBoundFrom (less : α → Bool) (xs : List α) (fuel first len : Nat) :
    first ≤ lowerBoundFrom less xs fuel first len := by
  fun_induction lowerBoundFrom less xs fuel first len with
  | case1 first len => exact Nat.le_refl first
  | case2 fuel first len hlen half middle hmiddle hless ih => omega
  | case3 fuel first len hlen half middle hmiddle hless ih => exact ih
  | case4 fuel first len hlen half hmiddle => exact Nat.le_refl first
  | case5 fuel first len hlen => exact Nat.le_refl first

/-- A search that ends at the first element has compared it in its last round. -/
theorem lowerBoundFrom_eq_zero {less : α → Bool} {x : α} {xs : List α} {fuel len : Nat}
    (hpos : 0 < len) (hlen : len ≤ (x :: xs).length) (hfuel : len ≤ fuel)
    (h : lowerBoundFrom less (x :: xs) fuel 0 len = 0) : less x = false := by
  induction fuel generalizing len with
  | zero => omega
  | succ fuel ih =>
    obtain ⟨middle, hmiddle⟩ : ∃ middle, (x :: xs)[0 + len / 2]? = some middle :=
      ⟨_, List.getElem?_eq_getElem (by omega)⟩
    rw [lowerBoundFrom, if_pos hpos] at h
    simp only [hmiddle] at h
    split at h
    · have := first_le_lowerBoundFrom less (x :: xs) fuel (0 + len / 2 + 1) (len - len / 2 - 1)
      omega
    · next hless =>
      by_cases hhalf : 0 < len / 2
      · exact ih hhalf (by omega) (by omega) h
      · have hzero : 0 + len / 2 = 0 := by omega
        rw [hzero] at hmiddle
        cases hmiddle
        simpa using hless

theorem lowerBound_eq_zero {less : α → Bool} {x : α} {xs : List α}
    (h : lowerBound less (x :: xs) = 0) : less x = false :=
  lowerBoundFrom_eq_zero (by simp) (Nat.le_refl _) (Nat.le_refl _) h

/-! ## Partitioned lists -/

/-- `less` holds of the elements before `k`, and of no other. -/
structure PartitionedAt (less : α → Bool) (xs : List α) (k : Nat) : Prop where
  le : k ≤ xs.length
  before : ∀ i x, xs[i]? = some x → i < k → less x = true
  after : ∀ i x, xs[i]? = some x → k ≤ i → less x = false

/-- The elements outside `[first, first + len)` are decided in each round. -/
theorem lowerBoundFrom_spec {less : α → Bool} {xs : List α}
    (hless : xs.Pairwise fun a b => less b = true → less a = true) {fuel first len : Nat}
    (hfuel : len ≤ fuel) (hlen : first + len ≤ xs.length)
    (hbefore : ∀ i x, xs[i]? = some x → i < first → less x = true)
    (hafter : ∀ i x, xs[i]? = some x → first + len ≤ i → less x = false) :
    PartitionedAt less xs (lowerBoundFrom less xs fuel first len) := by
  have hmono : ∀ {i j : Nat} {a b : α}, xs[i]? = some a → xs[j]? = some b → i < j →
      less b = true → less a = true := by
    intro i j a b ha hb hij
    obtain ⟨hi, rfl⟩ := List.getElem?_eq_some_iff.1 ha
    obtain ⟨hj, rfl⟩ := List.getElem?_eq_some_iff.1 hb
    exact List.pairwise_iff_getElem.1 hless i j hi hj hij
  fun_induction lowerBoundFrom less xs fuel first len with
  | case1 first len =>
    exact ⟨by omega, hbefore, fun i x hi hle => hafter i x hi (by omega)⟩
  | case2 fuel first len hpos half middle hmiddle hm ih =>
    refine ih (by omega) (by omega) (fun i x hi hlt => ?_) (fun i x hi hle => ?_)
    · rcases Nat.lt_or_eq_of_le (Nat.le_of_lt_succ hlt) with hlt | rfl
      · exact hmono hi hmiddle hlt hm
      · cases hmiddle.symm.trans hi
        exact hm
    · exact hafter i x hi (by omega)
  | case3 fuel first len hpos half middle hmiddle hm ih =>
    refine ih (by omega) (by omega) hbefore (fun i x hi hle => ?_)
    rcases Nat.lt_or_eq_of_le hle with hlt | rfl
    · cases hx : less x with
      | false => rfl
      | true => exact absurd (hmono hmiddle hi hlt hx) hm
    · cases hmiddle.symm.trans hi
      simpa using hm
  | case4 fuel first len hpos half hmiddle =>
    rw [List.getElem?_eq_none_iff] at hmiddle
    omega
  | case5 fuel first len hpos =>
    exact ⟨by omega, hbefore, fun i x hi hle => hafter i x hi (by omega)⟩

theorem lowerBound_spec {less : α → Bool} {xs : List α}
    (hless : xs.Pairwise fun a b => less b = true → less a = true) :
    PartitionedAt less xs (lowerBound less xs) := by
  refine lowerBoundFrom_spec hless (Nat.le_refl _) (by omega) ?_ ?_
  · intro i x _ hlt
    omega
  · intro i x hi hle
    have := (List.getElem?_eq_some_iff.1 hi).1
    omega

theorem PartitionedAt.filter_eq {less : α → Bool} {xs : List α} {k : Nat}
    (h : PartitionedAt less xs k) : xs.filter less = xs.take k := by
  have htake : (xs.take k).filter less = xs.take k := by
    rw [List.filter_eq_self]
    intro x hx
    obtain ⟨i, hi⟩ := List.getElem?_of_mem hx
    rw [List.getElem?_take] at hi
    split at hi
    · next hlt => exact h.before i x hi hlt
    · cases hi
  have hdrop : (xs.drop k).filter less = [] := by
    rw [List.filter_eq_nil_iff]
    intro x hx
    obtain ⟨i, hi⟩ := List.getElem?_of_mem hx
    rw [List.getElem?_drop] at hi
    simp [h.after (k + i) x hi (by omega)]
  calc xs.filter less = (xs.take k ++ xs.drop k).filter less := by rw [List.take_append_drop]
    _ = xs.take k := by rw [List.filter_append, htake, hdrop, List.append_nil]

end List
