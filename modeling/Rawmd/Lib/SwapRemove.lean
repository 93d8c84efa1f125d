import Mathlib.Data.List.Basic
import Mathlib.Data.List.Nodup

/-!
# Removing from a vector by swapping with its last element

`swapRemove l i` is `l` with its last element moved into slot `i`.  All that is needed of it
is which element ends up where (`getElem?_swapRemove`); removing the last slot is the case in
which nothing moves.  From a list without duplicates it removes just the element in slot `i`
(`mem_swapRemove`, `nodup_swapRemove`).
-/

namespace List

variable {α : Type}

def swapRemove (l : List α) (i : Nat) : List α :=
  match l[l.length - 1]? with
  | some back => (l.set i back).dropLast
  | none => []

theorem getElem?_swapRemove (l : List α) (i j : Nat) :
    (l.swapRemove i)[j]? =
      if j + 1 < l.length then if j = i then l[l.length - 1]? else l[j]? else none := by
  unfold swapRemove
  split
  · next back hback =>
    rw [getElem?_dropLast, length_set]
    by_cases hj : j < l.length - 1
    · rw [if_pos hj, if_pos (by omega)]
      by_cases hij : j = i
      · rw [if_pos hij, hij, getElem?_set_self (by omega), hback]
      · rw [if_neg hij, getElem?_set_ne (Ne.symm hij)]
    · rw [if_neg hj, if_neg (by omega)]
  · next hnone =>
    have hl : l.length = 0 := by
      have := getElem?_eq_none_iff.1 hnone
      omega
    simp [hl]

theorem length_swapRemove (l : List α) (i : Nat) : (l.swapRemove i).length = l.length - 1 := by
  unfold swapRemove
  split
  · simp
  · next hnone =>
    have := getElem?_eq_none_iff.1 hnone
    simp only [length_nil]
    omega

theorem dropLast_eq_swapRemove (l : List α) : l.dropLast = l.swapRemove (l.length - 1) := by
  apply ext_getElem?
  intro j
  rw [getElem?_dropLast, getElem?_swapRemove]
  by_cases hj : j < l.length - 1
  · rw [if_pos hj, if_pos (by omega), if_neg (by omega)]
  · rw [if_neg hj, if_neg (by omega)]

/-- `iter_swap` with the last slot, then `pop_back`. -/
theorem swap_dropLast_eq_swapRemove {l : List α} {i : Nat} {back : α} (x : α)
    (hback : l[l.length - 1]? = some back) :
    ((l.set i back).set (l.length - 1) x).dropLast = l.swapRemove i := by
  apply ext_getElem?
  intro j
  rw [getElem?_dropLast, length_set, length_set, getElem?_swapRemove]
  by_cases hj : j < l.length - 1
  · rw [if_pos hj, if_pos (by omega), getElem?_set_ne (by omega)]
    by_cases hij : j = i
    · rw [if_pos hij, hij, getElem?_set_self (by omega), hback]
    · rw [if_neg hij, getElem?_set_ne (Ne.symm hij)]
  · rw [if_neg hj, if_neg (by omega)]

/-! ## Lists without duplicates -/

theorem map_swapRemove {β : Type} (f : α → β) (l : List α) (i : Nat) :
    (l.swapRemove i).map f = (l.map f).swapRemove i := by
  apply ext_getElem?
  intro j
  rw [getElem?_map, getElem?_swapRemove, getElem?_swapRemove, length_map, getElem?_map,
    getElem?_map]
  split
  · split <;> rfl
  · rfl

/-- The slot of `l` that ends up in slot `j`. -/
theorem getElem?_of_swapRemove {l : List α} {i j : Nat} {y : α}
    (h : (l.swapRemove i)[j]? = some y) :
    ∃ k, l[k]? = some y ∧ k ≠ i ∧ (k = j ∨ j = i ∧ k = l.length - 1) := by
  rw [getElem?_swapRemove] at h
  split at h
  · next hj =>
    split at h
    · next hji => exact ⟨l.length - 1, h, by omega, .inr ⟨hji, rfl⟩⟩
    · next hji => exact ⟨j, h, hji, .inl rfl⟩
  · cases h

theorem mem_swapRemove {l : List α} (hl : l.Nodup) {i : Nat} {x y : α} (hx : l[i]? = some x)
    (hy : y ∈ l.swapRemove i) : y ∈ l ∧ y ≠ x := by
  obtain ⟨j, hj⟩ := mem_iff_getElem?.1 hy
  obtain ⟨k, hk, hki, -⟩ := getElem?_of_swapRemove hj
  refine ⟨mem_of_getElem? hk, ?_⟩
  rintro rfl
  have hlt := (getElem?_eq_some_iff.1 hk).1
  exact hki ((getElem?_inj hlt hl).1 (hk.trans hx.symm))

theorem nodup_swapRemove {l : List α} (hl : l.Nodup) (i : Nat) : (l.swapRemove i).Nodup := by
  rw [nodup_iff_getElem?_ne_getElem?]
  intro j k hjk hk heq
  obtain ⟨y, hy⟩ := Option.ne_none_iff_exists'.1
    (show (l.swapRemove i)[k]? ≠ none by rw [getElem?_eq_getElem hk]; simp)
  obtain ⟨a, ha, hai, ha'⟩ := getElem?_of_swapRemove (heq.trans hy)
  obtain ⟨b, hb, hbi, hb'⟩ := getElem?_of_swapRemove hy
  have hlt := (getElem?_eq_some_iff.1 ha).1
  have hab : a = b := (getElem?_inj hlt hl).1 (ha.trans hb.symm)
  rw [length_swapRemove] at hk
  omega

end List
