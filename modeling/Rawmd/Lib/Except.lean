import Mathlib.Data.List.Basic

/-!
# Computations that can fail

    (x >>= f) = .ok b → ∃ a, x = .ok a ∧ f a = .ok b                      (bind_ok)
    (x.mapError f).map g = .ok b → ∃ a, x = .ok a ∧ g a = b               (map_mapError_ok)
    I (a :: l) s → f s a = .ok t → I l t  gives  I l s → foldlM f s l = .ok t → I [] t
                                                                     (foldlM_rest)

`x.Returns Q` is total correctness: `x` does not fail and its result meets `Q`.

    x.Returns P → (∀ a, P a → (f a).Returns Q) → (x >>= f).Returns Q       (Returns.bind)
    I (a :: l) s → (f s a).Returns (I l)  gives  I l s → (foldlM f s l).Returns (I [])
                                                                     (Returns.foldlM)
-/

namespace Except

variable {ε α β : Type}

theorem bind_ok {x : Except ε α} {f : α → Except ε β} {b : β} (h : (x >>= f) = .ok b) :
    ∃ a, x = .ok a ∧ f a = .ok b := by
  cases x with
  | error e => cases h
  | ok a => exact ⟨a, rfl, h⟩

theorem map_mapError_ok {δ : Type} {x : Except ε α} {f : ε → δ} {g : α → β} {b : β}
    (h : (x.mapError f).map g = .ok b) : ∃ a, x = .ok a ∧ g a = b := by
  cases x with
  | error e => cases h
  | ok a =>
    cases h
    exact ⟨a, rfl, rfl⟩

/-- A loop whose invariant speaks of the elements that are left. -/
theorem foldlM_rest {f : β → α → Except ε β} {I : List α → β → Prop}
    (hstep : ∀ a l s t, I (a :: l) s → f s a = .ok t → I l t) {l : List α} {s t : β}
    (hs : I l s) (h : l.foldlM f s = .ok t) : I [] t := by
  induction l generalizing s with
  | nil =>
    cases h
    exact hs
  | cons a l ih =>
    rw [List.foldlM_cons] at h
    obtain ⟨u, hu, h⟩ := bind_ok h
    exact ih (hstep a l s u hs hu) h

/-! ## Computations that do not fail -/

def Returns (x : Except ε α) (Q : α → Prop) : Prop := ∃ a, x = .ok a ∧ Q a

variable {x : Except ε α} {P : α → Prop} {Q : β → Prop}

theorem Returns.ok {a : α} (h : P a) : Returns (.ok a : Except ε α) P := ⟨a, rfl, h⟩

theorem Returns.bind {f : α → Except ε β} (hx : x.Returns P) (hf : ∀ a, P a → (f a).Returns Q) :
    (x >>= f).Returns Q := by
  obtain ⟨a, rfl, ha⟩ := hx
  exact hf a ha

/-- A loop that never fails. -/
theorem Returns.foldlM {f : β → α → Except ε β} {I : List α → β → Prop}
    (hstep : ∀ a l s, I (a :: l) s → (f s a).Returns (I l)) {l : List α} {s : β} (hs : I l s) :
    (l.foldlM f s).Returns (I []) := by
  induction l generalizing s with
  | nil => exact Returns.ok hs
  | cons a l ih =>
    rw [List.foldlM_cons]
    exact (hstep a l s hs).bind fun t ht => ih ht

end Except
