import Mathlib.Data.List.Basic
import Mathlib.Data.Option.Basic
import Mathlib.Logic.Function.Basic
import Mathlib.Order.Basic

/-!
# Descriptor tables

The table of a process with at most `limit` descriptors, each with what it is a descriptor of.
`create` takes the lowest free one, `close` gives one back; a descriptor that is not open is
refused (`EBADF`).

    t.create w = none → every descriptor below the limit is open          (create_eq_none_iff)
    t.create w = some (fd, t') → fd was free and below the limit          (create_eq_some)
    t.full, slot fd = some _ → (t.close fd).create w = some (fd, t.set fd w)   (create_close)
-/

structure Descriptors (ω : Type) where
  limit : Nat
  slot : Nat → Option ω

namespace Descriptors

variable {ω : Type} (t : Descriptors ω)

def set (fd : Nat) (w : Option ω) : Descriptors ω := { t with slot := Function.update t.slot fd w }

def lowest : Option Nat := (List.range t.limit).find? fun fd => (t.slot fd).isNone

/-- `EMFILE` if there is none. -/
def create (w : ω) : Option (Nat × Descriptors ω) := t.lowest.map fun fd => (fd, t.set fd (some w))

/-- `::close`; what is not a descriptor, like -1, is refused. -/
def close (fd : Int) : Descriptors ω := if fd < 0 then t else t.set fd.toNat none

def full : Bool := t.lowest.isNone

variable {t}

theorem slot_set (fd x : Nat) (w : Option ω) :
    (t.set fd w).slot x = if x = fd then w else t.slot x :=
  Function.update_apply _ _ _ _

theorem close_nat (fd : Nat) : t.close (fd : Int) = t.set fd none := by
  rw [close, if_neg (by omega), Int.toNat_natCast]

theorem slot_close (fd : Int) (x : Nat) :
    (t.close fd).slot x = if fd = x then none else t.slot x := by
  unfold close
  split
  · next hneg => rw [if_neg (by omega)]
  · next hpos =>
    rw [slot_set]
    exact if_congr (by omega) rfl rfl

/-- What was opened a moment ago is closed again. -/
theorem close_create {fd : Nat} (h : t.slot fd = none) (w : ω) :
    (t.set fd (some w)).close (fd : Int) = t := by
  rw [close_nat]
  simp only [set, Function.update_idem]
  rw [← h, Function.update_eq_self]

theorem full_iff : t.full = true ↔ ∀ fd < t.limit, t.slot fd ≠ none := by
  simp [full, lowest]

theorem create_eq_none_iff {w : ω} : t.create w = none ↔ t.full = true := by
  rw [create, Option.map_eq_none_iff, full, Option.isNone_iff_eq_none]

theorem create_eq_some {w : ω} {fd : Nat} {t' : Descriptors ω} (h : t.create w = some (fd, t')) :
    t.slot fd = none ∧ fd < t.limit ∧ t' = t.set fd (some w) := by
  rw [create, Option.map_eq_some_iff] at h
  obtain ⟨x, hx, he⟩ := h
  cases he
  have hfree := List.find?_some hx
  have hmem := List.mem_of_find?_eq_some hx
  exact ⟨Option.isNone_iff_eq_none.1 hfree, List.mem_range.1 hmem, rfl⟩

theorem not_full_of_free {fd : Nat} (hlt : fd < t.limit) (h : t.slot fd = none) :
    t.full = false := by
  rw [← Bool.not_eq_true, full_iff]
  intro hall
  exact hall fd hlt h

theorem exists_create (h : t.full = false) (w : ω) : ∃ fd t', t.create w = some (fd, t') := by
  cases hc : t.create w with
  | none =>
    rw [create_eq_none_iff.1 hc] at h
    cases h
  | some r => exact ⟨r.1, r.2, rfl⟩

/-- Closing only frees. -/
theorem full_set_none {fd : Nat} (h : t.full = false) : (t.set fd none).full = false := by
  rw [← Bool.not_eq_true, full_iff] at h ⊢
  intro hall
  refine h fun x hx => ?_
  have := hall x hx
  rw [slot_set] at this
  split at this
  · exact absurd rfl this
  · exact this

/-- Of a full table, the descriptor that is closed is the one that is opened next. -/
theorem create_close {fd : Nat} (hfull : t.full = true) (hlt : fd < t.limit) (w : ω) :
    (t.set fd none).create w = some (fd, t.set fd (some w)) := by
  have hfree : (t.set fd none).full = false :=
    not_full_of_free hlt (by rw [slot_set, if_pos rfl])
  obtain ⟨x, t', hx⟩ := exists_create hfree w
  obtain ⟨hslot, hxlt, rfl⟩ := create_eq_some hx
  have hxfd : x = fd := by
    by_contra hne
    rw [slot_set, if_neg hne] at hslot
    exact full_iff.1 hfull x hxlt hslot
  rw [hx, hxfd]
  simp only [set, Function.update_idem]

end Descriptors
