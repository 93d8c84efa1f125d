import Mathlib.Data.List.Basic
import Mathlib.Tactic.SplitIfs

/-!
# `base/circularbuffer.h`

A ring of `capacity` cells of which `capacity - 1` can be in use.  The positions are part of the
type.  `toList` is the items from front to back.

    full b ↔ size + 1 = capacity                                        (full_iff)
    ¬ full b → (push_back b x).toList = b.toList ++ [x]                 (toList_pushBack)
    ¬ empty b → b.toList = b.front :: (pop_front b).toList              (toList_popFront)
-/

namespace Rawmd

/-- `buffer_` has `capacity_` cells. -/
structure CircularBuffer (α : Type) where
  buffer : List α
  readPos : Nat
  writePos : Nat
  readPos_lt : readPos < buffer.length
  writePos_lt : writePos < buffer.length

namespace CircularBuffer

variable {α : Type}

/-- The constructor, which throws on a capacity of zero. -/
def make [Inhabited α] (capacitysize : Nat) : Option (CircularBuffer α) :=
  if h : capacitysize < 1 then none
  else some ⟨List.replicate capacitysize default, 0, 0, by rw [List.length_replicate]; omega,
    by rw [List.length_replicate]; omega⟩

variable (b : CircularBuffer α)

def capacity : Nat := b.buffer.length

def size : Nat := (b.writePos + b.capacity - b.readPos) % b.capacity

def empty : Bool := b.readPos == b.writePos

def full : Bool := (b.writePos + 1) % b.capacity == b.readPos

theorem capacity_pos : 0 < b.capacity := Nat.zero_lt_of_lt b.readPos_lt

def pushBack (item : α) : Bool × CircularBuffer α :=
  if b.full then (false, b)
  else (true, {
    buffer := b.buffer.set b.writePos item
    readPos := b.readPos
    writePos := (b.writePos + 1) % b.capacity
    readPos_lt := by rw [List.length_set]; exact b.readPos_lt
    writePos_lt := by rw [List.length_set]; exact Nat.mod_lt _ b.capacity_pos })

/-- On an empty buffer a static item. -/
def front [Inhabited α] : α := if b.empty then default else b.buffer.getD b.readPos default

def popFront : CircularBuffer α :=
  if b.empty then b
  else { b with
    readPos := (b.readPos + 1) % b.capacity
    readPos_lt := Nat.mod_lt _ b.capacity_pos }

/-- The items, from front to back. -/
def toList [Inhabited α] : List α :=
  (List.range b.size).map fun i => b.buffer.getD ((b.readPos + i) % b.capacity) default

/-! ## Sizes -/

theorem size_eq : b.size =
    if b.readPos ≤ b.writePos then b.writePos - b.readPos
    else b.writePos + b.capacity - b.readPos := by
  have hr : b.readPos < b.capacity := b.readPos_lt
  have hw : b.writePos < b.capacity := b.writePos_lt
  unfold size
  split
  · rw [show b.writePos + b.capacity - b.readPos = b.writePos - b.readPos + b.capacity by omega,
      Nat.add_mod_right, Nat.mod_eq_of_lt (by omega)]
  · exact Nat.mod_eq_of_lt (by omega)

/-- A step to the next cell. -/
theorem succ_mod {c i : Nat} (h : i < c) : (i + 1) % c = if i + 1 = c then 0 else i + 1 := by
  split
  · next he => rw [he, Nat.mod_self]
  · exact Nat.mod_eq_of_lt (by omega)

theorem empty_iff : b.empty = true ↔ b.size = 0 := by
  have hr : b.readPos < b.capacity := b.readPos_lt
  have hw : b.writePos < b.capacity := b.writePos_lt
  rw [empty, beq_iff_eq, size_eq]
  split <;> omega

theorem full_iff : b.full = true ↔ b.size + 1 = b.capacity := by
  have hr : b.readPos < b.capacity := b.readPos_lt
  have hw : b.writePos < b.capacity := b.writePos_lt
  rw [full, beq_iff_eq, size_eq, succ_mod hw]
  split <;> split <;> omega

theorem size_lt : b.size < b.capacity := Nat.mod_lt _ b.capacity_pos

variable {b}

theorem size_make [Inhabited α] {n : Nat} (h : make n = some b) :
    b.size = 0 ∧ b.capacity = n := by
  unfold make at h
  split at h
  · cases h
  · cases h
    simp [size, capacity]

theorem capacity_pushBack (item : α) : (b.pushBack item).2.capacity = b.capacity := by
  unfold pushBack
  split
  · rfl
  · exact List.length_set ..

theorem capacity_popFront : b.popFront.capacity = b.capacity := by
  unfold popFront
  split <;> rfl

theorem size_pushBack (h : b.full = false) (item : α) : (b.pushBack item).2.size = b.size + 1 := by
  have hr : b.readPos < b.capacity := b.readPos_lt
  have hw : b.writePos < b.capacity := b.writePos_lt
  have hf : b.size + 1 ≠ b.capacity := by
    rw [ne_eq, ← full_iff, h]
    decide
  rw [size_eq, capacity_pushBack, size_eq b]
  rw [size_eq] at hf
  simp only [pushBack, h, Bool.false_eq_true, if_false]
  rw [succ_mod hw]
  split_ifs at hf ⊢ <;> omega

theorem size_popFront (h : b.empty = false) : b.popFront.size + 1 = b.size := by
  have hr : b.readPos < b.capacity := b.readPos_lt
  have hw : b.writePos < b.capacity := b.writePos_lt
  have he : b.size ≠ 0 := by
    rw [ne_eq, ← empty_iff, h]
    decide
  rw [size_eq, capacity_popFront, size_eq b]
  rw [size_eq] at he
  simp only [popFront, h, Bool.false_eq_true, if_false]
  rw [succ_mod hr]
  split_ifs at he ⊢ <;> omega

/-! ## Contents -/

/-- The cell after the last item is the one that is written. -/
theorem readPos_add_size (b : CircularBuffer α) :
    (b.readPos + b.size) % b.capacity = b.writePos := by
  have hr : b.readPos < b.capacity := b.readPos_lt
  have hw : b.writePos < b.capacity := b.writePos_lt
  rw [size_eq]
  split
  · rw [Nat.add_sub_cancel' (by omega), Nat.mod_eq_of_lt hw]
  · rw [Nat.add_sub_cancel' (by omega), Nat.add_mod_right, Nat.mod_eq_of_lt hw]

/-- The cells of the items are not the one that is written. -/
theorem cell_ne_writePos {i : Nat} (h : i < b.size) :
    (b.readPos + i) % b.capacity ≠ b.writePos := by
  have hr : b.readPos < b.capacity := b.readPos_lt
  have hw : b.writePos < b.capacity := b.writePos_lt
  rw [size_eq] at h
  by_cases hi : b.readPos + i < b.capacity
  · rw [Nat.mod_eq_of_lt hi]
    split at h <;> omega
  · rw [Nat.mod_eq_sub_mod (by omega), Nat.mod_eq_of_lt (by split at h <;> omega)]
    split at h <;> omega

variable [Inhabited α]

theorem toList_make {n : Nat} (h : make n = some b) : b.toList = [] := by
  rw [toList, (size_make h).1]
  rfl

theorem toList_pushBack (h : b.full = false) (item : α) :
    (b.pushBack item).2.toList = b.toList ++ [item] := by
  have hs := size_pushBack h item
  have hc := capacity_pushBack (b := b) item
  rw [toList, hs, List.range_succ, List.map_append, List.map_singleton, toList, hc]
  simp only [pushBack, h, Bool.false_eq_true, if_false]
  congr 1
  · apply List.map_congr_left
    intro i hi
    have hne := cell_ne_writePos (List.mem_range.1 hi)
    rw [List.getD_eq_getElem?_getD, List.getD_eq_getElem?_getD, List.getElem?_set_ne hne.symm]
  · rw [readPos_add_size, List.getD_eq_getElem?_getD, List.getElem?_set_self b.writePos_lt]
    rfl

theorem toList_popFront (h : b.empty = false) : b.toList = b.front :: b.popFront.toList := by
  have hs := size_popFront h
  have hr : b.readPos < b.capacity := b.readPos_lt
  rw [toList, ← hs, List.range_succ_eq_map, List.map_cons, List.map_map, toList, capacity_popFront,
    front, h]
  simp only [popFront, h, Bool.false_eq_true, if_false, Nat.add_zero]
  rw [Nat.mod_eq_of_lt hr]
  congr 1
  apply List.map_congr_left
  intro i _
  show b.buffer.getD ((b.readPos + (i + 1)) % b.capacity) default = _
  rw [Nat.mod_add_mod, Nat.add_assoc, Nat.add_comm 1 i]

end CircularBuffer

end Rawmd
