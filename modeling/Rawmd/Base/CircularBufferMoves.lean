import Mathlib.Data.List.Basic
import Mathlib.Logic.Function.Basic
import Rawmd.Lib.Except
import Rawmd.Lib.Machine
import Rawmd.Lib.MachineInt

/-!
# `base/circularbuffer.h`: buffers that are moved

The objects of a program that constructs, copies, moves, assigns and swaps buffers, each with the
array it owns.  A move constructor starts from the private constructor, with a null `buffer_` and
a `capacity_` of 0, and swaps: that is what it leaves behind.  `%` by 0 is a fault, and so is an
index outside the array.

`marks` follows the same program and remembers only which objects are moved from, directly or
because they were copied, assigned or swapped from such an object.

    a program runs without a fault ↔ it calls size(), full() and push_back() only on objects that
    are not moved from                                           (circularBuffers_defined_iff)

`empty()`, `front()` and `pop_front()` take no remainder there, since the positions are both 0.
-/

namespace Rawmd.CircularBufferMoves

inductive Fault where
  | divideByZero
  | outOfRange
  /-- the constructor throws `std::length_error` -/
  | lengthError
  /-- no such object -/
  | dangling
deriving DecidableEq, Repr

/-- `buffer_` is null or the cells of an array. -/
structure Object (α : Type) where
  buffer : Option (List α)
  capacity : Nat
  readPos : Nat
  writePos : Nat
deriving DecidableEq, Repr

/-- The value of a `size_t`. -/
def sizeT (n : Int) : Nat := (n % 2 ^ 64).toNat

/-- `a % b` -/
def remainder (a b : Nat) : Except Fault Nat :=
  if b = 0 then .error .divideByZero else .ok (a % b)

namespace Object

variable {α : Type}

/-- The private constructor. -/
def null : Object α := ⟨none, 0, 0, 0⟩

def make [Inhabited α] (capacitysize : Nat) : Except Fault (Object α) :=
  if capacitysize < 1 then .error .lengthError
  else .ok ⟨some (List.replicate capacitysize default), capacitysize, 0, 0⟩

variable (o : Object α)

def cells : List α := o.buffer.getD []

/-- The copy constructor: a new array, and `std::copy` of `capacity_` cells. -/
def copy : Except Fault (Object α) :=
  if o.cells.length < o.capacity then .error .outOfRange
  else .ok { o with buffer := some (o.cells.take o.capacity) }

def size : Except Fault Nat := remainder (sizeT (o.writePos + o.capacity - o.readPos)) o.capacity

def empty : Bool := o.readPos == o.writePos

def full : Except Fault Bool := do
  let next ← remainder (sizeT (o.writePos + 1)) o.capacity
  return next == o.readPos

def pushBack (item : α) : Except Fault (Bool × Object α) := do
  let full ← o.full
  if full then return (false, o)
  else if o.cells.length ≤ o.writePos then .error .outOfRange
  else do
    let next ← remainder (sizeT (o.writePos + 1)) o.capacity
    return (true, { o with buffer := some (o.cells.set o.writePos item), writePos := next })

/-- On an empty buffer a static item. -/
def front [Inhabited α] : Except Fault α :=
  if o.empty then .ok default
  else
    match o.cells[o.readPos]? with
    | some x => .ok x
    | none => .error .outOfRange

def popFront : Except Fault (Object α) :=
  if o.empty then .ok o
  else do
    let next ← remainder (sizeT (o.readPos + 1)) o.capacity
    return { o with readPos := next }

end Object

/-! ## Programs -/

/-- The calls on the objects `v`, `w`. -/
inductive Call (α : Type) where
  | make (v capacitysize : Nat)
  | copy (v w : Nat)
  | move (v w : Nat)
  /-- `v = w` -/
  | assign (v w : Nat)
  /-- `v = std::move(w)` -/
  | moveAssign (v w : Nat)
  | swap (v w : Nat)
  | pushBack (v : Nat) (item : α)
  | popFront (v : Nat)
  | front (v : Nat)
  | size (v : Nat)
  | empty (v : Nat)
  | full (v : Nat)
  | destroy (v : Nat)
deriving DecidableEq, Repr

variable {α : Type}

/-- A constructor makes a new object, every other call is on objects that exist. -/
def mayCall (alive : Nat → Bool) : Call α → Bool
  | .make v _ => !alive v
  | .copy v w | .move v w => !alive v && alive w
  | .assign v w | .moveAssign v w | .swap v w => alive v && alive w
  | .pushBack v _ | .popFront v | .front v | .size v | .empty v | .full v | .destroy v => alive v

abbrev Memory (α : Type) := Nat → Option (Object α)

namespace Memory

def object (m : Memory α) (v : Nat) : Except Fault (Object α) :=
  match m v with
  | some o => .ok o
  | none => .error .dangling

def put (m : Memory α) (v : Nat) (o : Object α) : Memory α := Function.update m v (some o)

def step [Inhabited α] (m : Memory α) : Call α → Except Fault (Memory α)
  | .make v capacitysize => do
    let o ← Object.make capacitysize
    return m.put v o
  | .copy v w => do
    let rhs ← m.object w
    let o ← rhs.copy
    return m.put v o
  | .move v w => do
    let rhs ← m.object w
    return (m.put w .null).put v rhs
  | .assign v w => do
    let rhs ← m.object w
    -- the parameter, which after the swap is destroyed with what `v` had
    let rhs ← rhs.copy
    return m.put v rhs
  | .moveAssign v w => do
    let rhs ← m.object w
    return (m.put w .null).put v rhs
  | .swap v w => do
    let lhs ← m.object v
    let rhs ← m.object w
    return (m.put v rhs).put w lhs
  | .pushBack v item => do
    let o ← m.object v
    let (_, o) ← o.pushBack item
    return m.put v o
  | .popFront v => do
    let o ← m.object v
    let o ← o.popFront
    return m.put v o
  | .front v => do
    let o ← m.object v
    let _ ← o.front
    return m
  | .size v => do
    let o ← m.object v
    let _ ← o.size
    return m
  | .empty v => do
    let _ ← m.object v
    return m
  | .full v => do
    let o ← m.object v
    let _ ← o.full
    return m
  | .destroy v => .ok (Function.update m v none)

end Memory

def machine (α : Type) [Inhabited α] : Machine (Memory α) (Call α) Fault where
  enabled m := mayCall fun v => (m v).isSome
  step := Memory.step

/-! ## Which objects are moved from -/

/-- For each object that exists, whether it is moved from. -/
abbrev Marks := Nat → Option Bool

namespace Marks

def step (h : Marks) : Call α → Except Fault Marks
  | .make v capacitysize =>
    if capacitysize < 1 then .error .lengthError else .ok (Function.update h v (some false))
  | .copy v w | .assign v w => .ok (Function.update h v (h w))
  | .move v w | .moveAssign v w =>
    .ok (Function.update (Function.update h w (some true)) v (h w))
  | .swap v w => .ok (Function.update (Function.update h v (h w)) w (h v))
  | .destroy v => .ok (Function.update h v none)
  | _ => .ok h

def machine (α : Type) : Machine Marks (Call α) Fault where
  enabled h := mayCall fun v => (h v).isSome
  step := step

/-- The calls that take a remainder in any case are on objects that are not moved from. -/
def RemainderDefined (h : Marks) (a : Call α) (_ : Marks) : Prop :=
  match a with
  | .size v | .full v | .pushBack v _ => h v = some false
  | _ => True

instance (h : Marks) (a : Call α) (h' : Marks) : Decidable (h.RemainderDefined a h') :=
  match a with
  | .size v | .full v | .pushBack v _ => inferInstanceAs (Decidable (h v = some false))
  | .make _ _ | .copy _ _ | .move _ _ | .assign _ _ | .moveAssign _ _ | .swap _ _ | .popFront _
  | .front _ | .empty _ | .destroy _ => .isTrue trivial

end Marks

/-! ## Objects -/

/-- The positions are in the array. -/
structure Object.Whole (o : Object α) : Prop where
  length : o.cells.length = o.capacity
  readPos : o.readPos < o.capacity
  writePos : o.writePos < o.capacity

/-- There is nothing to take a remainder by, and nothing to pop. -/
structure Object.Hollow (o : Object α) : Prop where
  capacity : o.capacity = 0
  readPos : o.readPos = 0
  writePos : o.writePos = 0

variable {o : Object α}

theorem remainder_returns {a b : Nat} (h : 0 < b) : (remainder a b).Returns (· < b) :=
  ⟨a % b, if_neg (Nat.ne_of_gt h), Nat.mod_lt a h⟩

namespace Object.Whole

theorem pos (h : o.Whole) : 0 < o.capacity := Nat.zero_lt_of_lt h.readPos

theorem make [Inhabited α] {n : Nat} (h : ¬ n < 1) :
    (Object.make n : Except Fault (Object α)).Returns Object.Whole := by
  refine ⟨_, if_neg h, ?_, ?_, ?_⟩
  · exact List.length_replicate
  · show 0 < n
    omega
  · show 0 < n
    omega

theorem copy (h : o.Whole) : o.copy.Returns Object.Whole := by
  refine ⟨_, if_neg (by rw [h.length]; exact Nat.lt_irrefl _), ?_, h.readPos, h.writePos⟩
  show (o.cells.take o.capacity).length = o.capacity
  rw [List.length_take, h.length, Nat.min_self]

theorem size (h : o.Whole) : o.size.Returns (· < o.capacity) := remainder_returns h.pos

theorem full (h : o.Whole) : o.full.Returns fun _ => True :=
  (remainder_returns h.pos).bind fun _ _ => .ok trivial

theorem pushBack (h : o.Whole) (item : α) :
    (o.pushBack item).Returns fun result => result.2.Whole := by
  refine h.full.bind ?_
  intro full _
  cases full with
  | true => exact .ok h
  | false =>
    have hpos : ¬ o.cells.length ≤ o.writePos := by
      have := h.length
      have := h.writePos
      omega
    show Except.Returns (if o.cells.length ≤ o.writePos then _ else _) _
    rw [if_neg hpos]
    refine (remainder_returns h.pos).bind ?_
    intro next hnext
    refine .ok ⟨?_, h.readPos, hnext⟩
    show (o.cells.set o.writePos item).length = o.capacity
    rw [List.length_set, h.length]

theorem front [Inhabited α] (h : o.Whole) : o.front.Returns fun _ => True := by
  have hlt : o.readPos < o.cells.length := h.length ▸ h.readPos
  unfold Object.front
  split
  · exact .ok trivial
  · rw [List.getElem?_eq_getElem hlt]
    exact .ok trivial

theorem popFront (h : o.Whole) : o.popFront.Returns Object.Whole := by
  unfold Object.popFront
  split
  · exact .ok h
  · refine (remainder_returns h.pos).bind ?_
    intro next hnext
    exact .ok ⟨h.length, hnext, h.writePos⟩

end Object.Whole

namespace Object.Hollow

theorem null : (Object.null : Object α).Hollow := ⟨rfl, rfl, rfl⟩

theorem copy (h : o.Hollow) : o.copy.Returns Object.Hollow :=
  ⟨_, if_neg (by rw [h.capacity]; exact Nat.not_lt_zero _), h.capacity, h.readPos, h.writePos⟩

theorem empty (h : o.Hollow) : o.empty = true := by
  rw [Object.empty, h.readPos, h.writePos]
  rfl

theorem size (h : o.Hollow) : o.size = .error .divideByZero := by
  rw [Object.size, h.capacity]
  rfl

theorem full (h : o.Hollow) : o.full = .error .divideByZero := by
  rw [Object.full, h.capacity]
  rfl

theorem pushBack (h : o.Hollow) (item : α) : o.pushBack item = .error .divideByZero := by
  rw [Object.pushBack, h.full]
  rfl

end Object.Hollow

/-! ## The marks tell the objects apart -/

inductive Marked : Option (Object α) → Option Bool → Prop where
  | gone : Marked none none
  | whole {o : Object α} (h : o.Whole) : Marked (some o) (some false)
  | moved {o : Object α} (h : o.Hollow) : Marked (some o) (some true)

namespace Marked

variable {b : Option Bool}

theorem isSome {x : Option (Object α)} (h : Marked x b) : x.isSome = b.isSome := by
  cases h with
  | gone => rfl
  | whole _ => rfl
  | moved _ => rfl

theorem whole_of_false (h : Marked (some o) (some false)) : o.Whole := by
  cases h with
  | whole h => exact h

theorem copy (h : Marked (some o) b) : o.copy.Returns fun o' => Marked (some o') b := by
  cases h with
  | whole h =>
    obtain ⟨o', ho', hw⟩ := h.copy
    exact ⟨o', ho', .whole hw⟩
  | moved h =>
    obtain ⟨o', ho', hh⟩ := h.copy
    exact ⟨o', ho', .moved hh⟩

theorem popFront (h : Marked (some o) b) : o.popFront.Returns fun o' => Marked (some o') b := by
  cases h with
  | whole h =>
    obtain ⟨o', ho', hw⟩ := h.popFront
    exact ⟨o', ho', .whole hw⟩
  | moved h => exact ⟨o, if_pos h.empty, .moved h⟩

theorem front [Inhabited α] (h : Marked (some o) b) : o.front.Returns fun _ => True := by
  cases h with
  | whole h => exact h.front
  | moved h => exact ⟨_, if_pos h.empty, trivial⟩

end Marked

def Rel (m : Memory α) (h : Marks) : Prop := ∀ v, Marked (m v) (h v)

namespace Rel

variable {m : Memory α} {h : Marks} {v w : Nat}

theorem mayCall_eq (hrel : Rel m h) (a : Call α) :
    mayCall (fun v => (m v).isSome) a = mayCall (fun v => (h v).isSome) a := by
  have hsome : (fun v => (m v).isSome) = fun v => (h v).isSome := by
    funext v
    exact (hrel v).isSome
  rw [hsome]

theorem update (hrel : Rel m h) {x : Option (Object α)} {b : Option Bool} (hx : Marked x b) :
    Rel (Function.update m v x) (Function.update h v b) := by
  intro u
  by_cases hu : u = v
  · subst hu
    rw [Function.update_self, Function.update_self]
    exact hx
  · rw [Function.update_of_ne hu, Function.update_of_ne hu]
    exact hrel u

/-- An object that keeps its mark. -/
theorem put (hrel : Rel m h) {o : Object α} (ho : Marked (some o) (h v)) : Rel (m.put v o) h := by
  have hput : Rel (m.put v o) (Function.update h v (h v)) := hrel.update ho
  rwa [Function.update_eq_self] at hput

theorem object (hrel : Rel m h) (halive : (h v).isSome = true) :
    (m.object v).Returns fun o => Marked (some o) (h v) := by
  have hv := hrel v
  unfold Memory.object
  cases hm : m v with
  | none =>
    rw [hm] at hv
    rw [← hv.isSome] at halive
    cases halive
  | some o =>
    rw [hm] at hv
    exact .ok hv

/-- Construction and assignment from `w`, by copy. -/
theorem copied (hrel : Rel m h) (hw : (h w).isSome = true) :
    (do let rhs ← m.object w
        let o ← rhs.copy
        return m.put v o : Except Fault (Memory α)).Returns
      fun m' => Rel m' (Function.update h v (h w)) := by
  refine (hrel.object hw).bind ?_
  intro rhs hrhs
  refine hrhs.copy.bind ?_
  intro o ho
  exact .ok (hrel.update ho)

/-- Construction and assignment from `w`, by move. -/
theorem moved (hrel : Rel m h) (hw : (h w).isSome = true) :
    (do let rhs ← m.object w
        return (m.put w .null).put v rhs : Except Fault (Memory α)).Returns
      fun m' => Rel m' (Function.update (Function.update h w (some true)) v (h w)) := by
  refine (hrel.object hw).bind ?_
  intro rhs hrhs
  exact .ok ((hrel.update (.moved .null)).update hrhs)

variable [Inhabited α]

/-- A call that takes no remainder by 0 is made, and the marks still hold. -/
theorem step {a : Call α} {h' : Marks} (hrel : Rel m h)
    (he : mayCall (fun v => (h v).isSome) a = true) (hh : h.step a = .ok h')
    (hdefined : h.RemainderDefined a h') : (m.step a).Returns fun m' => Rel m' h' := by
  cases a with
  | make v capacitysize =>
    simp only [Marks.step] at hh
    split at hh
    · cases hh
    · next hpos =>
      cases hh
      refine (Object.Whole.make hpos).bind ?_
      intro o ho
      exact .ok (hrel.update (.whole ho))
  | copy v w =>
    cases hh
    exact hrel.copied (Bool.and_eq_true_iff.1 he).2
  | move v w =>
    cases hh
    exact hrel.moved (Bool.and_eq_true_iff.1 he).2
  | assign v w =>
    cases hh
    exact hrel.copied (Bool.and_eq_true_iff.1 he).2
  | moveAssign v w =>
    cases hh
    exact hrel.moved (Bool.and_eq_true_iff.1 he).2
  | swap v w =>
    cases hh
    obtain ⟨hv, hw⟩ := Bool.and_eq_true_iff.1 he
    refine (hrel.object hv).bind ?_
    intro lhs hlhs
    refine (hrel.object hw).bind ?_
    intro rhs hrhs
    exact .ok ((hrel.update hrhs).update hlhs)
  | pushBack v item =>
    cases hh
    refine (hrel.object he).bind ?_
    intro o ho
    change h v = some false at hdefined
    rw [hdefined] at ho
    refine (ho.whole_of_false.pushBack item).bind ?_
    intro result hw
    exact .ok (hrel.put (hdefined ▸ .whole hw))
  | popFront v =>
    cases hh
    refine (hrel.object he).bind ?_
    intro o ho
    refine ho.popFront.bind ?_
    intro o' ho'
    exact .ok (hrel.put ho')
  | front v =>
    cases hh
    refine (hrel.object he).bind ?_
    intro o ho
    exact ho.front.bind fun _ _ => .ok hrel
  | size v =>
    cases hh
    refine (hrel.object he).bind ?_
    intro o ho
    rw [show h v = some false from hdefined] at ho
    exact ho.whole_of_false.size.bind fun _ _ => .ok hrel
  | empty v =>
    cases hh
    exact (hrel.object he).bind fun _ _ => .ok hrel
  | full v =>
    cases hh
    refine (hrel.object he).bind ?_
    intro o ho
    rw [show h v = some false from hdefined] at ho
    exact ho.whole_of_false.full.bind fun _ _ => .ok hrel
  | destroy v =>
    cases hh
    exact .ok (hrel.update .gone)

omit [Inhabited α] in
theorem object_hollow (hrel : Rel m h) (halive : (h v).isSome = true) (hv : h v ≠ some false) :
    ∃ o, m.object v = .ok o ∧ o.Hollow := by
  obtain ⟨o, ho, hmark⟩ := hrel.object halive
  generalize h v = b at hmark hv
  cases hmark with
  | whole _ => exact absurd rfl hv
  | moved hh => exact ⟨o, ho, hh⟩

/-- The other calls divide by 0. -/
theorem step_error {a : Call α} {h' : Marks} (hrel : Rel m h)
    (he : mayCall (fun v => (h v).isSome) a = true) (hnot : ¬ h.RemainderDefined a h') :
    m.step a = .error .divideByZero := by
  cases a with
  | size v =>
    obtain ⟨o, ho, hh⟩ := hrel.object_hollow he hnot
    rw [Memory.step, ho]
    show (o.size >>= _) = _
    rw [hh.size]
    rfl
  | full v =>
    obtain ⟨o, ho, hh⟩ := hrel.object_hollow he hnot
    rw [Memory.step, ho]
    show (o.full >>= _) = _
    rw [hh.full]
    rfl
  | pushBack v item =>
    obtain ⟨o, ho, hh⟩ := hrel.object_hollow he hnot
    rw [Memory.step, ho]
    show (o.pushBack item >>= _) = _
    rw [hh.pushBack]
    rfl
  | make _ _ | copy _ _ | move _ _ | assign _ _ | moveAssign _ _ | swap _ _ | popFront _
  | front _ | empty _ | destroy _ => exact absurd trivial hnot

omit [Inhabited α] in
theorem whole_or_hollow (hrel : Rel m h) {o : Object α} (ho : m v = some o) :
    o.Whole ∨ o.Hollow := by
  have hv := hrel v
  rw [ho] at hv
  generalize h v = b at hv
  cases hv with
  | whole hw => exact .inl hw
  | moved hh => exact .inr hh

end Rel

/-- Of every program: it takes no remainder by 0 and stays in its arrays, and all its objects have
their positions below their capacity or are empty ones of capacity 0, exactly if it calls
`size()`, `full()` and `push_back()` on no object that is moved from. -/
theorem circularBuffers_defined_iff [Inhabited α] {as : List (Call α)} {h : Marks}
    (hr : (Marks.machine α).run (fun _ => none) as = some h) :
    (∃ m, (machine α).run (fun _ => none) as = some m ∧
      ∀ v o, m v = some o → o.Whole ∨ o.Hollow) ↔
    (Marks.machine α).StepsMeet Marks.RemainderDefined (fun _ => none) as := by
  refine Machine.exists_run_and_iff (R := Rel) (B := fun _ _ => False)
    (Q := fun m _ => ∀ v o, m v = some o → o.Whole ∨ o.Hollow) ?_ ?_ ?_ ?_ ?_
    (fun _ => Marked.gone) hr
  · intro m h a h' hrel he hh hdefined
    obtain ⟨m', hm', hrel'⟩ := hrel.step he hh hdefined
    exact ⟨(hrel.mayCall_eq a).trans he, m', hm', hrel'⟩
  · intro m h a h' m' hrel he hh hnot hen hm'
    change m.step a = .ok m' at hm'
    rw [hrel.step_error he hnot] at hm'
    cases hm'
  · intro m h a h' m' hfalse _ _
    exact hfalse
  · intro m h hrel v o ho
    exact hrel.whole_or_hollow ho
  · intro m h hfalse _
    exact hfalse

/-- A moved buffer is read, what is left of it is popped and then assigned again. -/
def movedThenAssigned : List (Call Nat) :=
  [.make 0 3, .pushBack 0 7, .move 1 0, .size 1, .popFront 0, .empty 0, .assign 0 1, .pushBack 0 8,
    .moveAssign 1 0, .swap 0 1, .full 0]

theorem movedThenAssigned_defined :
    ∃ m, (machine Nat).run (fun _ => none) movedThenAssigned = some m ∧
      ∀ v o, m v = some o → o.Whole ∨ o.Hollow := by
  have hrun : ∃ h, (Marks.machine Nat).run (fun _ => none) movedThenAssigned = some h := ⟨_, rfl⟩
  obtain ⟨h, hh⟩ := hrun
  exact (circularBuffers_defined_iff hh).2 (by decide)

/-- `size()` of a buffer that was moved from. -/
theorem movedFrom_divides_by_zero :
    (Marks.machine Nat).run (fun _ => none) [.make 0 3, .move 1 0, .size 0] ≠ none ∧
    (machine Nat).exec (fun _ => none) [.make 0 3, .move 1 0, .size 0] =
      some (.error .divideByZero) := by
  refine ⟨?_, rfl⟩
  intro hnone
  cases hnone

end Rawmd.CircularBufferMoves
