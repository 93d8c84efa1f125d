import Mathlib.Logic.Function.Basic
import Rawmd.Base.CircularBuffer
import Rawmd.Lib.Machine

/-!
# `base/circularbuffer.h`: buffers and their copies

The objects of a program that uses `circular_buffer`, with their arrays in a heap: a copy
allocates an array of its own, and an assignment swaps with a copy and deletes what it had.
`fifos` is what the class is for: each object a capacity and a list of items.  `Rel` relates the
two; besides the contents it says that no array has two owners, so that a write through one object
is not seen through another.

    m ↝ m' in the program, Rel m s → s ↝ s' among the lists, Rel m' s'      (Rel.step)
    every program follows the lists                                         (circularBuffers_fifo)
-/

namespace Rawmd

namespace CircularBuffer

variable {α : Type} [Inhabited α]

/-- An object; `buffer_` is an address. -/
structure Object where
  buffer : Nat
  capacity : Nat
  readPos : Nat
  writePos : Nat
deriving DecidableEq, Repr

namespace Object

variable (o : Object)

def size : Nat := (o.writePos + o.capacity - o.readPos) % o.capacity

def empty : Bool := o.readPos == o.writePos

def full : Bool := (o.writePos + 1) % o.capacity == o.readPos

end Object

/-- What a call returns. -/
inductive Answer (α : Type) where
  | done
  | pushed (accepted : Bool)
  | item (x : α)
deriving DecidableEq, Repr

/-- The calls on the objects `v`, `w`; `addr` is what `new T[]` returns. -/
inductive Call (α : Type) where
  | make (v addr capacitysize : Nat)
  | pushBack (v : Nat) (item : α)
  | popFront (v : Nat)
  | front (v : Nat)
  | copy (v addr w : Nat)
  | assign (v addr w : Nat)
  | destroy (v : Nat)
deriving DecidableEq, Repr

inductive Fault where
  /-- the constructor throws `std::length_error` -/
  | lengthError
  /-- an array that is not allocated -/
  | dangling
  | outOfRange
deriving DecidableEq, Repr

/-- `answers` are those of the calls so far. -/
structure Memory (α : Type) where
  heap : Nat → Option (List α)
  objects : Nat → Option Object
  answers : List (Answer α)

namespace Memory

def init : Memory α := ⟨fun _ => none, fun _ => none, []⟩

/-- `new` returns an address that is not in use; a call is on an object that exists. -/
def enabled (m : Memory α) : Call α → Bool
  | .make v addr _ => (m.objects v).isNone && (m.heap addr).isNone
  | .pushBack v _ | .popFront v | .front v | .destroy v => (m.objects v).isSome
  | .copy v addr w => (m.objects v).isNone && (m.heap addr).isNone && (m.objects w).isSome
  | .assign v addr w => (m.objects v).isSome && (m.heap addr).isNone && (m.objects w).isSome

def object (m : Memory α) (v : Nat) : Except Fault Object :=
  match m.objects v with
  | some o => .ok o
  | none => .error .dangling

def cells (m : Memory α) (o : Object) : Except Fault (List α) :=
  match m.heap o.buffer with
  | some cells => .ok cells
  | none => .error .dangling

/-- The copy constructor: a new array, filled by `std::copy`. -/
def copyOf (m : Memory α) (rhs : Object) (addr : Nat) :
    Except Fault ((Nat → Option (List α)) × Object) := do
  let cells ← m.cells rhs
  if cells.length < rhs.capacity then .error .outOfRange
  else .ok (Function.update m.heap addr (some (cells.take rhs.capacity)),
    ⟨addr, rhs.capacity, rhs.readPos, rhs.writePos⟩)

def step (m : Memory α) : Call α → Except Fault (Memory α)
  | .make v addr capacitysize =>
    if capacitysize < 1 then .error .lengthError
    else .ok {
      heap := Function.update m.heap addr (some (List.replicate capacitysize default))
      objects := Function.update m.objects v (some ⟨addr, capacitysize, 0, 0⟩)
      answers := m.answers ++ [.done] }
  | .pushBack v item => do
    let o ← m.object v
    if o.full then .ok { m with answers := m.answers ++ [.pushed false] }
    else do
      let cells ← m.cells o
      if o.writePos < cells.length then .ok {
        heap := Function.update m.heap o.buffer (some (cells.set o.writePos item))
        objects := Function.update m.objects v
          (some { o with writePos := (o.writePos + 1) % o.capacity })
        answers := m.answers ++ [.pushed true] }
      else .error .outOfRange
  | .front v => do
    let o ← m.object v
    if o.empty then .ok { m with answers := m.answers ++ [.item default] }
    else do
      let cells ← m.cells o
      match cells[o.readPos]? with
      | some x => .ok { m with answers := m.answers ++ [.item x] }
      | none => .error .outOfRange
  | .popFront v => do
    let o ← m.object v
    if o.empty then .ok { m with answers := m.answers ++ [.done] }
    else .ok {
      heap := m.heap
      objects := Function.update m.objects v
        (some { o with readPos := (o.readPos + 1) % o.capacity })
      answers := m.answers ++ [.done] }
  | .copy v addr w => do
    let rhs ← m.object w
    let (heap, o) ← m.copyOf rhs addr
    .ok ⟨heap, Function.update m.objects v (some o), m.answers ++ [.done]⟩
  | .assign v addr w => do
    let o ← m.object v
    let rhs ← m.object w
    -- the parameter is a copy; after the swap its destructor deletes the old array
    let (heap, copied) ← m.copyOf rhs addr
    .ok ⟨Function.update heap o.buffer none, Function.update m.objects v (some copied),
      m.answers ++ [.done]⟩
  | .destroy v => do
    let o ← m.object v
    .ok ⟨Function.update m.heap o.buffer none, Function.update m.objects v none,
      m.answers ++ [.done]⟩

def machine : Machine (Memory α) (Call α) Fault := ⟨enabled, step⟩

end Memory

/-! ## What the class is for -/

/-- A bounded queue: its capacity and its items. -/
structure Fifo (α : Type) where
  capacity : Nat
  items : List α

structure Fifos (α : Type) where
  store : Nat → Option (Fifo α)
  answers : List (Answer α)

namespace Fifos

def init : Fifos α := ⟨fun _ => none, []⟩

def enabled (s : Fifos α) : Call α → Bool
  | .make v _ _ => (s.store v).isNone
  | .pushBack v _ | .popFront v | .front v | .destroy v => (s.store v).isSome
  | .copy v _ w => (s.store v).isNone && (s.store w).isSome
  | .assign v _ w => (s.store v).isSome && (s.store w).isSome

/-- Only the object that is called changes. -/
def put (s : Fifos α) (v : Nat) (q : Option (Fifo α)) (answer : Answer α) : Fifos α :=
  ⟨Function.update s.store v q, s.answers ++ [answer]⟩

def step (s : Fifos α) : Call α → Except Fault (Fifos α)
  | .make v _ capacitysize =>
    if capacitysize < 1 then .error .lengthError
    else .ok (s.put v (some ⟨capacitysize, []⟩) .done)
  | .pushBack v item =>
    match s.store v with
    | some q =>
      if q.items.length = q.capacity - 1 then .ok (s.put v (some q) (.pushed false))
      else .ok (s.put v (some ⟨q.capacity, q.items ++ [item]⟩) (.pushed true))
    | none => .error .dangling
  | .front v =>
    match s.store v with
    | some q => .ok (s.put v (some q) (.item (q.items.headD default)))
    | none => .error .dangling
  | .popFront v =>
    match s.store v with
    | some q => .ok (s.put v (some ⟨q.capacity, q.items.tail⟩) .done)
    | none => .error .dangling
  | .copy v _ w | .assign v _ w => .ok (s.put v (s.store w) .done)
  | .destroy v => .ok (s.put v none .done)

def machine : Machine (Fifos α) (Call α) Fault := ⟨enabled, step⟩

end Fifos

/-! ## The objects hold the lists -/

/-- The fields of an object that has the buffer `b` at `addr`. -/
def Object.at (addr : Nat) (b : CircularBuffer α) : Object :=
  ⟨addr, b.capacity, b.readPos, b.writePos⟩

def Holds (heap : Nat → Option (List α)) (o : Object) (q : Fifo α) : Prop :=
  ∃ b : CircularBuffer α, o = .at o.buffer b ∧ heap o.buffer = some b.buffer ∧
    q = ⟨b.capacity, b.toList⟩

structure Rel (m : Memory α) (s : Fifos α) : Prop where
  answers : m.answers = s.answers
  gone : ∀ v, m.objects v = none → s.store v = none
  holds : ∀ v o, m.objects v = some o → ∃ q, s.store v = some q ∧ Holds m.heap o q
  owned : ∀ v w o o', m.objects v = some o → m.objects w = some o' → v ≠ w →
    o.buffer ≠ o'.buffer

variable {m : Memory α} {s : Fifos α} {v w addr : Nat} {o : Object}

theorem length_toList (b : CircularBuffer α) : b.toList.length = b.size := by
  simp [toList]

theorem rel_init : Rel (Memory.init (α := α)) Fifos.init :=
  ⟨rfl, fun _ _ => rfl, fun _ _ h => (nomatch h), fun _ _ _ _ h => (nomatch h)⟩

theorem Rel.object (h : Rel m s) (ho : m.objects v = some o) :
    ∃ b, o = .at o.buffer b ∧ m.heap o.buffer = some b.buffer ∧
      s.store v = some ⟨b.capacity, b.toList⟩ := by
  obtain ⟨q, hs, b, hb, hheap, rfl⟩ := h.holds v o ho
  exact ⟨b, hb, hheap, hs⟩

theorem Rel.isSome (h : Rel m s) (v : Nat) : (s.store v).isSome = (m.objects v).isSome := by
  cases ho : m.objects v with
  | none =>
    rw [h.gone v ho]
    rfl
  | some o =>
    obtain ⟨q, hs, -⟩ := h.holds v o ho
    rw [hs]
    rfl

theorem Rel.isNone (h : Rel m s) (v : Nat) : (s.store v).isNone = (m.objects v).isNone := by
  rw [← Option.not_isSome, h.isSome, Option.not_isSome]

theorem Rel.enabled (h : Rel m s) {c : Call α} (hc : m.enabled c = true) : s.enabled c = true := by
  cases c <;> simp_all [Memory.enabled, Fifos.enabled, h.isSome, h.isNone]

/-- The one kind of change: object `v` is new or gone, and the heap changes only in arrays that no
other object has. -/
theorem Rel.update (h : Rel m s) {heap : Nat → Option (List α)} {x : Option Object}
    {y : Option (Fifo α)} {a : Answer α} (hgone : x = none → y = none)
    (hholds : ∀ o, x = some o → ∃ q, y = some q ∧ Holds heap o q)
    (hne : ∀ o w o', x = some o → w ≠ v → m.objects w = some o' → o'.buffer ≠ o.buffer)
    (hheap : ∀ w o', w ≠ v → m.objects w = some o' → heap o'.buffer = m.heap o'.buffer) :
    Rel ⟨heap, Function.update m.objects v x, m.answers ++ [a]⟩ (s.put v y a) := by
  refine ⟨by simp [Fifos.put, h.answers], ?_, ?_, ?_⟩
  · intro w hw
    by_cases hwv : w = v
    · subst hwv
      simp only [Function.update_self, Fifos.put] at hw ⊢
      exact hgone hw
    · simp only [Function.update_of_ne hwv, Fifos.put] at hw ⊢
      exact h.gone w hw
  · intro w o' hw
    by_cases hwv : w = v
    · subst hwv
      simp only [Function.update_self, Fifos.put] at hw ⊢
      exact hholds o' hw
    · simp only [Function.update_of_ne hwv, Fifos.put] at hw ⊢
      obtain ⟨q, hs, b, hb, hcells, hq⟩ := h.holds w o' hw
      exact ⟨q, hs, b, hb, (hheap w o' hwv hw).trans hcells, hq⟩
  · intro w w' o₁ o₂ h₁ h₂ hww
    by_cases hw : w = v
    · subst hw
      simp only [Function.update_self, Function.update_of_ne hww.symm] at h₁ h₂
      exact (hne o₁ w' o₂ h₁ hww.symm h₂).symm
    · by_cases hw' : w' = v
      · subst hw'
        simp only [Function.update_self, Function.update_of_ne hw] at h₁ h₂
        exact hne o₂ w o₁ h₂ hw h₁
      · simp only [Function.update_of_ne hw, Function.update_of_ne hw'] at h₁ h₂
        exact h.owned w w' o₁ o₂ h₁ h₂ hww

/-- Object `v` gets other fields, its own array another content. -/
theorem Rel.write (h : Rel m s) (ho : m.objects v = some o) (b : CircularBuffer α) (a : Answer α) :
    Rel ⟨Function.update m.heap o.buffer (some b.buffer),
      Function.update m.objects v (some (.at o.buffer b)), m.answers ++ [a]⟩
      (s.put v (some ⟨b.capacity, b.toList⟩) a) := by
  refine h.update (by simp) ?_ ?_ ?_
  · intro o' ho'
    cases ho'
    exact ⟨_, rfl, b, rfl, by simp [Object.at], rfl⟩
  · intro o' w o'' ho' hw hm
    cases ho'
    exact h.owned w v o'' o hm ho hw
  · intro w o' hw hm
    exact Function.update_of_ne (h.owned w v o' o hm ho hw) ..

/-- An answer, and nothing else. -/
theorem Rel.answer (h : Rel m s) {q : Fifo α} (hq : s.store v = some q) (a : Answer α) :
    Rel { m with answers := m.answers ++ [a] } (s.put v (some q) a) := by
  have hstore : Function.update s.store v (some q) = s.store := by
    rw [← hq]
    exact Function.update_eq_self v s.store
  refine ⟨by simp [Fifos.put, h.answers], ?_, ?_, h.owned⟩
  · simpa only [Fifos.put, hstore] using h.gone
  · simpa only [Fifos.put, hstore] using h.holds

/-- An array that `new` has just returned is not one of an object. -/
theorem Rel.fresh (h : Rel m s) (haddr : m.heap addr = none) (ho : m.objects v = some o) :
    o.buffer ≠ addr := by
  rintro rfl
  obtain ⟨b, -, hheap, -⟩ := h.object ho
  rw [haddr] at hheap
  cases hheap

/-! ## Calls -/

theorem Rel.object_eq (h : Rel m s) (ho : m.objects v = some o) :
    m.object v = .ok o ∧ ∃ b, o = .at o.buffer b ∧ m.cells o = .ok b.buffer ∧
      m.heap o.buffer = some b.buffer ∧ s.store v = some ⟨b.capacity, b.toList⟩ := by
  obtain ⟨b, hb, hheap, hs⟩ := h.object ho
  refine ⟨by rw [Memory.object, ho], b, hb, ?_, hheap, hs⟩
  rw [Memory.cells, hheap]

omit [Inhabited α] in
theorem copyOf_eq (b : CircularBuffer α) (hcells : m.cells (.at addr b) = .ok b.buffer)
    (addr' : Nat) : m.copyOf (.at addr b) addr' =
      .ok (Function.update m.heap addr' (some b.buffer), .at addr' b) := by
  have hcap : ¬ b.buffer.length < (Object.at addr b).capacity := Nat.lt_irrefl _
  have htake : b.buffer.take (Object.at addr b).capacity = b.buffer := List.take_length
  rw [Memory.copyOf, hcells]
  show (if b.buffer.length < (Object.at addr b).capacity then _ else _) = _
  rw [if_neg hcap, htake]
  rfl

/-- What a call does to two related states. -/
def Agree (m : Memory α) (s : Fifos α) (c : Call α) : Prop :=
  ∃ m' s', m.step c = .ok m' ∧ s.step c = .ok s' ∧ Rel m' s'

theorem Rel.make (h : Rel m s) (haddr : m.heap addr = none) {n : Nat} (hn : 1 ≤ n) :
    Agree m s (.make v addr n) := by
  have hlt : ¬ n < 1 := by omega
  obtain ⟨b, hb⟩ : ∃ b, CircularBuffer.make (α := α) n = some b := ⟨_, dif_neg hlt⟩
  have hlist := toList_make hb
  rw [CircularBuffer.make, dif_neg hlt] at hb
  refine ⟨_, _, if_neg hlt, if_neg hlt, h.update (by simp) ?_ ?_ ?_⟩
  · rintro o ho
    cases ho
    refine ⟨_, rfl, b, ?_, ?_, ?_⟩
    · cases hb
      simp [Object.at, capacity]
    · cases hb
      simp
    · rw [hlist]
      cases hb
      simp [capacity]
  · rintro o w o' ho - hm
    cases ho
    exact h.fresh haddr hm
  · intro w o' _ hm
    exact Function.update_of_ne (h.fresh haddr hm) ..

theorem Rel.pushBack (h : Rel m s) (ho : m.objects v = some o) (item : α) :
    Agree m s (.pushBack v item) := by
  obtain ⟨hobj, b, hb, hcells, -, hs⟩ := h.object_eq ho
  have hlen := length_toList b
  have hfull : o.full = b.full := by rw [hb]; rfl
  by_cases hf : b.full = true
  · have hsize := (full_iff b).1 hf
    refine ⟨{ m with answers := m.answers ++ [.pushed false] }, s.put v (some _) (.pushed false),
      ?_, ?_, h.answer hs _⟩
    · simp only [Memory.step, hobj, bind, Except.bind, hfull, hf, if_true]
    · simp only [Fifos.step, hs]
      rw [if_pos (by omega)]
  · have hff : b.full = false := by simpa using hf
    have hsize : b.size + 1 ≠ b.capacity := fun he => hf ((full_iff b).2 he)
    have hlt : o.writePos < b.buffer.length := by rw [hb]; exact b.writePos_lt
    have hcap := capacity_pushBack (b := b) item
    have hat : Object.at o.buffer (b.pushBack item).2 =
        { o with writePos := (o.writePos + 1) % o.capacity } := by
      rw [hb, Object.at, hcap]
      simp only [CircularBuffer.pushBack, hff, Bool.false_eq_true, if_false]
      rfl
    have hbuf : (b.pushBack item).2.buffer = b.buffer.set o.writePos item := by
      rw [hb]
      simp only [CircularBuffer.pushBack, hff, Bool.false_eq_true, if_false]
      rfl
    have hrel := h.write ho (b.pushBack item).2 (.pushed true)
    rw [hat, hbuf, hcap, toList_pushBack hff] at hrel
    refine ⟨_, _, ?_, ?_, hrel⟩
    · simp only [Memory.step, hobj, bind, Except.bind, hfull, hff, Bool.false_eq_true, if_false,
        hcells, if_pos hlt]
    · simp only [Fifos.step, hs]
      rw [if_neg]
      have := b.capacity_pos
      omega

theorem toList_of_empty {b : CircularBuffer α} (h : b.empty = true) : b.toList = [] := by
  rw [← List.length_eq_zero_iff, length_toList]
  exact (empty_iff b).1 h

theorem Rel.front (h : Rel m s) (ho : m.objects v = some o) : Agree m s (.front v) := by
  obtain ⟨hobj, b, hb, hcells, -, hs⟩ := h.object_eq ho
  have hempty : o.empty = b.empty := by rw [hb]; rfl
  have hread : o.readPos = b.readPos := by rw [hb]; rfl
  by_cases he : b.empty = true
  · refine ⟨{ m with answers := m.answers ++ [.item default] }, _, ?_, ?_, h.answer hs _⟩
    · simp only [Memory.step, hobj, bind, Except.bind, hempty, he, if_true]
    · simp only [Fifos.step, hs, toList_of_empty he, List.headD_nil]
  · have hef : b.empty = false := by simpa using he
    have hget : b.buffer[b.readPos]? = some (b.buffer.getD b.readPos default) := by
      rw [List.getD_eq_getElem?_getD, List.getElem?_eq_getElem b.readPos_lt]
      rfl
    have hhead : b.toList.headD default = b.buffer.getD b.readPos default := by
      rw [toList_popFront hef, List.headD_cons, CircularBuffer.front, hef]
      rfl
    refine ⟨{ m with answers := m.answers ++ [.item (b.buffer.getD b.readPos default)] }, _,
      ?_, ?_, h.answer hs _⟩
    · simp only [Memory.step, hobj, bind, Except.bind, hempty, hef, Bool.false_eq_true, if_false,
        hcells, hread, hget]
    · simp only [Fifos.step, hs, hhead]

theorem Rel.popFront (h : Rel m s) (ho : m.objects v = some o) : Agree m s (.popFront v) := by
  obtain ⟨hobj, b, hb, -, hown, hs⟩ := h.object_eq ho
  have hempty : o.empty = b.empty := by rw [hb]; rfl
  by_cases he : b.empty = true
  · refine ⟨{ m with answers := m.answers ++ [.done] }, s.put v (some ⟨b.capacity, b.toList⟩) .done,
      ?_, ?_, h.answer hs _⟩
    · simp only [Memory.step, hobj, bind, Except.bind, hempty, he, if_true]
    · simp only [Fifos.step, hs, toList_of_empty he, List.tail_nil]
  · have hef : b.empty = false := by simpa using he
    have hat : Object.at o.buffer b.popFront =
        { o with readPos := (o.readPos + 1) % o.capacity } := by
      rw [hb]
      simp only [CircularBuffer.popFront, hef, Bool.false_eq_true, if_false]
      rfl
    have hbuf : b.popFront.buffer = b.buffer := by
      simp only [CircularBuffer.popFront, hef, Bool.false_eq_true, if_false]
    have hheap : Function.update m.heap o.buffer (some b.buffer) = m.heap := by
      rw [← hown]
      exact Function.update_eq_self ..
    have hrel := h.write ho b.popFront .done
    rw [hat, hbuf, hheap, capacity_popFront] at hrel
    refine ⟨_, _, ?_, ?_, hrel⟩
    · simp only [Memory.step, hobj, bind, Except.bind, hempty, hef, Bool.false_eq_true, if_false]
    · simp only [Fifos.step, hs]
      rw [toList_popFront hef, List.tail_cons]

/-- The copy that the constructor and the parameter of `operator=` make. -/
theorem Rel.copyOf (h : Rel m s) (ho : m.objects w = some o) (addr : Nat) :
    m.object w = .ok o ∧ ∃ b : CircularBuffer α,
      m.copyOf o addr = .ok (Function.update m.heap addr (some b.buffer), .at addr b) ∧
      s.store w = some ⟨b.capacity, b.toList⟩ := by
  obtain ⟨hobj, b, hb, hcells, -, hs⟩ := h.object_eq ho
  refine ⟨hobj, b, ?_, hs⟩
  rw [hb] at hcells ⊢
  exact copyOf_eq b hcells addr

theorem Rel.copy (h : Rel m s) (haddr : m.heap addr = none) (ho : m.objects w = some o) :
    Agree m s (.copy v addr w) := by
  obtain ⟨hobj, b, hcopy, hs⟩ := h.copyOf ho addr
  refine ⟨⟨Function.update m.heap addr (some b.buffer),
    Function.update m.objects v (some (.at addr b)), m.answers ++ [.done]⟩,
    s.put v (some ⟨b.capacity, b.toList⟩) .done, ?_, ?_, h.update (by simp) ?_ ?_ ?_⟩
  · simp only [Memory.step, hobj, bind, Except.bind, hcopy]
  · simp only [Fifos.step, hs]
  · intro o' ho'
    cases ho'
    exact ⟨_, rfl, b, rfl, by simp [Object.at], rfl⟩
  · rintro o' w' o'' ho' - hm
    cases ho'
    exact h.fresh haddr hm
  · intro w' o' _ hm
    exact Function.update_of_ne (h.fresh haddr hm) ..

theorem Rel.assign (h : Rel m s) (haddr : m.heap addr = none) (hv : m.objects v = some o)
    {o' : Object} (ho : m.objects w = some o') : Agree m s (.assign v addr w) := by
  obtain ⟨hobj, b, hcopy, hs⟩ := h.copyOf ho addr
  have hobj' : m.object v = .ok o := by rw [Memory.object, hv]
  have hne : o.buffer ≠ addr := h.fresh haddr hv
  refine ⟨⟨Function.update (Function.update m.heap addr (some b.buffer)) o.buffer none,
    Function.update m.objects v (some (.at addr b)), m.answers ++ [.done]⟩,
    s.put v (some ⟨b.capacity, b.toList⟩) .done, ?_, ?_, h.update (by simp) ?_ ?_ ?_⟩
  · simp only [Memory.step, hobj, hobj', bind, Except.bind, hcopy]
  · simp only [Fifos.step, hs]
  · intro o'' ho''
    cases ho''
    refine ⟨_, rfl, b, rfl, ?_, rfl⟩
    rw [Function.update_of_ne (show (Object.at addr b).buffer ≠ o.buffer from hne.symm)]
    exact Function.update_self ..
  · rintro o'' w' o₁ ho'' - hm
    cases ho''
    exact h.fresh haddr hm
  · intro w' o₁ hw hm
    rw [Function.update_of_ne (h.owned w' v o₁ o hm hv hw),
      Function.update_of_ne (h.fresh haddr hm)]

theorem Rel.destroy (h : Rel m s) (hv : m.objects v = some o) : Agree m s (.destroy v) := by
  have hobj : m.object v = .ok o := by rw [Memory.object, hv]
  refine ⟨⟨Function.update m.heap o.buffer none, Function.update m.objects v none,
    m.answers ++ [.done]⟩, s.put v none .done, ?_, rfl, h.update (fun _ => rfl) ?_ ?_ ?_⟩
  · simp only [Memory.step, hobj, bind, Except.bind]
  · intro o' ho'
    cases ho'
  · intro o' w' o'' ho'
    cases ho'
  · intro w' o' hw hm
    exact Function.update_of_ne (h.owned w' v o' o hm hv hw) ..

/-- The constructor is the only call that can fail, for a capacity of zero. -/
def Call.Fits : Call α → Prop
  | .make _ _ capacitysize => 1 ≤ capacitysize
  | _ => True

theorem Rel.step (h : Rel m s) {c : Call α} (hc : m.enabled c = true) (hfits : c.Fits) :
    Agree m s c := by
  cases c <;> simp only [Memory.enabled, Bool.and_eq_true, Option.isNone_iff_eq_none,
    Option.isSome_iff_exists] at hc
  case make v addr n => exact h.make hc.2 hfits
  case pushBack v item =>
    obtain ⟨o, ho⟩ := hc
    exact h.pushBack ho item
  case popFront v =>
    obtain ⟨o, ho⟩ := hc
    exact h.popFront ho
  case front v =>
    obtain ⟨o, ho⟩ := hc
    exact h.front ho
  case copy v addr w =>
    obtain ⟨⟨-, haddr⟩, o, ho⟩ := hc
    exact h.copy haddr ho
  case assign v addr w =>
    obtain ⟨⟨⟨o, hv⟩, haddr⟩, o', ho⟩ := hc
    exact h.assign haddr hv ho
  case destroy v =>
    obtain ⟨o, ho⟩ := hc
    exact h.destroy ho

theorem fits_of_step {c : Call α} {m' : Memory α} (h : m.step c = .ok m') : c.Fits := by
  cases c with
  | make v addr n =>
    simp only [Memory.step] at h
    split at h
    · cases h
    · next hn => exact Nat.le_of_not_lt hn
  | _ => trivial

theorem Rel.run {m m' : Memory α} {s : Fifos α} (h : Rel m s) {cs : List (Call α)}
    (hr : Memory.machine.run m cs = some m') :
    ∃ s', Fifos.machine.run s cs = some s' ∧ Rel m' s' := by
  refine (Fifos.machine.exists_run_and_iff (H := Memory.machine) (R := fun s m => Rel m s)
    (B := fun _ _ => False) (Q := fun s m => Rel m s) (P := fun _ _ _ => True) ?_ ?_ ?_ ?_ ?_ h
    hr).2 (Machine.stepsMeet_true m cs)
  · intro s m c m' hrel hen hstep _
    obtain ⟨m'', s', hm, hs, hrel'⟩ := hrel.step hen (fits_of_step hstep)
    cases hstep.symm.trans hm
    exact ⟨hrel.enabled hen, s', hs, hrel'⟩
  · intro s m c m' s' _ _ _ hnot
    exact absurd trivial hnot
  · exact fun _ _ _ _ _ hb _ _ => hb
  · exact fun _ _ hrel => hrel
  · exact fun _ _ hb _ => hb

/-- What can be seen of an object is what its list says. -/
theorem Rel.observe (h : Rel m s) (ho : m.objects v = some o) :
    ∃ q, s.store v = some q ∧ o.capacity = q.capacity ∧ 1 ≤ q.capacity ∧
      o.size = q.items.length ∧ (o.empty = true ↔ q.items = []) ∧
      (o.full = true ↔ q.items.length = q.capacity - 1) := by
  obtain ⟨b, hb, -, hs⟩ := h.object ho
  have hlen := length_toList b
  have hpos := b.capacity_pos
  refine ⟨_, hs, ?_, hpos, ?_, ?_, ?_⟩
  · rw [hb]
    rfl
  · rw [hb]
    exact hlen.symm
  · rw [← List.length_eq_zero_iff, hlen, ← empty_iff, hb]
    rfl
  · have hfull : o.full = b.full := by rw [hb]; rfl
    rw [hfull, full_iff, hlen]
    dsimp only
    omega

/-- Whatever a program does with buffers and their copies, each of them is the bounded queue that
its own calls make, and no call faults but a constructor with capacity zero. -/
theorem circularBuffers_fifo {cs : List (Call α)} {m : Memory α}
    (hr : Memory.machine.run Memory.init cs = some m) :
    (∃ s, Fifos.machine.run Fifos.init cs = some s ∧ m.answers = s.answers ∧
      ∀ v, (m.objects v = none ↔ s.store v = none) ∧
        ∀ o, m.objects v = some o → ∃ q, s.store v = some q ∧ o.capacity = q.capacity ∧
          1 ≤ q.capacity ∧ o.size = q.items.length ∧ (o.empty = true ↔ q.items = []) ∧
          (o.full = true ↔ q.items.length = q.capacity - 1)) ∧
    ∀ c, m.enabled c = true → c.Fits → ∃ m', m.step c = .ok m' := by
  obtain ⟨s, hs, hrel⟩ := rel_init.run hr
  refine ⟨⟨s, hs, hrel.answers, ?_⟩, ?_⟩
  · intro v
    refine ⟨⟨hrel.gone v, ?_⟩, fun o ho => hrel.observe ho⟩
    intro hnone
    have := hrel.isNone v
    rw [hnone] at this
    exact Option.isNone_iff_eq_none.1 this.symm
  · intro c hen hfits
    obtain ⟨m', -, hm, -⟩ := hrel.step hen hfits
    exact ⟨m', hm⟩

/-- A buffer that has gone round once, a copy of it, and calls on both. -/
def copied : List (Call Nat) :=
  [.make 0 64 2, .pushBack 0 5, .popFront 0, .pushBack 0 6, .copy 1 80 0, .popFront 0, .front 0,
    .front 1, .pushBack 1 7]

theorem circularBuffers_fifo_copied :
    ∃ m s, Memory.machine.run Memory.init copied = some m ∧
      Fifos.machine.run Fifos.init copied = some s ∧ m.answers = s.answers := by
  have hr : Memory.machine.run Memory.init copied = some _ := rfl
  obtain ⟨⟨s, hs, ha, -⟩, -⟩ := circularBuffers_fifo hr
  exact ⟨_, s, hr, hs, ha⟩

end CircularBuffer

end Rawmd
