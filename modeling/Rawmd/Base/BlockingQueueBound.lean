import Rawmd.Base.BlockingQueue

/-!
# `base/BoundedBlockingQueue.h`: how many items fit

`queue_` has `maxSize` cells, one of which always stays free.

    StatesMeet (HoldsMaxSize maxSize) ↔ 2 ≤ maxSize and no put comes to the last cell but one
                                                                        (holdsMaxSize_iff)
-/

namespace Rawmd

namespace BoundedBlockingQueue

variable {α : Type} {s s' : State α} {t : Nat} {x : α} {p : Nat → Bool}

/-- A queue of `maxSize` items: `put` waits only if that many are queued, and not if none is. -/
structure HoldsMaxSize [Inhabited α] (maxSize : Nat) (s : State α) : Prop where
  capacity : s.queue.capacity = maxSize
  full_iff : s.queue.full = true ↔ s.queue.size = s.queue.capacity
  waits : ∀ t x p s', s.put t x p = .ok s' → s'.puts = s.puts → s.queue.toList.length = maxSize
  puts : s.queue.empty = true → ∀ t x p, ∃ s', s.put t x p = .ok s' ∧ s'.puts = s.puts ++ [x]
  empty_full : ¬ (s.queue.empty = true ∧ s.queue.full = true)

/-! ## What the operations do -/

theorem capacity_put (h : s.put t x p = .ok s') : s'.queue.capacity = s.queue.capacity := by
  obtain ⟨-, rfl⟩ | ⟨-, rfl⟩ := put_cases h
  · rfl
  · exact CircularBuffer.capacity_pushBack x

/-- A `put` adds an item where the queue is not full. -/
theorem puts_put (hfull : s.queue.full = false) (h : s.put t x p = .ok s') :
    s'.puts.length = s.puts.length + 1 ∧ s'.taken = s.taken := by
  obtain ⟨hfull', -⟩ | ⟨-, rfl⟩ := put_cases h
  · rw [hfull] at hfull'
    cases hfull'
  · exact ⟨List.length_append, rfl⟩

variable [Inhabited α]

theorem capacity_take (h : s.take t p = .ok s') : s'.queue.capacity = s.queue.capacity := by
  obtain ⟨-, rfl⟩ | ⟨-, rfl⟩ := take_cases h
  · rfl
  · exact CircularBuffer.capacity_popFront

theorem puts_take (h : s.take t p = .ok s') :
    s'.puts = s.puts ∧ s.taken.length ≤ s'.taken.length := by
  obtain ⟨-, rfl⟩ | ⟨-, rfl⟩ := take_cases h
  · exact ⟨rfl, Nat.le_refl _⟩
  · exact ⟨rfl, by simp⟩

/-! ## States -/

/-- The items are those that were put and not yet taken, in `maxSize` cells. -/
structure Sized (maxSize : Nat) (s : State α) : Prop where
  fair : Fair s
  capacity : s.queue.capacity = maxSize

theorem length_toList (s : State α) : s.queue.toList.length = s.queue.size := by
  rw [CircularBuffer.toList, List.length_map, List.length_range]

theorem Sized.size {maxSize : Nat} (h : Sized maxSize s) :
    s.taken.length + s.queue.size = s.puts.length := by
  rw [← h.fair.order, List.length_append, length_toList]

theorem Sized.full_eq_false {maxSize : Nat} (h : Sized maxSize s)
    (hfew : s.puts.length + 1 < s.taken.length + maxSize) : s.queue.full = false := by
  have hsize := h.size
  rw [← Bool.not_eq_true, CircularBuffer.full_iff, h.capacity]
  omega

/-- The queue is as large as it should be exactly where it is not full. -/
theorem Sized.holds_iff {maxSize : Nat} (h : Sized maxSize s) :
    HoldsMaxSize maxSize s ↔ s.puts.length + 1 < s.taken.length + maxSize := by
  have hsize := h.size
  have hlt := CircularBuffer.size_lt s.queue
  rw [h.capacity] at hlt
  constructor
  · intro hholds
    have hfull : s.queue.full = false := by
      cases hfull : s.queue.full with
      | false => rfl
      | true =>
        have := hholds.full_iff.1 hfull
        have := h.capacity
        omega
    have hne : s.queue.size + 1 ≠ s.queue.capacity := by
      rw [ne_eq, ← CircularBuffer.full_iff, hfull]
      decide
    rw [h.capacity] at hne
    omega
  · intro hfew
    have hfull := h.full_eq_false hfew
    have hput (t : Nat) (x : α) (p : Nat → Bool) :
        ∃ s', s.put t x p = .ok s' ∧ s'.puts = s.puts ++ [x] := by
      rw [State.put, hfull, if_neg (by decide), State.finishPut, hfull, if_neg (by decide)]
      exact ⟨_, rfl, rfl⟩
    constructor
    · exact h.capacity
    · rw [hfull, h.capacity]
      exact iff_of_false (by decide) (by omega)
    · intro t x p s' hs' hsame
      obtain ⟨s'', hs'', hputs⟩ := hput t x p
      rw [hs'] at hs''
      cases hs''
      rw [hsame] at hputs
      exact absurd hputs (by simp)
    · intro _ t x p
      exact hput t x p
    · rw [hfull]
      exact fun hboth => absurd hboth.2 (by decide)

/-! ## Runs -/

/-- A `put` leaves two cells free at least. -/
def PutsFit (maxSize : Nat) (s : State α) (a : Action α) (_ : State α) : Prop :=
  match a with
  | .put .. | .resumePut .. => s.puts.length + 2 < s.taken.length + maxSize
  | _ => True

theorem capacity_step {a : Action α} (h : step s a = .ok s') :
    s'.queue.capacity = s.queue.capacity := by
  cases a with
  | put t x p => exact capacity_put h
  | resumePut t p =>
    have hcapacity := capacity_put h
    exact hcapacity
  | wakePut t =>
    cases h
    rfl
  | take t p => exact capacity_take h
  | resumeTake t p =>
    have hcapacity := capacity_take h
    exact hcapacity
  | wakeTake t =>
    cases h
    rfl

theorem Sized.init {maxSize : Nat} {queue : CircularBuffer α}
    (h : CircularBuffer.make maxSize = some queue) : Sized maxSize (init queue) :=
  ⟨.init h, (CircularBuffer.size_make h).2⟩

theorem Sized.safe (maxSize : Nat) : (machine α).Safe (Sized maxSize) := by
  intro s a h he
  obtain ⟨s', hs', hfair⟩ := Fair.safe s a h.fair he
  exact ⟨s', hs', hfair, (capacity_step hs').trans h.capacity⟩

theorem Sized.step_iff {maxSize : Nat} {a : Action α} (hs : Sized maxSize s)
    (hholds : HoldsMaxSize maxSize s) (he : enabled s a = true) (h : step s a = .ok s') :
    HoldsMaxSize maxSize s' ↔ PutsFit maxSize s a s' := by
  have hs' : Sized maxSize s' := (Sized.safe maxSize).keeps s a s' hs trivial he h
  have hfew := hs.holds_iff.1 hholds
  have hfull := hs.full_eq_false hfew
  rw [hs'.holds_iff]
  cases a with
  | put t x p =>
    obtain ⟨hputs, htaken⟩ := puts_put hfull h
    rw [hputs, htaken]
    exact Iff.rfl
  | resumePut t p =>
    obtain ⟨hputs, htaken⟩ := puts_put (s := { s with notFull := s.notFull.resume t }) hfull h
    rw [hputs, htaken]
    exact Iff.rfl
  | wakePut t =>
    cases h
    exact iff_of_true hfew trivial
  | take t p =>
    obtain ⟨hputs, htaken⟩ := puts_take h
    rw [hputs]
    exact iff_of_true (by omega) trivial
  | resumeTake t p =>
    obtain ⟨hputs, htaken⟩ := puts_take h
    rw [hputs]
    exact iff_of_true (by dsimp only at htaken ⊢; omega) trivial
  | wakeTake t =>
    cases h
    exact iff_of_true hfew trivial

/-- **The queue holds one item less than `maxSize`**: it behaves as one of `maxSize` items as long
as two cells are free, and with a single cell never. -/
theorem holdsMaxSize_iff {maxSize : Nat} {queue : CircularBuffer α}
    (hq : CircularBuffer.make maxSize = some queue) (as : List (Action α))
    (hr : (machine α).run (init queue) as = some s) :
    ((machine α).StatesMeet (HoldsMaxSize maxSize) (init queue) as ↔
      2 ≤ maxSize ∧ (machine α).StepsMeet (PutsFit maxSize) (init queue) as) ∧
    (HoldsMaxSize maxSize s ↔ s.puts.length + 1 < s.taken.length + maxSize) := by
  have hinit := Sized.init hq
  have hfirst : HoldsMaxSize maxSize (init queue) ↔ 2 ≤ maxSize := by
    rw [hinit.holds_iff]
    show 0 + 1 < 0 + maxSize ↔ _
    omega
  refine ⟨?_, ((Sized.safe maxSize).run hinit hr).holds_iff⟩
  by_cases hmax : 2 ≤ maxSize
  · have hiff := (Sized.safe maxSize).statesMeet_iff_stepsMeet
      (fun _ _ _ hs hholds he h => hs.step_iff hholds he h) hinit (hfirst.2 hmax) hr
    rw [hiff]
    exact ⟨fun h => ⟨hmax, h⟩, fun h => h.2⟩
  · refine iff_of_false (fun hall => hmax (hfirst.1 ?_)) (fun h => hmax h.1)
    exact hall.head

def onePut : List (Action Nat) := [.put 1 7 fun _ => true]

theorem onePut_fits :
    ∃ queue s, CircularBuffer.make 3 = some queue ∧
      (machine Nat).run (init queue) onePut = some s ∧
      (machine Nat).StatesMeet (HoldsMaxSize 3) (init queue) onePut := by
  refine ⟨_, _, rfl, rfl, (holdsMaxSize_iff rfl onePut rfl).1.2 ⟨by decide, ?_⟩⟩
  intro s' _
  exact ⟨by show 0 + 2 < 0 + 3; decide, trivial⟩

/-- A queue of size 1 is empty and full, and the first producer waits. -/
theorem onePut_waits :
    ∃ queue s, CircularBuffer.make 1 = some queue ∧
      (machine Nat).run (init queue) onePut = some s ∧
      s.queue.empty = true ∧ s.queue.full = true ∧ s.queue.size ≠ s.queue.capacity ∧
      s.notFull.waiting = [1] ∧ s.puts = [] ∧ ¬ HoldsMaxSize 1 s :=
  ⟨_, _, rfl, rfl, rfl, rfl, by decide, rfl, rfl, fun h => h.empty_full ⟨rfl, rfl⟩⟩

end BoundedBlockingQueue

end Rawmd
