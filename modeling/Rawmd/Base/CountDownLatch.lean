import Rawmd.Lib.CondVar
import Rawmd.Lib.Machine
import Rawmd.Lib.MachineInt

/-!
# `base/CountDownLatch.cpp`: threads that wait for a number of events

A critical section is one action.  `wait` is the part of the loop up to `condition_.wait()` or
to the return; a thread that is back from `condition_.wait()` goes on with `resume`, which is the
same test again.  `downs` and `returns` are no part of the object: the calls of `countDown` so
far, and what they were at each return of `wait`.

The broadcast is made on one transition only, from 1 to 0.  It is enough since a thread that
comes later does not wait at all, and further calls of `countDown` leave `count_` below 0.
-/

namespace Rawmd.CountDownLatch

structure State where
  count : Int
  condition : CondVar Nat
  downs : Nat
  returns : List Nat

inductive Fault where
  /-- `--count_` below the least `int` -/
  | overflow
deriving DecidableEq

/-- The constructor. -/
def init (count : Int) : State := ⟨count, .init, 0, []⟩

namespace State

variable (s : State)

/-- `while (count_ > 0) condition_.wait();`, to the next wait of thread `t` or its return. -/
def wait (t : Nat) : State :=
  if s.count > 0 then { s with condition := s.condition.wait t }
  else { s with returns := s.returns ++ [s.downs] }

def countDown : Except Fault State :=
  match MachineInt.sub 32 s.count 1 with
  | none => .error .overflow
  | some count =>
    .ok { s with
      count := count
      condition := if count = 0 then s.condition.notifyAll else s.condition
      downs := s.downs + 1 }

def getCount : Int := s.count

end State

inductive Action where
  | wait (t : Nat)
  | countDown (t : Nat)
  /-- a spurious wakeup -/
  | wake (t : Nat)
  /-- `condition_.wait()` returns, with the mutex -/
  | resume (t : Nat)

def enabled (s : State) : Action → Bool
  | .wait t | .countDown t => !s.condition.blocks t
  | .wake t => decide (t ∈ s.condition.waiting)
  | .resume t => decide (t ∈ s.condition.woken)

def step (s : State) : Action → Except Fault State
  | .wait t => .ok (s.wait t)
  | .countDown _ => s.countDown
  | .wake t => .ok { s with condition := s.condition.wake t }
  | .resume t => .ok ({ s with condition := s.condition.resume t }.wait t)

def machine : Machine State Action Fault := ⟨enabled, step⟩

def Action.isCountDown : Action → Bool
  | .countDown _ => true
  | _ => false

/-! ## The states of a latch of `n` events -/

structure Latch (n : Nat) (s : State) : Prop where
  count : s.getCount = n - s.downs
  /-- no thread waits once nothing is left to wait for -/
  signalled : s.getCount ≤ 0 → s.condition.waiting = []
  returns : ∀ d ∈ s.returns, n ≤ d

variable {n : Nat} {s : State}

theorem Latch.init (n : Nat) : Latch n (init n) where
  count := (Int.sub_zero _).symm
  signalled _ := rfl
  returns _ hd := absurd hd List.not_mem_nil

theorem Latch.wait (h : Latch n s) (t : Nat) : Latch n (s.wait t) := by
  have hcount := h.count
  unfold State.getCount at hcount
  unfold State.wait
  split
  · next hpos => exact ⟨h.count, fun hle => absurd hpos (Int.not_lt.2 hle), h.returns⟩
  · next hpos =>
    refine ⟨h.count, h.signalled, ?_⟩
    intro d hd
    rcases List.mem_append.1 hd with hd | hd
    · exact h.returns d hd
    · rw [List.mem_singleton.1 hd]
      omega

/-- Only the waiting threads matter, and none is added. -/
theorem Latch.setCondition (h : Latch n s) {condition : CondVar Nat}
    (hw : s.condition.waiting = [] → condition.waiting = []) :
    Latch n { s with condition := condition } :=
  ⟨h.count, fun hle => hw (h.signalled hle), h.returns⟩

theorem Latch.wake (h : Latch n s) (t : Nat) :
    Latch n { s with condition := s.condition.wake t } := by
  refine h.setCondition ?_
  intro hw
  show s.condition.waiting.erase t = []
  rw [hw]
  rfl

theorem Latch.resume (h : Latch n s) (t : Nat) :
    Latch n ({ s with condition := s.condition.resume t }.wait t) := by
  have hs : Latch n { s with condition := s.condition.resume t } := h.setCondition (fun hw => hw)
  exact hs.wait t

theorem Latch.countDown (h : Latch n s) (hn : n < 2 ^ 31) (hd : s.downs + 1 < 2 ^ 31) :
    ∃ s', s.countDown = .ok s' ∧ Latch n s' ∧ s'.downs = s.downs + 1 := by
  have hcount := h.count
  unfold State.getCount at hcount
  have hsub : MachineInt.sub 32 s.count 1 = some (s.count - 1) :=
    MachineInt.sub_32 (by omega) (by omega)
  rw [State.countDown, hsub]
  refine ⟨_, rfl, ⟨?_, ?_, h.returns⟩, rfl⟩
  · show s.count - 1 = n - ((s.downs + 1 : Nat) : Int)
    omega
  · intro hle
    show (if s.count - 1 = 0 then s.condition.notifyAll else s.condition).waiting = []
    change s.count - 1 ≤ 0 at hle
    by_cases hzero : s.count - 1 = 0
    · rw [if_pos hzero]
      exact CondVar.waiting_notifyAll _
    · rw [if_neg hzero]
      refine h.signalled ?_
      show s.count ≤ 0
      omega

theorem Latch.step (hn : n < 2 ^ 31) (a : Action) (h : Latch n s)
    (hlt : s.downs + [a].countP Action.isCountDown < 2 ^ 31) :
    ∃ s', step s a = .ok s' ∧ Latch n s' ∧
      s'.downs = s.downs + [a].countP Action.isCountDown := by
  have hwait (s : State) (t : Nat) : (s.wait t).downs = s.downs := by
    unfold State.wait
    split <;> rfl
  cases a with
  | wait t => exact ⟨_, rfl, h.wait t, hwait s t⟩
  | countDown t => exact h.countDown hn hlt
  | wake t => exact ⟨_, rfl, h.wake t, rfl⟩
  | resume t => exact ⟨_, rfl, h.resume t, hwait _ t⟩

/-- However the calls are interleaved: `count_` does not overflow, no `wait` returns before `n`
calls of `countDown`, and from the `n`-th on no thread waits without having been signalled. -/
theorem releases_at_zero {n : Nat} (hn : n < 2 ^ 31) {as : List Action} {r : Except Fault State}
    (hr : machine.exec (init n) as = some r) (hdowns : as.countP Action.isCountDown < 2 ^ 31) :
    ∃ s, r = .ok s ∧ s.downs = as.countP Action.isCountDown ∧ (∀ d ∈ s.returns, n ≤ d) ∧
      (n ≤ as.countP Action.isCountDown → s.condition.waiting = []) := by
  obtain ⟨s, hs, hlatch, hcount⟩ :=
    Machine.exec_isOk_of_countP_lt State.downs Action.isCountDown
      (fun s a h _ hlt => Latch.step hn a h hlt) (Latch.init n) hr
      (by rw [show (init n).downs = 0 from rfl]; omega)
  rw [show (init n).downs = 0 from rfl, Nat.zero_add] at hcount
  refine ⟨s, hs, hcount, hlatch.returns, ?_⟩
  intro hle
  refine hlatch.signalled ?_
  rw [hlatch.count]
  omega

/-- Thread 1 waits, is woken spuriously and waits again; thread 2 counts down twice, and once
more after the broadcast. -/
theorem releases_at_zero_two : ∃ s,
    machine.exec (init 2) [.wait 1, .countDown 2, .wake 1, .resume 1, .countDown 2, .resume 1,
      .countDown 2] = some (.ok s) ∧
    s.returns = [2] ∧ s.count = -1 ∧ s.condition.waiting = [] := by
  have hrun : ∃ s, machine.exec (init 2) [.wait 1, .countDown 2, .wake 1, .resume 1, .countDown 2,
      .resume 1, .countDown 2] = some (.ok s) ∧ s.returns = [2] ∧ s.count = -1 :=
    ⟨_, rfl, by decide, by decide⟩
  obtain ⟨s, hs, hreturns, hcount⟩ := hrun
  obtain ⟨s', hs', -, -, hw⟩ := releases_at_zero (n := 2) (by decide) hs (by decide)
  cases hs'
  exact ⟨s, hs, hreturns, hcount, hw (by decide)⟩

end Rawmd.CountDownLatch
