import Rawmd.Lib.Machine
import Mathlib.Algebra.Group.Nat.Defs
import Mathlib.Logic.Function.Basic

/-!
# `net/EventLoop.cpp`: the loop, its functors and its wakeup eventfd

`φ` is the type of functors.  The loop thread's position in `loop()` is `pc`; every other
thread, and the loop thread inside a callback or a functor, may be inside a call of
`queueInLoop` or `quit` (`calls`).  The atomic steps are the mutex-protected `push_back`, the
test that decides on the wakeup, the write and the read of the eventfd, the swap of
`doPendingFunctors` and each call of a functor or an event callback; `machine` interleaves
them in any order.  What a callback or a functor does are further actions of the loop thread
while it is at `event` or `functor`.
-/

namespace Rawmd

/-- A thread id (`CurrentThread::tid()`). -/
abbrev Tid := Nat

/-- An active channel: the wakeup channel or some other one. -/
inductive ActiveChannel where
  | wakeup
  | other (n : Nat)
deriving DecidableEq

namespace EventLoop

/-- `eventfd(0, EFD_NONBLOCK)`: a write adds one, and fails with `EAGAIN` at the maximum. -/
def eventfdWrite (counter : Nat) : Nat :=
  if counter + 1 ≤ 2 ^ 64 - 2 then counter + 1 else counter

/-- Where the loop thread is. -/
inductive Pc (φ : Type) where
  /-- not in `loop()` -/
  | outside
  /-- at `while (!quit_)` -/
  | test
  /-- about to call `poller_->poll` -/
  | poll
  /-- at the loop over `activeChannels_`, with these left -/
  | events (active : List ActiveChannel)
  /-- in `EventLoop::handleRead` -/
  | reading (active : List ActiveChannel)
  /-- in another channel's event callback -/
  | event (active : List ActiveChannel)
  /-- in `doPendingFunctors`, before the mutex -/
  | swap
  /-- at the loop over the local `functors`, with these left -/
  | functors (rest : List φ)
  /-- in `functors[i]()` -/
  | functor (rest : List φ)

/-- What a thread is doing in `queueInLoop` or `quit`. -/
inductive Call where
  | idle
  /-- the functor is pushed, the test comes next -/
  | pushed
  /-- about to write the eventfd, for `queueInLoop` or for `quit` -/
  | waking (queued : Bool)
deriving DecidableEq

structure State (φ : Type) where
  threadId : Tid
  looping : Bool
  quit : Bool
  eventHandling : Bool
  callingPendingFunctors : Bool
  /-- the counter of the eventfd `wakeupFd_` -/
  wakeupFd : Nat
  pendingFunctors : List φ
  pc : Pc φ
  calls : Tid → Call
  /-- the thread that called `loop()` -/
  runner : Tid
  /-- ghost: the functors in the order of their `push_back` -/
  queued : List φ
  /-- ghost: the functors called by `doPendingFunctors`, with the calling thread -/
  executed : List (Tid × φ)

inductive Fault where
  | assertFailed
  | notInLoopThread
deriving DecidableEq

variable {φ : Type}

/-- The loop after its constructor, in thread `tid`. -/
def init (tid : Tid) : State φ where
  threadId := tid
  looping := false
  quit := false
  eventHandling := false
  callingPendingFunctors := false
  wakeupFd := 0
  pendingFunctors := []
  pc := .outside
  calls := fun _ => .idle
  runner := tid
  queued := []
  executed := []

namespace State

variable (s : State φ)

def isInLoopThread (t : Tid) : Bool := s.threadId == t

/-- The loop thread is in code of the user of the loop. -/
def inUserCode : Bool :=
  match s.pc with
  | .outside => true
  | .event _ => true
  | .functor _ => true
  | _ => false

/-- Thread `t` may call a function of the loop. -/
def mayCall (t : Tid) : Bool :=
  decide (s.calls t = .idle) && (!s.isInLoopThread t || s.inUserCode)

/-- The loop thread is in `loop()` and in no call. -/
def loopRuns : Bool := decide (s.calls s.threadId = .idle)

/-- The not-yet-run rest of the local `functors`. -/
def localFunctors : List φ :=
  match s.pc with
  | .functors rest => rest
  | .functor rest => rest
  | _ => []

/-! ## Operations -/

/-- The critical section of `queueInLoop`. -/
def queueInLoop (t : Tid) (cb : φ) : State φ :=
  { s with
    pendingFunctors := s.pendingFunctors ++ [cb]
    queued := s.queued ++ [cb]
    calls := Function.update s.calls t .pushed }

/-- `cb()` in the loop thread (what it does follows), else `queueInLoop`. -/
def runInLoop (t : Tid) (cb : φ) : State φ :=
  if s.isInLoopThread t then s else s.queueInLoop t cb

/-- `if (!isInLoopThread() || callingPendingFunctors_)` -/
def testWakeup (t : Tid) : State φ :=
  if !s.isInLoopThread t || s.callingPendingFunctors then
    { s with calls := Function.update s.calls t (.waking true) }
  else { s with calls := Function.update s.calls t .idle }

def wakeup (t : Tid) : State φ :=
  { s with
    wakeupFd := eventfdWrite s.wakeupFd
    calls := Function.update s.calls t .idle }

/-- `quit`, up to its wakeup. -/
def setQuit (t : Tid) : State φ :=
  { s with
    quit := true
    calls := Function.update s.calls t (if s.isInLoopThread t then .idle else .waking false) }

end State

/-! ## The machine -/

inductive Action (φ : Type) where
  | queueInLoop (t : Tid) (cb : φ)
  | runInLoop (t : Tid) (cb : φ)
  | testWakeup (t : Tid)
  | wakeup (t : Tid)
  | quit (t : Tid)
  | loop (t : Tid)
  | testQuit
  | pollReturns (active : List ActiveChannel)
  | handleEvent
  | handleRead
  | eventReturns
  | eventsDone
  | swap
  | callFunctor
  | functorReturns
  | functorsDone

def enabled (s : State φ) : Action φ → Bool
  | .queueInLoop t _ => s.mayCall t
  | .runInLoop t _ => s.mayCall t
  | .testWakeup t => decide (s.calls t = .pushed)
  | .wakeup t => decide (s.calls t = .waking true) || decide (s.calls t = .waking false)
  | .quit t => s.mayCall t
  | .loop t =>
    decide (s.calls t = .idle) &&
      match s.pc with
      | .outside => true
      | _ => false
  | .testQuit =>
    s.loopRuns &&
      match s.pc with
      | .test => true
      | _ => false
  | .pollReturns active =>
    s.loopRuns && (decide (.wakeup ∉ active) || decide (0 < s.wakeupFd)) &&
      match s.pc with
      | .poll => true
      | _ => false
  | .handleEvent =>
    s.loopRuns &&
      match s.pc with
      | .events (_ :: _) => true
      | _ => false
  | .handleRead =>
    s.loopRuns &&
      match s.pc with
      | .reading _ => true
      | _ => false
  | .eventReturns =>
    s.loopRuns &&
      match s.pc with
      | .event _ => true
      | _ => false
  | .eventsDone =>
    s.loopRuns &&
      match s.pc with
      | .events [] => true
      | _ => false
  | .swap =>
    s.loopRuns &&
      match s.pc with
      | .swap => true
      | _ => false
  | .callFunctor =>
    s.loopRuns &&
      match s.pc with
      | .functors (_ :: _) => true
      | _ => false
  | .functorReturns =>
    s.loopRuns &&
      match s.pc with
      | .functor _ => true
      | _ => false
  | .functorsDone =>
    s.loopRuns &&
      match s.pc with
      | .functors [] => true
      | _ => false

def step (s : State φ) : Action φ → Except Fault (State φ)
  | .queueInLoop t cb => .ok (s.queueInLoop t cb)
  | .runInLoop t cb => .ok (s.runInLoop t cb)
  | .testWakeup t => .ok (s.testWakeup t)
  | .wakeup t => .ok (s.wakeup t)
  | .quit t => .ok (s.setQuit t)
  | .loop t =>
    if s.looping then .error .assertFailed
    else if s.isInLoopThread t then
      .ok { s with looping := true, quit := false, runner := t, pc := .test }
    else .error .notInLoopThread
  | .testQuit =>
    if s.quit then .ok { s with looping := false, pc := .outside } else .ok { s with pc := .poll }
  | .pollReturns active => .ok { s with eventHandling := true, pc := .events active }
  | .handleEvent =>
    match s.pc with
    | .events (.wakeup :: active) => .ok { s with pc := .reading active }
    | .events (.other _ :: active) => .ok { s with pc := .event active }
    | _ => .ok s
  | .handleRead =>
    match s.pc with
    | .reading active => .ok { s with wakeupFd := 0, pc := .events active }
    | _ => .ok s
  | .eventReturns =>
    match s.pc with
    | .event active => .ok { s with pc := .events active }
    | _ => .ok s
  | .eventsDone =>
    .ok { s with eventHandling := false, callingPendingFunctors := true, pc := .swap }
  | .swap => .ok { s with pendingFunctors := [], pc := .functors s.pendingFunctors }
  | .callFunctor =>
    match s.pc with
    | .functors (cb :: rest) =>
      .ok { s with pc := .functor rest, executed := s.executed ++ [(s.runner, cb)] }
    | _ => .ok s
  | .functorReturns =>
    match s.pc with
    | .functor rest => .ok { s with pc := .functors rest }
    | _ => .ok s
  | .functorsDone => .ok { s with callingPendingFunctors := false, pc := .test }

def machine (φ : Type) : Machine (State φ) (Action φ) Fault := ⟨enabled, step⟩

end EventLoop

end Rawmd
