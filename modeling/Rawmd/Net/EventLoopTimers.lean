import Rawmd.Net.EventLoop
import Rawmd.Net.TimerQueue

/-!
# Timers of a loop, from any thread

`EventLoop::runAt`, `runAfter`, `runEvery` and `cancel` over `TimerQueue::addTimer` and
`cancel`: the machine of the loop and the machine of its timer queue put together.  A call
of `addTimer` is `new Timer`, the `runInLoop` and the `return` that reads
`timer->sequence()`, three steps of the calling thread; in the loop thread `runInLoop` calls
`addTimerInLoop` at once, in any other thread it queues it.  The timerfd channel's callback
(`TimerQueue::handleRead`) runs in the loop thread's event callbacks.
-/

namespace Rawmd.EventLoopTimers

/-- The functors of the loop: those bound by `addTimer` and `cancel`, and the user's own.
The timers' numbers are ghosts; that of `cancelInLoop` is the timer that the `TimerId` was
returned for, if it is one that `addTimer` returned. -/
inductive Functor where
  | addTimerInLoop (timer : Addr) (born : Nat)
  | cancelInLoop (timerId : TimerId) (born : Option Nat)
  | user (n : Nat)

/-- What a thread is doing in `addTimer`. -/
inductive Adding where
  | idle
  /-- the `Timer` is created, the `runInLoop` comes next -/
  | created (timer : Addr) (born : Nat)
  /-- the `runInLoop` is done, the `return` comes next -/
  | ran (timer : Addr) (born : Nat)
deriving DecidableEq

structure State where
  loop : EventLoop.State Functor
  queue : TimerQueue.State
  adding : Tid → Adding
  /-- ghost: the ids returned by `addTimer`, each with the number of its timer -/
  returned : List (TimerId × Nat)
  /-- ghost: the numbers of the timers whose `cancelInLoop` has been executed -/
  cancelled : List Nat

inductive Fault where
  | loop (fault : EventLoop.Fault)
  | queue (fault : TimerQueue.Fault)

/-- A loop in thread `tid` with its timer queue, after their constructors. -/
def init (tid : Tid) (wall : Timestamp) (mono : Int) : State where
  loop := EventLoop.init tid
  queue := TimerQueue.init wall mono
  adding := fun _ => .idle
  returned := []
  cancelled := []

/-- The three ways to ask for a timer. -/
inductive Request where
  | runAt (time : Timestamp)
  | runAfter (delay : Seconds)
  | runEvery (interval : Seconds)

/-- The `when` and `interval` that `addTimer` is called with, at `now`. -/
def Request.addTimer (now : Timestamp) : Request → Timestamp × Seconds
  | .runAt time => (time, .zero)
  | .runAfter delay => (addTime now delay, .zero)
  | .runEvery interval => (addTime now interval, interval)

namespace State

variable (s : State)

/-! ## Operations -/

def liftLoop (r : Except EventLoop.Fault (EventLoop.State Functor)) : Except Fault State :=
  match r with
  | .ok loop => .ok { s with loop := loop }
  | .error e => .error (.loop e)

def liftQueue (r : Except TimerQueue.Fault TimerQueue.State) : Except Fault State :=
  match r with
  | .ok queue => .ok { s with queue := queue }
  | .error e => .error (.queue e)

/-- `cb()` -/
def call : Functor → Except Fault State
  | .addTimerInLoop timer _ => s.liftQueue (s.queue.addTimerInLoop timer)
  | .cancelInLoop timerId born =>
    { s with cancelled := s.cancelled ++ born.toList }.liftQueue (s.queue.cancelInLoop timerId)
  | .user _ => .ok s

def runInLoop (t : Tid) (cb : Functor) : Except Fault State :=
  if s.loop.isInLoopThread t then s.call cb
  else .ok { s with loop := s.loop.runInLoop t cb }

/-- `new Timer` of `addTimer` in thread `t`, at address `p` -/
def newTimer (t : Tid) (p : Addr) (request : Request) : State :=
  let (when, interval) := request.addTimer s.queue.wall
  { s with
    queue := s.queue.newTimer p when interval
    adding := Function.update s.adding t (.created p s.queue.numCreated) }

/-- `return TimerId(timer, timer->sequence())`: a `Timer` that is deleted by now reads as
whatever is at its address. -/
def returnId (t : Tid) (p : Addr) (born : Nat) (garbage : Int) : State :=
  let sequence := match s.queue.heap p with
    | some timer => timer.sequence
    | none => garbage
  { s with
    adding := Function.update s.adding t .idle
    returned := s.returned ++ [(⟨p, sequence⟩, born)] }

/-! ## The machine -/

/-- If `t` is the loop thread, it is not in the code of `TimerQueue::handleRead`. -/
def outsideQueue (t : Tid) : Bool := !s.loop.isInLoopThread t || s.queue.inUserCode

/-- Thread `t` may call a function of the loop. -/
def mayCall (t : Tid) : Bool :=
  s.loop.mayCall t && decide (s.adding t = .idle) && s.outsideQueue t

/-- The loop thread is neither in `addTimer` nor in `TimerQueue::handleRead`. -/
def loopRuns : Bool :=
  decide (s.adding s.loop.threadId = .idle) &&
    match s.queue.phase with
    | .idle => true
    | _ => false

/-- The loop thread is in a channel's event callback. -/
def inEvent : Bool :=
  match s.loop.pc with
  | .event _ => true
  | _ => false

end State

inductive Action where
  | loop (a : EventLoop.Action Functor)
  | callFunctor
  | newTimer (t : Tid) (p : Addr) (request : Request)
  | runAdd (t : Tid)
  | returnId (t : Tid) (garbage : Int)
  | cancel (t : Tid) (timerId : TimerId) (born : Option Nat)
  | queue (a : TimerQueue.Action)

/-- The actions of the loop other than the calls of functors; what users of the loop queue
are functors of theirs. -/
def loopEnabled (s : State) : EventLoop.Action Functor → Bool
  | .queueInLoop t (.user _) => s.mayCall t
  | .queueInLoop _ _ => false
  | .runInLoop t (.user _) => s.mayCall t
  | .runInLoop _ _ => false
  | .quit t => s.mayCall t
  | .callFunctor => false
  | .testWakeup t => EventLoop.enabled s.loop (.testWakeup t)
  | .wakeup t => EventLoop.enabled s.loop (.wakeup t)
  | a => EventLoop.enabled s.loop a && s.loopRuns

/-- The steps of `TimerQueue::handleRead`, and the clocks. -/
def queueEnabled (s : State) : TimerQueue.Action → Bool
  | .handleRead => s.inEvent && s.loop.loopRuns && s.loopRuns
  | .readTimerfd => TimerQueue.enabled s.queue .readTimerfd
  | .runCallback =>
    TimerQueue.enabled s.queue .runCallback && s.loop.loopRuns &&
      decide (s.adding s.loop.threadId = .idle)
  | .reset =>
    TimerQueue.enabled s.queue .reset && s.loop.loopRuns &&
      decide (s.adding s.loop.threadId = .idle)
  | .clock wall mono => TimerQueue.enabled s.queue (.clock wall mono)
  | _ => false

def enabled (s : State) : Action → Bool
  | .loop a => loopEnabled s a
  | .callFunctor => EventLoop.enabled s.loop .callFunctor && s.loopRuns
  | .newTimer t p request =>
    let (when, interval) := request.addTimer s.queue.wall
    s.mayCall t && TimerQueue.enabled s.queue (.newTimer p when interval)
  | .runAdd t =>
    s.outsideQueue t &&
      match s.adding t with
      | .created _ _ => true
      | _ => false
  | .returnId t _ =>
    decide (s.loop.calls t = .idle) &&
      match s.adding t with
      | .ran _ _ => true
      | _ => false
  | .cancel t timerId born => s.mayCall t && born.all fun g => decide ((timerId, g) ∈ s.returned)
  | .queue a => queueEnabled s a

def step (s : State) : Action → Except Fault State
  | .loop a => s.liftLoop (EventLoop.step s.loop a)
  | .callFunctor =>
    match s.loop.pc with
    | .functors (cb :: _) => do
      let s ← s.liftLoop (EventLoop.step s.loop .callFunctor)
      s.call cb
    | _ => .ok s
  | .newTimer t p request => .ok (s.newTimer t p request)
  | .runAdd t =>
    match s.adding t with
    | .created timer born =>
      { s with adding := Function.update s.adding t (.ran timer born) }.runInLoop t
        (.addTimerInLoop timer born)
    | _ => .ok s
  | .returnId t garbage =>
    match s.adding t with
    | .ran timer born => .ok (s.returnId t timer born garbage)
    | _ => .ok s
  | .cancel t timerId born => s.runInLoop t (.cancelInLoop timerId born)
  | .queue a => s.liftQueue (TimerQueue.step s.queue a)

def machine : Machine State Action Fault := ⟨enabled, step⟩

end Rawmd.EventLoopTimers
