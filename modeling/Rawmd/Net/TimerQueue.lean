import Rawmd.Lib.Machine
import Rawmd.Lib.OrderedSet
import Rawmd.Base.Timestamp

/-!
# `net/TimerQueue.cpp`: the timer queue, its `Timer` objects and its timerfd

The queue and what it acts on are one `State`: the two sets, the `Timer` objects in
memory, the timerfd and the two clocks.  A `Timer*` is an address; dereferencing or
deleting a dead one is a fault, and so is a failed `assert`.

`handleRead` hands control to the timer callbacks, which may call `addTimer` and
`cancel` on the loop thread, so it is cut at the calls: `handleRead` (reads the clock),
`readTimerfd` (up to the first callback), one `runCallback` for each `it->second->run()`,
and `reset` (the rest).  Whatever the callbacks do are further actions in between.  The
machine `machine` takes them in any order the code allows, together with `new Timer` on
any thread (`newTimer`, at any address that is free at that moment), clock changes and
the destructor.
-/

namespace Rawmd

open MachineInt

/-! ## `net/Timer.h`, `net/TimerId.h` -/

/-- A `Timer*`; `0` is `NULL`. -/
abbrev Addr := Nat

/-- `UINTPTR_MAX`, no object's address. -/
def uintptrMax : Addr := 2 ^ 64 - 1

structure Timer where
  expiration : Timestamp
  interval : Seconds
  sequence : Int
  /-- ghost: the object's number in the order of creation -/
  born : Nat

namespace Timer

/-- `repeat_`, set to `interval > 0.0` by the constructor. -/
def repeats (t : Timer) : Bool := t.interval.positive

def restart (t : Timer) (now : Timestamp) : Timer :=
  if t.repeats then { t with expiration := addTime now t.interval }
  else { t with expiration := Timestamp.invalid }

end Timer

structure TimerId where
  timer : Addr
  sequence : Int
deriving DecidableEq

/-! ## The timerfd -/

structure Timespec where
  tvSec : Int
  tvNsec : Int
deriving DecidableEq

/-- The kernel's side: the pending one-shot alarm (in ns of `CLOCK_MONOTONIC`) and the
number of expirations not read yet. -/
structure Timerfd where
  deadline : Option Int
  expirations : Nat

namespace Timerfd

/-- `timerfd_settime(fd, 0, {it_value = ts}, _)` at `mono` ns: a bad value is refused,
zero disarms, anything else arms; unread expirations are forgotten. -/
def settime (fd : Timerfd) (mono : Int) (ts : Timespec) : Timerfd :=
  if ts.tvSec < 0 ∨ ts.tvNsec < 0 ∨ 10 ^ 9 ≤ ts.tvNsec then fd
  else if ts = ⟨0, 0⟩ then ⟨none, 0⟩
  else ⟨some (mono + ts.tvSec * 10 ^ 9 + ts.tvNsec), 0⟩

/-- The alarm goes off once its deadline has passed. -/
def advance (fd : Timerfd) (mono : Int) : Timerfd :=
  match fd.deadline with
  | some d => if d ≤ mono then ⟨none, fd.expirations + 1⟩ else fd
  | none => fd

/-- `read` returns the expirations and forgets them (`EAGAIN` when there are none). -/
def read (fd : Timerfd) : Timerfd := { fd with expirations := 0 }

end Timerfd

namespace TimerQueue

/-- The difference is taken in 64 bits. -/
def howMuchTimeFromNow (when now : Timestamp) : Timespec :=
  let microseconds := wrap 64 (when - now)
  let microseconds := if microseconds < 100 then 100 else microseconds
  ⟨microseconds.tdiv kMicroSecondsPerSecond, microseconds.tmod kMicroSecondsPerSecond * 1000⟩

/-! ## State -/

/-- `std::pair<Timestamp, Timer*>` -/
abbrev Entry := Timestamp ×ₗ Addr

/-- `std::pair<Timer*, int64_t>` -/
abbrev ActiveTimer := Addr ×ₗ Int

/-- Where the loop thread is: outside `handleRead`; after it read the clock; between
`getExpired` and `reset`, with the batch and the part of it that has not been run; after
the destructor. -/
inductive Phase where
  | idle
  | entered (now : Timestamp)
  | calling (now : Timestamp) (expired rest : List Entry)
  | destroyed

structure State where
  timers : OrderedSet Entry
  activeTimers : OrderedSet ActiveTimer
  callingExpiredTimers : Bool
  cancelingTimers : OrderedSet ActiveTimer
  timerfd : Timerfd
  phase : Phase
  /-- the `Timer` objects in memory -/
  heap : Addr → Option Timer
  /-- `s_numCreated_`, before its wrap to 64 bits -/
  numCreated : Nat
  /-- what `Timestamp::now()` reads -/
  wall : Timestamp
  /-- `CLOCK_MONOTONIC` in ns -/
  mono : Int
  /-- ghost: the id and number of each `Timer`, in creation order -/
  created : List (TimerId × Nat)
  /-- ghost: the numbers of the timers given to `addTimerInLoop` -/
  handed : List Nat
  /-- ghost: the numbers of the timers whose callback was started, in order -/
  started : List Nat
  /-- ghost: the numbers of the deleted timers, in order -/
  deleted : List Nat
  /-- ghost: the time of the last `timerfd_settime` -/
  lastSettime : Timestamp

inductive Fault where
  | assertFailed
  | deadTimer
deriving DecidableEq

/-- The queue after its constructor, with the clocks at `wall` µs and `mono` ns. -/
def init (wall : Timestamp) (mono : Int) : State where
  timers := .empty
  activeTimers := .empty
  callingExpiredTimers := false
  cancelingTimers := .empty
  timerfd := ⟨none, 0⟩
  phase := .idle
  heap := fun _ => none
  numCreated := 0
  wall := wall
  mono := mono
  created := []
  handed := []
  started := []
  deleted := []
  lastSettime := wall

/-! ## Operations -/

def check (b : Bool) : Except Fault Unit := if b then .ok () else .error .assertFailed

namespace State

variable (s : State)

/-- `*p` -/
def deref (p : Addr) : Except Fault Timer :=
  match s.heap p with
  | some t => .ok t
  | none => .error .deadTimer

/-- `delete p` -/
def delete (p : Addr) : Except Fault State := do
  let t ← s.deref p
  return { s with heap := Function.update s.heap p none, deleted := s.deleted ++ [t.born] }

/-- `assert(timers_.size() == activeTimers_.size())` -/
def sizesAgree : Bool := s.timers.size == s.activeTimers.size

/-- `new Timer(cb, when, interval)` at address `p` -/
def newTimer (p : Addr) (when : Timestamp) (interval : Seconds) : State :=
  let sequence := wrap 64 (s.numCreated + 1)
  { s with
    heap := Function.update s.heap p (some ⟨when, interval, sequence, s.numCreated⟩)
    numCreated := s.numCreated + 1
    created := s.created ++ [(⟨p, sequence⟩, s.numCreated)] }

def resetTimerfd (expiration : Timestamp) : State :=
  { s with
    timerfd := s.timerfd.settime s.mono (howMuchTimeFromNow expiration s.wall)
    lastSettime := s.wall }

/-- `it == timers_.end() || when < it->first` with `it = timers_.begin()` -/
def isEarliest (when : Timestamp) : Bool :=
  match s.timers.first? with
  | none => true
  | some e => decide (when < (ofLex e).1)

def insert (timer : Addr) : Except Fault (State × Bool) := do
  check s.sizesAgree
  let t ← s.deref timer
  let earliestChanged := s.isEarliest t.expiration
  check (s.timers.insert (toLex (t.expiration, timer))).2
  check (s.activeTimers.insert (toLex (timer, t.sequence))).2
  let s := { s with
    timers := (s.timers.insert (toLex (t.expiration, timer))).1
    activeTimers := (s.activeTimers.insert (toLex (timer, t.sequence))).1 }
  check s.sizesAgree
  return (s, earliestChanged)

def addTimerInLoop (timer : Addr) : Except Fault State := do
  let t ← s.deref timer
  let (s, earliestChanged) ← { s with handed := s.handed ++ [t.born] }.insert timer
  if earliestChanged then return s.resetTimerfd t.expiration else return s

/-- The branch of `cancelInLoop` for a timer that is in the sets. -/
def cancelActive (timer : ActiveTimer) : Except Fault State := do
  let p := (ofLex timer).1
  let t ← s.deref p
  check ((s.timers.erase (toLex (t.expiration, p))).2 == 1)
  let s ← { s with timers := (s.timers.erase (toLex (t.expiration, p))).1 }.delete p
  return { s with activeTimers := (s.activeTimers.erase timer).1 }

def cancelInLoop (timerId : TimerId) : Except Fault State := do
  check s.sizesAgree
  let timer : ActiveTimer := toLex (timerId.timer, timerId.sequence)
  let s ←
    if timer ∈ s.activeTimers then s.cancelActive timer
    else if s.callingExpiredTimers then
      pure { s with cancelingTimers := (s.cancelingTimers.insert timer).1 }
    else pure s
  check s.sizesAgree
  return s

/-- The loop of `getExpired` over the expired entries. -/
def eraseActive (e : Entry) : Except Fault State := do
  let t ← s.deref (ofLex e).2
  check ((s.activeTimers.erase (toLex ((ofLex e).2, t.sequence))).2 == 1)
  return { s with activeTimers := (s.activeTimers.erase (toLex ((ofLex e).2, t.sequence))).1 }

def getExpired (now : Timestamp) : Except Fault (State × List Entry) := do
  check s.sizesAgree
  let sentry : Entry := toLex (now, uintptrMax)
  let expired := s.timers.below sentry
  let s := { s with timers := s.timers.atLeast sentry }
  check (s.isEarliest now)
  let s ← expired.foldlM eraseActive s
  check s.sizesAgree
  return (s, expired)

/-- The loop of `reset`: a repeating timer that was not cancelled is put back, any other
one is deleted. -/
def resetOne (now : Timestamp) (e : Entry) : Except Fault State := do
  let p := (ofLex e).2
  let t ← s.deref p
  if t.repeats = true ∧ toLex (p, t.sequence) ∉ s.cancelingTimers then do
    let s := { s with heap := Function.update s.heap p (some (t.restart now)) }
    let (s, _) ← s.insert p
    return s
  else s.delete p

/-- The part of `reset` after its loop. -/
def rearm : Except Fault State := do
  let nextExpire ← match s.timers.first? with
    | none => pure Timestamp.invalid
    | some e => do
      let t ← s.deref (ofLex e).2
      pure t.expiration
  if nextExpire.valid then return s.resetTimerfd nextExpire else return s

def reset (expired : List Entry) (now : Timestamp) : Except Fault State := do
  let s ← expired.foldlM (fun s e => s.resetOne now e) s
  s.rearm

/-- `handleRead` from `readTimerfd` up to the first callback. -/
def collect (now : Timestamp) : Except Fault State := do
  let s := { s with timerfd := s.timerfd.read }
  let (s, expired) ← s.getExpired now
  return { s with
    callingExpiredTimers := true
    cancelingTimers := .empty
    phase := .calling now expired expired }

/-- The destructor: its loop, then that of the members. -/
def destroy : Except Fault State := do
  let s ← s.timers.toList.foldlM (fun s e => s.delete (ofLex e).2) s
  return { s with
    timers := .empty
    activeTimers := .empty
    cancelingTimers := .empty
    phase := .destroyed }

/-! ## The machine -/

/-- The loop thread runs user code: outside `handleRead`, or inside a timer callback. -/
def inUserCode : Bool :=
  match s.phase with
  | .idle => true
  | .calling _ expired rest => decide (rest.length < expired.length)
  | _ => false

/-- `p` is a `Timer` that has been created and not been given to the loop yet. -/
def isFresh (p : Addr) : Bool :=
  match s.heap p with
  | some t => decide (t.born ∉ s.handed)
  | none => false

end State

inductive Action where
  | newTimer (p : Addr) (when : Timestamp) (interval : Seconds)
  | addTimerInLoop (p : Addr)
  | cancelInLoop (timerId : TimerId)
  | handleRead
  | readTimerfd
  | runCallback
  | reset
  | clock (wall : Timestamp) (mono : Int)
  | destroy

def enabled (s : State) : Action → Bool
  | .newTimer p _ _ =>
    decide (0 < p) && decide (p < uintptrMax) && (s.heap p).isNone &&
      match s.phase with
      | .destroyed => false
      | _ => true
  | .addTimerInLoop p => s.inUserCode && s.isFresh p
  | .cancelInLoop _ => s.inUserCode
  | .handleRead =>
    match s.phase with
    | .idle => true
    | _ => false
  | .readTimerfd =>
    match s.phase with
    | .entered _ => true
    | _ => false
  | .runCallback =>
    match s.phase with
    | .calling _ _ rest => !rest.isEmpty
    | _ => false
  | .reset =>
    match s.phase with
    | .calling _ _ rest => rest.isEmpty
    | _ => false
  | .clock _ mono => decide (s.mono ≤ mono)
  | .destroy =>
    match s.phase with
    | .idle => true
    | _ => false

def step (s : State) : Action → Except Fault State
  | .newTimer p when interval => .ok (s.newTimer p when interval)
  | .addTimerInLoop p => s.addTimerInLoop p
  | .cancelInLoop timerId => s.cancelInLoop timerId
  | .handleRead => .ok { s with phase := .entered s.wall }
  | .readTimerfd =>
    match s.phase with
    | .entered now => s.collect now
    | _ => .ok s
  | .runCallback =>
    match s.phase with
    | .calling now expired (e :: rest) => do
      let t ← s.deref (ofLex e).2
      return { s with phase := .calling now expired rest, started := s.started ++ [t.born] }
    | _ => .ok s
  | .reset =>
    match s.phase with
    | .calling now expired _ =>
      { s with callingExpiredTimers := false, phase := .idle }.reset expired now
    | _ => .ok s
  | .clock wall mono => .ok { s with wall := wall, mono := mono, timerfd := s.timerfd.advance mono }
  | .destroy => s.destroy

def machine : Machine State Action Fault := ⟨enabled, step⟩

end TimerQueue

end Rawmd
