import Rawmd.Lib.Machine
import Rawmd.Net.Channel

/-!
# `net/poller/EPollPoller.cpp`, with the kernel's interest list

`κ` is the type of channels (`Channel*`).  The interest list maps a descriptor to the mask and
the `data.ptr` it was registered with; `epoll_ctl` refuses to add what is there and to change
or delete what is not.  Descriptors stay open while they are registered, so nothing else
changes the list.  As for `PollPoller`, the machine takes an action where the entry asserts
hold, and other failed asserts and `LOG_SYSFATAL` are faults.
-/

namespace Rawmd.EPollPoller

def kNew : Int := -1
def kAdded : Int := 1
def kDeleted : Int := 2

def kInitEventListSize : Nat := 16

/-- `EPOLL_CTL_ADD`, `EPOLL_CTL_MOD`, `EPOLL_CTL_DEL` -/
inductive Ctl where
  | add
  | mod
  | del
deriving DecidableEq

structure State (κ : Type) where
  /-- the channels -/
  channel : κ → Channel
  channels : Std.TreeMap Int κ
  /-- `events_.size()` -/
  eventsSize : Nat
  /-- the kernel's interest list -/
  interest : Std.TreeMap Int (BitVec 32 × κ)
  /-- what the last `poll` appended -/
  activeChannels : List κ
  /-- ghost: the number of `epoll_ctl` calls that failed -/
  refused : Nat

inductive Fault where
  | entryAssert
  | assertFailed
  | sysFatal
deriving DecidableEq

variable {κ : Type}

def init (F : Fds κ) : State κ where
  channel c := .make (F.fd c)
  channels := ∅
  eventsSize := kInitEventListSize
  interest := ∅
  activeChannels := []
  refused := 0

/-- `epoll_ctl`, `none` if it fails -/
def epollCtl (interest : Std.TreeMap Int (BitVec 32 × κ)) (operation : Ctl) (fd : Int)
    (event : BitVec 32 × κ) : Option (Std.TreeMap Int (BitVec 32 × κ)) :=
  match operation with
  | .add => if interest.contains fd then none else some (interest.insert fd event)
  | .mod => if interest.contains fd then some (interest.insert fd event) else none
  | .del => if interest.contains fd then some (interest.erase fd) else none

namespace State

variable [DecidableEq κ] (s : State κ)

def setChannel (c : κ) (ch : Channel) : State κ :=
  { s with channel := Function.update s.channel c ch }

def setIndex (c : κ) (index : Int) : State κ :=
  s.setChannel c { s.channel c with index := index }

/-- `events_` is assigned. -/
def setEvents (c : κ) (events : BitVec 32) : State κ :=
  s.setChannel c { s.channel c with events := events }

def update (operation : Ctl) (c : κ) : Except Fault (State κ) :=
  let ch := s.channel c
  match epollCtl s.interest operation ch.fd (ch.events, c) with
  | some interest => .ok { s with interest := interest }
  | none =>
    if operation = .del then .ok { s with refused := s.refused + 1 } else .error .sysFatal

/-- The asserts of `updateChannel`. -/
def updateAsserts (c : κ) : Bool :=
  let ch := s.channel c
  if ch.index = kNew then decide (s.channels[ch.fd]? = none)
  else decide (s.channels[ch.fd]? = some c) &&
    (decide (ch.index = kDeleted) || decide (ch.index = kAdded))

def updateChannel (c : κ) : Except Fault (State κ) :=
  let ch := s.channel c
  if s.updateAsserts c = false then .error .entryAssert
  else if ch.index = kNew ∨ ch.index = kDeleted then
    let s := if ch.index = kNew then { s with channels := s.channels.insert ch.fd c } else s
    (s.setIndex c kAdded).update .add c
  else if ch.isNoneEvent then do
    let s ← s.update .del c
    return s.setIndex c kDeleted
  else s.update .mod c

/-- The asserts of `removeChannel` before the erase. -/
def removeAsserts (c : κ) : Bool :=
  let ch := s.channel c
  decide (s.channels[ch.fd]? = some c) && ch.isNoneEvent &&
    (decide (ch.index = kAdded) || decide (ch.index = kDeleted))

def removeChannel (c : κ) : Except Fault (State κ) :=
  let ch := s.channel c
  if s.removeAsserts c = false then .error .entryAssert
  else
    let n := if s.channels.contains ch.fd then 1 else 0
    let s := { s with channels := s.channels.erase ch.fd }
    if n ≠ 1 then .error .assertFailed
    else do
      let s ← if ch.index = kAdded then s.update .del c else pure s
      return s.setIndex c kNew

/-- `channel->set_revents(events)` and the `push_back` after it. -/
def report (c : κ) (events : BitVec 32) : State κ :=
  { s.setChannel c { s.channel c with revents := events } with
    activeChannels := s.activeChannels ++ [c] }

/-- The loop of `fillActiveChannels` over the returned events. -/
def fillLoop (s : State κ) : List (BitVec 32 × κ) → Except Fault (State κ)
  | [] => .ok s
  | (events, c) :: ready =>
    if s.channels[(s.channel c).fd]? = some c then (s.report c events).fillLoop ready
    else .error .assertFailed

def fillActiveChannels (ready : List (BitVec 32 × κ)) : Except Fault (State κ) :=
  if ready.length ≤ s.eventsSize then s.fillLoop ready else .error .assertFailed

/-- `epoll_wait` fails, or returns the events `ready`. -/
def poll (result : Option (List (BitVec 32 × κ))) : Except Fault (State κ) :=
  let s := { s with activeChannels := [] }
  match result with
  | none => .ok s
  | some ready =>
    if 0 < ready.length then do
      let s ← s.fillActiveChannels ready
      return if ready.length = s.eventsSize then { s with eventsSize := s.eventsSize * 2 } else s
    else .ok s

/-- What `epoll_wait` may return: as many events as fit, each with the `data.ptr` of an entry of
the interest list. -/
def kernelReturns (ready : List (BitVec 32 × κ)) : Bool :=
  decide (ready.length ≤ s.eventsSize) &&
    ready.all fun event => s.interest.toList.any fun entry => decide (entry.2.2 = event.2)

end State

/-! ## The machine -/

inductive Action (κ : Type) where
  /-- `events_` is set and `updateChannel` is called -/
  | updateChannel (c : κ) (events : BitVec 32)
  | removeChannel (c : κ)
  | poll (result : Option (List (BitVec 32 × κ)))

variable [DecidableEq κ]

def enabled (s : State κ) : Action κ → Bool
  | .updateChannel c events => (s.setEvents c events).updateAsserts c
  | .removeChannel c => s.removeAsserts c
  | .poll none => true
  | .poll (some ready) => s.kernelReturns ready

def step (s : State κ) : Action κ → Except Fault (State κ)
  | .updateChannel c events => (s.setEvents c events).updateChannel c
  | .removeChannel c => s.removeChannel c
  | .poll result => s.poll result

def machine (κ : Type) [DecidableEq κ] : Machine (State κ) (Action κ) Fault := ⟨enabled, step⟩

end Rawmd.EPollPoller
