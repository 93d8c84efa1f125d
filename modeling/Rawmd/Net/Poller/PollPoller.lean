import Rawmd.Lib.Machine
import Rawmd.Net.Channel

/-!
# `net/poller/PollPoller.cpp`

`κ` is the type of channels (`Channel*`).  The asserts that a function makes before it
changes anything are its entry asserts; the machine takes an action only where they hold, and
any other failed assert, an index out of bounds or a call through a null pointer is a fault.
`poll` takes what the kernel wrote.  Indices and sizes are below the number of descriptors,
so they do not overflow an `int`.
-/

namespace Rawmd

/-- `struct pollfd` -/
structure PollFd where
  fd : Int
  events : BitVec 16
  revents : BitVec 16
deriving DecidableEq

/-- The bits that poll(2) defines. -/
def pollBits : BitVec 16 := 0x37ff#16

namespace PollPoller

structure State (κ : Type) where
  /-- the channels -/
  channel : κ → Channel
  pollfds : List PollFd
  channels : Std.TreeMap Int κ
  /-- what the last `poll` appended -/
  activeChannels : List κ

inductive Fault where
  | entryAssert
  | assertFailed
  | outOfBounds
  | nullChannel
deriving DecidableEq

variable {κ : Type} [DecidableEq κ]

/-- A poller with no channel yet, and the channels as constructed. -/
def init (F : Fds κ) : State κ where
  channel c := .make (F.fd c)
  pollfds := []
  channels := ∅
  activeChannels := []

namespace State

variable (s : State κ)

def setChannel (c : κ) (ch : Channel) : State κ :=
  { s with channel := Function.update s.channel c ch }

/-- `assert(pfd.fd == channel->fd() || pfd.fd == -channel->fd()-1)` at the channel's index,
with the asserts before it. -/
def slotAsserts (c : κ) (ok : PollFd → Bool) : Bool :=
  let ch := s.channel c
  decide (s.channels[ch.fd]? = some c) && decide (0 ≤ ch.index) &&
    match s.pollfds[ch.index.toNat]? with
    | some pfd => ok pfd
    | none => false

/-- The asserts of `updateChannel`. -/
def updateAsserts (c : κ) : Bool :=
  let ch := s.channel c
  if ch.index < 0 then decide (s.channels[ch.fd]? = none)
  else s.slotAsserts c fun pfd => decide (pfd.fd = ch.fd ∨ pfd.fd = -ch.fd - 1)

def updateChannel (c : κ) : Except Fault (State κ) :=
  let ch := s.channel c
  if s.updateAsserts c = false then .error .entryAssert
  else if ch.index < 0 then
    let pollfds := s.pollfds ++ [⟨ch.fd, ch.events.setWidth 16, 0⟩]
    let idx : Int := pollfds.length - 1
    .ok { s.setChannel c { ch with index := idx } with
      pollfds := pollfds
      channels := s.channels.insert ch.fd c }
  else
    let idx := ch.index.toNat
    match s.pollfds[idx]? with
    | some pfd =>
      let fd := if ch.isNoneEvent then -ch.fd - 1 else pfd.fd
      .ok { s with pollfds := s.pollfds.set idx ⟨fd, ch.events.setWidth 16, 0⟩ }
    | none => .error .outOfBounds

/-- The asserts of `removeChannel` before the erase. -/
def removeAsserts (c : κ) : Bool :=
  let ch := s.channel c
  ch.isNoneEvent && s.slotAsserts c fun pfd =>
    decide (pfd.fd = -ch.fd - 1 ∧ pfd.events.signExtend 32 = ch.events)

def removeChannel (c : κ) : Except Fault (State κ) :=
  let ch := s.channel c
  if s.removeAsserts c = false then .error .entryAssert
  else
    let idx := ch.index.toNat
    let n := if s.channels.contains ch.fd then 1 else 0
    let s := { s with channels := s.channels.erase ch.fd }
    if n ≠ 1 then .error .assertFailed
    else if idx = s.pollfds.length - 1 then .ok { s with pollfds := s.pollfds.dropLast }
    else
      match s.pollfds[idx]?, s.pollfds[s.pollfds.length - 1]? with
      | some pfd, some back =>
        let channelAtEnd := if back.fd < 0 then -back.fd - 1 else back.fd
        -- the swap
        let pollfds := (s.pollfds.set idx back).set (s.pollfds.length - 1) pfd
        match s.channels[channelAtEnd]? with
        | some last =>
          .ok { s.setChannel last { s.channel last with index := idx } with
            pollfds := pollfds.dropLast }
        | none => .error .nullChannel
      | _, _ => .error .outOfBounds

/-- `channel->set_revents(revents)` and the `push_back` after it. -/
def report (c : κ) (revents : BitVec 16) : State κ :=
  { s.setChannel c { s.channel c with revents := revents.signExtend 32 } with
    activeChannels := s.activeChannels ++ [c] }

/-- The loop of `fillActiveChannels`, from the slots `pfds` on. -/
def fillLoop (s : State κ) : List PollFd → Nat → Except Fault (State κ)
  | [], _ => .ok s
  | pfd :: pfds, numEvents =>
    if numEvents = 0 then .ok s
    else if 0 < pfd.revents.toInt then
      match s.channels[pfd.fd]? with
      | some c =>
        if (s.channel c).fd = pfd.fd then fillLoop (s.report c pfd.revents) pfds (numEvents - 1)
        else .error .assertFailed
      | none => .error .assertFailed
    else fillLoop s pfds numEvents

def fillActiveChannels (numEvents : Nat) : Except Fault (State κ) := s.fillLoop s.pollfds numEvents

/-- The slots after the kernel has written `revents`. -/
def written (revents : List (BitVec 16)) : List PollFd :=
  List.zipWith (fun pfd r => { pfd with revents := r }) s.pollfds revents

/-- `::poll` fails, or the kernel writes the `revents` and returns the number of those that are
not zero. -/
def poll (result : Option (List (BitVec 16))) : Except Fault (State κ) :=
  let s := { s with activeChannels := [] }
  match result with
  | none => .ok s
  | some revents =>
    let numEvents := revents.countP (· ≠ 0)
    let s := { s with pollfds := s.written revents }
    if 0 < numEvents then s.fillActiveChannels numEvents else .ok s

/-- What poll(2) may write: one value for each slot, only bits it defines, and nothing where
the descriptor is negative. -/
def kernelWrites (revents : List (BitVec 16)) : Bool :=
  decide (revents.length = s.pollfds.length) &&
    (s.pollfds.zip revents).all fun (pfd, r) =>
      decide (r &&& ~~~pollBits = 0) && (decide (0 ≤ pfd.fd) || decide (r = 0))

end State

/-! ## The machine -/

inductive Action (κ : Type) where
  /-- `events_` is set and `updateChannel` is called -/
  | updateChannel (c : κ) (events : BitVec 32)
  | removeChannel (c : κ)
  | poll (result : Option (List (BitVec 16)))

/-- `events_` is assigned. -/
def State.setEvents (s : State κ) (c : κ) (events : BitVec 32) : State κ :=
  s.setChannel c { s.channel c with events := events }

def enabled (s : State κ) : Action κ → Bool
  | .updateChannel c events => (s.setEvents c events).updateAsserts c
  | .removeChannel c => s.removeAsserts c
  | .poll none => true
  | .poll (some revents) => s.kernelWrites revents

def step (s : State κ) : Action κ → Except Fault (State κ)
  | .updateChannel c events => (s.setEvents c events).updateChannel c
  | .removeChannel c => s.removeChannel c
  | .poll result => s.poll result

def machine (κ : Type) [DecidableEq κ] : Machine (State κ) (Action κ) Fault := ⟨enabled, step⟩

end PollPoller

end Rawmd
