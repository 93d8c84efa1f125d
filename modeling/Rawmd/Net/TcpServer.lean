import Rawmd.Net.InetAddress
import Rawmd.Net.Poller.Poller
import Rawmd.Net.TcpConnection

/-!
# `net/TcpServer.cpp`, with its connections, the poller and the pending functors

A connection is known by the `nextConnId_` it was created with.  The server makes the calls on a
connection and then does what the connection asks for (`perform`).  The functors in the queue
are bound calls of `connectDestroyed`, each with a reference to its connection; the other
references that count are those in `connections_`.  Users may hold more, so a connection is
destroyed, and its descriptor closed, at some time after the last of these is gone
(`release`).  Everything runs in the loop thread.
-/

namespace Rawmd

open Printf

structure TcpServer where
  hostport : Text
  name : Text
  nextConnId : Nat
  connections : Std.TreeMap Text Nat
  poller : Poller Nat
  /-- the connections -/
  conn : Nat → TcpConnection
  /-- those of `EventLoop` -/
  pendingFunctors : List Nat
  /-- before `~TcpServer` -/
  alive : Bool
  /-- ghost: the connections on which `connectDestroyed` was called, in order -/
  destroyed : List Nat
  /-- ghost: the connections that were destroyed, and their descriptors closed -/
  released : List Nat

namespace TcpServer

inductive Fault where
  | assertFailed
  | connection (e : TcpConnection.Fault)
  | poller (e : Poller.Fault)
  /-- a call on a destroyed object -/
  | dangling
deriving DecidableEq

/-- The constructor. -/
def make (usePoll : Bool) (listenAddr : SockaddrIn) (nameArg : Text) : TcpServer where
  hostport := InetAddress.toIpPort listenAddr
  name := nameArg
  nextConnId := 1
  connections := ∅
  poller := .newDefaultPoller usePoll
  conn _ := .make [] (-1)
  pendingFunctors := []
  alive := true
  destroyed := []
  released := []

variable (s : TcpServer)

/-- `snprintf(buf, sizeof buf, ":%s#%d", hostport_.c_str(), id)` after the server's name -/
def connName (id : Nat) : Text :=
  s.name ++ snprintf 32 ([':'] ++ s.hostport ++ ['#'] ++ decimal id)

def removeConnection (c : Nat) : Except Fault TcpServer :=
  if s.alive = false then .error .dangling
  else
    let n := if s.connections.contains (s.conn c).name then 1 else 0
    let s := { s with connections := s.connections.erase (s.conn c).name }
    if n ≠ 1 then .error .assertFailed
    else .ok { s with pendingFunctors := s.pendingFunctors ++ [c] }

/-- What connection `c` asks for; the user's callbacks leave the server alone. -/
def perform (c : Nat) (s : TcpServer) : Request → Except Fault TcpServer
  | .update op =>
    match s.poller.updateChannel c op with
    | .ok poller => .ok { s with poller := poller }
    | .error e => .error (.poller e)
  | .remove =>
    match s.poller.removeChannel c with
    | .ok poller => .ok { s with poller := poller }
    | .error e => .error (.poller e)
  | .connectionCallback _ => .ok s
  | .messageCallback _ => .ok s
  | .closeCallback => s.removeConnection c

/-- A call on connection `c` has left it as `conn`, with what it asks for. -/
def finish (c : Nat) (conn : TcpConnection) : Except Fault TcpServer :=
  conn.requests.foldlM (perform c)
    { s with conn := Function.update s.conn c { conn with requests := [] } }

def call (c : Nat) (result : Except TcpConnection.Fault TcpConnection) : Except Fault TcpServer :=
  match result with
  | .ok conn => s.finish c conn
  | .error e => .error (.connection e)

def newConnection (sockfd : Int) : Except Fault TcpServer :=
  let c := s.nextConnId
  let connName := s.connName c
  let conn := TcpConnection.make connName sockfd
  { s with
    nextConnId := s.nextConnId + 1
    connections := s.connections.insert connName c
    poller := s.poller.construct c sockfd
    conn := Function.update s.conn c conn }.call c conn.connectEstablished

/-- The poller's pointer to the channel of connection `c` is used. -/
def handleEvent (c : Nat) (revents : BitVec 32) (n : Int) : Except Fault TcpServer :=
  if c ∈ s.released then .error .dangling else s.call c ((s.conn c).handleEvent revents n)

/-- `connectDestroyed`, with a reference to connection `c`. -/
def connectDestroyed (s : TcpServer) (c : Nat) : Except Fault TcpServer :=
  if c ∈ s.released then .error .dangling
  else { s with destroyed := s.destroyed ++ [c] }.finish c (s.conn c).connectDestroyed

def doPendingFunctors : Except Fault TcpServer :=
  s.pendingFunctors.foldlM connectDestroyed { s with pendingFunctors := [] }

/-- `~TcpServer`, where `runInLoop` calls at once. -/
def destruct : Except Fault TcpServer := do
  let s ← (s.connections.toList.map Prod.snd).foldlM connectDestroyed s
  return { s with connections := ∅, alive := false }

/-- `~TcpConnection`: the socket is closed. -/
def release (c : Nat) : TcpServer :=
  { s with released := c :: s.released, poller := s.poller.closed (s.conn c).sockfd }

/-! ## The machine -/

inductive Action where
  | newConnection (sockfd : Int)
  | handleEvent (c : Nat) (revents : BitVec 32) (n : Int)
  | doPendingFunctors
  | destruct
  | release (c : Nat)

def Created (c : Nat) : Prop := 1 ≤ c ∧ c < s.nextConnId

instance (c : Nat) : Decidable (s.Created c) := inferInstanceAs (Decidable (_ ∧ _))

/-- `connections_` holds connection `c`. -/
def Listed (c : Nat) : Prop := s.connections[(s.conn c).name]? = some c

instance (c : Nat) : Decidable (s.Listed c) := inferInstanceAs (Decidable (_ = _))

/-- The kernel returns descriptors that are not open, and events of channels that the poller
holds.  The counter does not overflow. -/
def enabled (s : TcpServer) : Action → Bool
  | .newConnection sockfd =>
    s.alive && decide (s.nextConnId < 2 ^ 31 - 1) &&
      (List.range s.nextConnId).all fun c =>
        decide (s.Created c → c ∈ s.released ∨ (s.conn c).sockfd ≠ sockfd)
  | .handleEvent c _ _ => s.poller.hasChannel c
  | .doPendingFunctors => true
  | .destruct => s.alive
  | .release c =>
    decide (s.Created c) && decide (c ∉ s.released) && decide (¬ s.Listed c) &&
      decide (c ∉ s.pendingFunctors)

def step (s : TcpServer) : Action → Except Fault TcpServer
  | .newConnection sockfd => s.newConnection sockfd
  | .handleEvent c revents n => s.handleEvent c revents n
  | .doPendingFunctors => s.doPendingFunctors
  | .destruct => s.destruct
  | .release c => .ok (s.release c)

def machine : Machine TcpServer Action Fault := ⟨enabled, step⟩

end TcpServer

end Rawmd
