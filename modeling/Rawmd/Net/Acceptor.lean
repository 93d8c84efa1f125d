import Rawmd.Lib.Descriptors
import Rawmd.Lib.Machine
import Mathlib.Data.List.Nodup
import Mathlib.Data.List.Perm.Basic

/-!
# `net/Acceptor.cpp`, with `sockets::accept` and the descriptors of the process

Connections that have arrived wait in the backlog of the listening socket, and are numbered in
the order of their arrival.  `handleRead` accepts one.  When the process has no descriptor left it
gives up `idleFd_` for a moment, to accept the connection and close it at once: four system
calls, each a step here, since the other threads of the process open and close descriptors in
between.  Channel and poller are modelled elsewhere.

    Connections s → step s a = .ok t → Connections t                    (Connections.step)
-/

namespace Rawmd.Acceptor

/-- The values of `errno` that `sockets::accept` tells apart. -/
inductive Errno where
  | EAGAIN
  | ECONNABORTED
  | EINTR
  | EPROTO
  | EPERM
  | EMFILE
  | EBADF
  | EFAULT
  | EINVAL
  | ENFILE
  | ENOBUFS
  | ENOMEM
  | ENOTSOCK
  | EOPNOTSUPP
  | unknown
deriving DecidableEq

/-- The `switch` of `sockets::accept`: the others are `LOG_FATAL`. -/
def Errno.expected : Errno → Bool
  | .EAGAIN | .ECONNABORTED | .EINTR | .EPROTO | .EPERM | .EMFILE => true
  | _ => false

/-- What a descriptor is of. -/
inductive Use where
  | listening
  | idle
  | connection (id : Nat)
  /-- accepted to be closed -/
  | refused (id : Nat)
  | other
deriving DecidableEq

/-- What `accept` returns. -/
inductive Accept where
  | ok
  | failed (e : Errno)
deriving DecidableEq

/-- The next system call of the acceptor. -/
inductive Pc where
  | constructor
  | outside
  | closeIdle
  | acceptIdle
  | closeAccepted
  | openIdle
  | destroyed
deriving DecidableEq

structure State where
  table : Descriptors Use
  /-- `acceptSocket_.fd()` -/
  acceptSocket : Int
  idleFd : Int
  /-- `newConnectionCallback_` is set -/
  callback : Bool
  listenning : Bool
  backlog : List Nat
  /-- ghost: the number of connections that have arrived -/
  arrived : Nat
  pc : Pc
  /-- ghost: in the order of the calls of `accept` -/
  accepted : List Nat
  /-- ghost: the calls of `newConnectionCallback_`, with `connfd` -/
  handed : List (Nat × Nat)
  /-- ghost: accepted, but not for the callback -/
  refused : List Nat
  /-- ghost: those that the peer gave up while they waited -/
  aborted : List Nat

inductive Fault where
  | fatal
  | assertFailed
deriving DecidableEq

/-- Before the constructor.  The process has some descriptors open. -/
def init (limit : Nat) (opened : Nat → Bool) (callback : Bool) : State where
  table := ⟨limit, fun fd => if opened fd then some .other else none⟩
  acceptSocket := -1
  idleFd := -1
  callback := callback
  listenning := false
  backlog := []
  arrived := 0
  pc := .constructor
  accepted := []
  handed := []
  refused := []
  aborted := []

inductive Action where
  /-- `Acceptor::Acceptor` -/
  | construct
  /-- `Acceptor::listen` -/
  | listen
  /-- `Acceptor::handleRead`, up to `::close(idleFd_)` if there is no descriptor -/
  | handleRead (r : Accept)
  /-- `::close(idleFd_)` -/
  | closeIdle
  /-- `idleFd_ = ::accept(acceptSocket_.fd(), NULL, NULL)` -/
  | acceptIdle (r : Accept)
  /-- the second `::close(idleFd_)` -/
  | closeAccepted
  /-- `idleFd_ = ::open("/dev/null", O_RDONLY | O_CLOEXEC)` -/
  | openIdle
  /-- `Acceptor::~Acceptor`, with that of `acceptSocket_` -/
  | destroy
  /-- A connection arrives. -/
  | arrive
  /-- The peer of a waiting connection gives it up. -/
  | abort (id : Nat)
  /-- Anyone opens a descriptor. -/
  | openOther
  /-- Its owner closes a descriptor that is not the acceptor's: a connection, or another. -/
  | close (fd : Nat)
deriving DecidableEq

namespace State

variable (s : State)

/-- `idleFd_` is for keeps, not between two system calls. -/
def keepsIdle : Bool := decide (s.pc = .outside ∨ s.pc = .closeIdle)

/-- The acceptor has been constructed and not destroyed. -/
def alive : Bool := decide (s.pc ≠ .constructor ∧ s.pc ≠ .destroyed)

def construct : Except Fault State :=
  match s.table.create .listening with
  | none => .error .fatal
  | some (fd, table) =>
    match table.create .idle with
    | none => .error .assertFailed
    | some (idle, table) =>
      .ok { s with table := table, acceptSocket := fd, idleFd := idle, pc := .outside }

/-- A connection is taken from the backlog, with a descriptor. -/
def acceptAs (use : Nat → Use) : Option (Nat × Nat × State) :=
  match s.backlog with
  | [] => none
  | id :: backlog =>
    (s.table.create (use id)).map fun (fd, table) =>
      (id, fd, { s with table := table, backlog := backlog, accepted := s.accepted ++ [id] })

/-- `handleRead`, if `accept` succeeds. -/
def handleAccepted : State :=
  match s.acceptAs (if s.callback then .connection else .refused) with
  | none => s
  | some (id, fd, t) =>
    if s.callback then { t with handed := t.handed ++ [(id, fd)] }
    else { t with table := t.table.close fd, refused := t.refused ++ [id] }

def handleRead : Accept → Except Fault State
  | .ok => .ok s.handleAccepted
  | .failed e =>
    if e.expected = false then .error .fatal
    else if e = .EMFILE then .ok { s with pc := .closeIdle }
    else .ok s

def acceptIdle : Accept → State
  | .ok =>
    match s.acceptAs .refused with
    | none => s
    | some (id, fd, t) =>
      { t with idleFd := fd, refused := t.refused ++ [id], pc := .closeAccepted }
  | .failed _ => { s with idleFd := -1, pc := .closeAccepted }

def openIdle : State :=
  match s.table.create .idle with
  | some (fd, table) => { s with table := table, idleFd := fd, pc := .outside }
  | none => { s with idleFd := -1, pc := .outside }

/-- The kernel: `accept` needs a connection and a descriptor; it says which is missing. -/
def mayAccept : Accept → Bool
  | .ok => !s.backlog.isEmpty && !s.table.full
  | .failed .EMFILE => s.table.full
  | .failed .EAGAIN => s.backlog.isEmpty
  | .failed _ => true

end State

def enabled (s : State) : Action → Bool
  | .construct => decide (s.pc = .constructor)
  | .listen => decide (s.pc = .outside)
  | .handleRead r => decide (s.pc = .outside) && s.listenning && s.mayAccept r
  | .closeIdle => decide (s.pc = .closeIdle)
  | .acceptIdle r => decide (s.pc = .acceptIdle) && s.mayAccept r
  | .closeAccepted => decide (s.pc = .closeAccepted)
  | .openIdle => decide (s.pc = .openIdle)
  | .destroy => decide (s.pc = .outside)
  | .arrive => s.alive && s.listenning
  | .abort id => decide (id ∈ s.backlog)
  | .openOther => !s.table.full
  | .close fd =>
    match s.table.slot fd with
    | some .other | some (.connection _) => true
    | _ => false

def step (s : State) : Action → Except Fault State
  | .construct => s.construct
  | .listen => .ok { s with listenning := true }
  | .handleRead r => s.handleRead r
  | .closeIdle => .ok { s with table := s.table.close s.idleFd, pc := .acceptIdle }
  | .acceptIdle r => .ok (s.acceptIdle r)
  | .closeAccepted => .ok { s with table := s.table.close s.idleFd, pc := .openIdle }
  | .openIdle => .ok s.openIdle
  | .destroy => .ok { s with
      table := (s.table.close s.idleFd).close s.acceptSocket
      backlog := []
      aborted := s.aborted ++ s.backlog
      pc := .destroyed }
  | .arrive => .ok { s with backlog := s.backlog ++ [s.arrived], arrived := s.arrived + 1 }
  | .abort id => .ok { s with backlog := s.backlog.erase id, aborted := s.aborted ++ [id] }
  | .openOther =>
    match s.table.create .other with
    | some (_, table) => .ok { s with table := table }
    | none => .ok s
  | .close fd => .ok { s with table := s.table.set fd none }

def machine : Machine State Action Fault := ⟨enabled, step⟩

/-! ## Where the connections are -/

/-- The connections: each is waiting, accepted or aborted, and what is accepted was handed on or
refused. -/
structure Connections (s : State) : Prop where
  order : (s.accepted ++ s.backlog).Pairwise (· < ·)
  all : (s.accepted ++ s.backlog ++ s.aborted).Perm (List.range s.arrived)
  split : (s.handed.map Prod.fst ++ s.refused).Perm s.accepted
  handed : (s.handed.map Prod.fst).Sublist s.accepted

variable {s : State}

theorem acceptAs_some {use : Nat → Use} {id fd : Nat} {t : State}
    (h : s.acceptAs use = some (id, fd, t)) :
    ∃ backlog table, s.backlog = id :: backlog ∧ s.table.create (use id) = some (fd, table) ∧
      t = { s with table := table, backlog := backlog, accepted := s.accepted ++ [id] } := by
  unfold State.acceptAs at h
  split at h
  · cases h
  · next id' backlog hb =>
    obtain ⟨⟨fd', table⟩, hc, he⟩ := Option.map_eq_some_iff.1 h
    cases he
    exact ⟨backlog, table, hb, hc, rfl⟩

namespace Connections

theorem init (limit : Nat) (opened : Nat → Bool) (callback : Bool) :
    Connections (init limit opened callback) :=
  ⟨List.Pairwise.nil, List.Perm.refl _, List.Perm.refl _, List.Sublist.refl _⟩

/-- Changes of everything else. -/
theorem congr {t : State} (h : Connections s) (haccepted : t.accepted = s.accepted)
    (hbacklog : t.backlog = s.backlog) (haborted : t.aborted = s.aborted)
    (harrived : t.arrived = s.arrived) (hhanded : t.handed = s.handed)
    (hrefused : t.refused = s.refused) : Connections t := by
  refine ⟨?_, ?_, ?_, ?_⟩
  · rw [haccepted, hbacklog]
    exact h.order
  · rw [haccepted, hbacklog, haborted, harrived]
    exact h.all
  · rw [hhanded, hrefused, haccepted]
    exact h.split
  · rw [hhanded, haccepted]
    exact h.handed

theorem lt_arrived (h : Connections s) {id : Nat} (hid : id ∈ s.accepted ++ s.backlog) :
    id < s.arrived :=
  List.mem_range.1 (h.all.subset (List.mem_append_left _ hid))

/-- The first one that waits is accepted: it is handed on or refused. -/
theorem accept (h : Connections s) {t : State} {id : Nat} (hb : s.backlog = id :: t.backlog)
    (haccepted : t.accepted = s.accepted ++ [id]) (haborted : t.aborted = s.aborted)
    (harrived : t.arrived = s.arrived)
    (hsplit : (t.handed.map Prod.fst ++ t.refused).Perm
      (s.handed.map Prod.fst ++ s.refused ++ [id]))
    (hhanded : (t.handed.map Prod.fst).Sublist (s.handed.map Prod.fst ++ [id])) :
    Connections t := by
  have hlist : t.accepted ++ t.backlog = s.accepted ++ s.backlog := by
    rw [haccepted, hb, List.append_assoc]
    rfl
  refine ⟨?_, ?_, ?_, ?_⟩
  · rw [hlist]
    exact h.order
  · rw [hlist, haborted, harrived]
    exact h.all
  · rw [haccepted]
    exact hsplit.trans (h.split.append_right [id])
  · rw [haccepted]
    exact hhanded.trans (h.handed.append_right [id])

theorem arrive (h : Connections s) :
    Connections { s with backlog := s.backlog ++ [s.arrived], arrived := s.arrived + 1 } := by
  refine ⟨?_, ?_, h.split, h.handed⟩
  · show (s.accepted ++ (s.backlog ++ [s.arrived])).Pairwise (· < ·)
    rw [← List.append_assoc, List.pairwise_append]
    refine ⟨h.order, List.pairwise_singleton _ _, ?_⟩
    intro a ha b hb
    rw [List.mem_singleton] at hb
    rw [hb]
    exact h.lt_arrived ha
  · show (s.accepted ++ (s.backlog ++ [s.arrived]) ++ s.aborted).Perm (List.range (s.arrived + 1))
    rw [List.range_succ, ← List.append_assoc, List.append_assoc _ [s.arrived]]
    refine (List.Perm.append_left _ List.perm_append_comm).trans ?_
    rw [← List.append_assoc]
    exact h.all.append_right [s.arrived]

theorem abort (h : Connections s) {id : Nat} (hid : id ∈ s.backlog) :
    Connections { s with backlog := s.backlog.erase id, aborted := s.aborted ++ [id] } := by
  refine ⟨?_, ?_, h.split, h.handed⟩
  · exact h.order.sublist (List.Sublist.append_left List.erase_sublist _)
  · show (s.accepted ++ s.backlog.erase id ++ (s.aborted ++ [id])).Perm _
    refine List.Perm.trans ?_ h.all
    rw [List.append_assoc, List.append_assoc]
    refine List.Perm.append_left _ ?_
    rw [← List.append_assoc]
    have hswap : (s.backlog.erase id ++ s.aborted ++ [id]).Perm
        ([id] ++ (s.backlog.erase id ++ s.aborted)) := List.perm_append_comm
    refine hswap.trans ?_
    rw [← List.append_assoc]
    exact List.Perm.append_right _ (List.perm_cons_erase hid).symm

theorem destroy (h : Connections s) {t : State} (haccepted : t.accepted = s.accepted)
    (hbacklog : t.backlog = []) (haborted : t.aborted = s.aborted ++ s.backlog)
    (harrived : t.arrived = s.arrived) (hhanded : t.handed = s.handed)
    (hrefused : t.refused = s.refused) : Connections t := by
  refine ⟨?_, ?_, ?_, ?_⟩
  · rw [haccepted, hbacklog, List.append_nil]
    exact h.order.sublist (List.sublist_append_left _ _)
  · rw [haccepted, hbacklog, haborted, harrived, List.append_nil]
    refine List.Perm.trans ?_ h.all
    rw [List.append_assoc]
    exact List.Perm.append_left _ List.perm_append_comm
  · rw [hhanded, hrefused, haccepted]
    exact h.split
  · rw [hhanded, haccepted]
    exact h.handed

theorem step (h : Connections s) {a : Action} {t : State} (he : enabled s a = true)
    (ht : Acceptor.step s a = .ok t) : Connections t := by
  cases a with
  | construct =>
    simp only [Acceptor.step, State.construct] at ht
    split at ht
    · cases ht
    · split at ht
      · cases ht
      · cases ht
        exact h.congr rfl rfl rfl rfl rfl rfl
  | handleRead r =>
    cases r with
    | ok =>
      cases ht
      unfold State.handleAccepted
      split
      · exact h
      · next id fd u hu =>
        obtain ⟨backlog, table, hb, -, rfl⟩ := acceptAs_some hu
        split
        · refine h.accept hb rfl rfl rfl ?_ ?_
          · show ((s.handed ++ [(id, fd)]).map Prod.fst ++ s.refused).Perm _
            rw [List.map_append, List.append_assoc, List.append_assoc]
            exact List.Perm.append_left _ List.perm_append_comm
          · show ((s.handed ++ [(id, fd)]).map Prod.fst).Sublist _
            rw [List.map_append]
            exact List.Sublist.refl _
        · refine h.accept hb rfl rfl rfl ?_ (List.sublist_append_left _ _)
          show (s.handed.map Prod.fst ++ (s.refused ++ [id])).Perm _
          rw [List.append_assoc]
    | failed e =>
      simp only [Acceptor.step, State.handleRead] at ht
      split at ht
      · cases ht
      · split at ht
        · cases ht
          exact h.congr rfl rfl rfl rfl rfl rfl
        · cases ht
          exact h
  | acceptIdle r =>
    cases ht
    cases r with
    | failed e => exact h.congr rfl rfl rfl rfl rfl rfl
    | ok =>
      simp only [State.acceptIdle]
      split
      · exact h
      · next id fd u hu =>
        obtain ⟨backlog, table, hb, -, rfl⟩ := acceptAs_some hu
        refine h.accept hb rfl rfl rfl ?_ (List.sublist_append_left _ _)
        show (s.handed.map Prod.fst ++ (s.refused ++ [id])).Perm _
        rw [List.append_assoc]
  | openIdle =>
    cases ht
    unfold State.openIdle
    split <;> exact h.congr rfl rfl rfl rfl rfl rfl
  | destroy =>
    cases ht
    exact h.destroy rfl rfl rfl rfl rfl rfl
  | arrive =>
    cases ht
    exact h.arrive
  | abort id =>
    cases ht
    exact h.abort (of_decide_eq_true he)
  | openOther =>
    simp only [Acceptor.step] at ht
    split at ht <;> cases ht
    · exact h.congr rfl rfl rfl rfl rfl rfl
    · exact h
  | listen | closeIdle | closeAccepted | close fd =>
    cases ht
    exact h.congr rfl rfl rfl rfl rfl rfl

end Connections

end Rawmd.Acceptor
