import Rawmd.Lib.Machine
import Rawmd.Lib.Printf
import Rawmd.Net.Channel

/-!
# `net/TcpConnection.cpp`

A connection changes its own state and asks others for the rest: its channel (`update`,
`remove`), the user's callbacks and the server's `closeCallback`.  None of them answers, so a
function of the connection returns the connection with its requests appended in order.
`handleEvent` is what the channel does with the events of one `poll`.

    the calls from connectEstablished to connectDestroyed meet no fault, and the connection
    closes at most once, iff no events clash                     (closesOnce_iff_no_clash)
-/

namespace Rawmd

inductive StateE where
  | kDisconnected
  | kConnecting
  | kConnected
  | kDisconnecting
deriving DecidableEq

/-- What a connection asks of its channel, of the user and of the server. -/
inductive Request where
  | update (op : Channel.Op)
  | remove
  | connectionCallback (connected : Bool)
  | messageCallback (n : Int)
  | closeCallback
deriving DecidableEq

/-- The `events_` of the channel after the request. -/
def Request.events (events : BitVec 32) : Request → BitVec 32
  | .update op => op.events events
  | _ => events

/-- The requests that change neither the counts nor the interest. -/
def Request.quiet : Request → Bool
  | .remove => true
  | .messageCallback _ => true
  | _ => false

theorem Request.quiet_ne {r r' : Request} (h : r.quiet = true) (h' : r'.quiet = false) :
    r ≠ r' := by
  rintro rfl
  rw [h] at h'
  cases h'

theorem Request.events_quiet {r : Request} (h : r.quiet = true) (e : BitVec 32) :
    Request.events e r = e := by
  cases r with
  | remove => rfl
  | messageCallback n => rfl
  | update op => cases h
  | connectionCallback b => cases h
  | closeCallback => cases h

structure TcpConnection where
  name : Text
  sockfd : Int
  state : StateE
  /-- ghost: the states before -/
  past : List StateE
  requests : List Request

namespace TcpConnection

inductive Fault where
  | assertFailed
deriving DecidableEq

/-- The constructor. -/
def make (nameArg : Text) (sockfd : Int) : TcpConnection :=
  ⟨nameArg, sockfd, .kConnecting, [], []⟩

variable (c : TcpConnection)

def connected : Bool := decide (c.state = .kConnected)

def setState (s : StateE) : TcpConnection := { c with state := s, past := c.past ++ [c.state] }

def request (r : Request) : TcpConnection := { c with requests := c.requests ++ [r] }

/-- `connectionCallback_(shared_from_this())` -/
def callBack : TcpConnection := c.request (.connectionCallback c.connected)

def connectEstablished : Except Fault TcpConnection :=
  if c.state = .kConnecting then
    .ok ((c.setState .kConnected).request (.update .enableReading)).callBack
  else .error .assertFailed

def connectDestroyed : TcpConnection :=
  let c := if c.state = .kConnected then
      ((c.setState .kDisconnected).request (.update .disableAll)).callBack
    else c
  c.request .remove

def handleClose : Except Fault TcpConnection :=
  if c.state = .kConnected ∨ c.state = .kDisconnecting then
    .ok ((((c.setState .kDisconnected).request (.update .disableAll)).callBack).request
      .closeCallback)
  else .error .assertFailed

/-- `handleError` reads `SO_ERROR` and logs it. -/
def handleError : TcpConnection := c

/-- `read` returns `n`. -/
def handleRead (n : Int) : Except Fault TcpConnection :=
  if n > 0 then .ok (c.request (.messageCallback n))
  else if n = 0 then c.handleClose
  else .ok c.handleError

/-- What the constructor has set the channel's callbacks to; no write callback is set. -/
def callback (n : Int) (c : TcpConnection) : Channel.Callback → Except Fault TcpConnection
  | .close => c.handleClose
  | .error => .ok c.handleError
  | .read => c.handleRead n
  | .write => .ok c

/-- `channel_->handleEvent`, with `revents_` and what a `read` would return. -/
def handleEvent (revents : BitVec 32) (n : Int) : Except Fault TcpConnection :=
  (Channel.handleEventWithGuard revents).foldlM (callback n) c

def events : BitVec 32 := c.requests.foldl Request.events Channel.kNoneEvent

/-! ## From `connectEstablished` to `connectDestroyed` -/

inductive Action where
  | connectEstablished
  | handleEvent (revents : BitVec 32) (n : Int)
  | connectDestroyed

/-- What the kernel reports also where it was not asked for. -/
def unasked : BitVec 32 := POLLERR ||| POLLHUP ||| POLLNVAL

/-- The server makes each of its two calls once.  A channel that asks for nothing is not watched,
and of the others the kernel reports what they ask for and the unasked bits. -/
def enabled (c : TcpConnection) : Action → Bool
  | .connectEstablished => decide (c.past = [])
  | .handleEvent revents _ =>
    decide (c.events ≠ 0) && decide (revents &&& ~~~(c.events ||| unasked) = 0)
  | .connectDestroyed => decide (c.past ≠ []) && decide (Request.remove ∉ c.requests)

def step (c : TcpConnection) : Action → Except Fault TcpConnection
  | .connectEstablished => c.connectEstablished
  | .handleEvent revents n => c.handleEvent revents n
  | .connectDestroyed => .ok c.connectDestroyed

def machine : Machine TcpConnection Action Fault := ⟨enabled, step⟩

/-- `POLLHUP` closes the connection, and `POLLPRI` in the same report reads an end of file, which
closes it again. -/
def Clash : Action → Prop
  | .handleEvent revents n =>
    Channel.has revents POLLHUP = true ∧ Channel.has revents POLLIN = false ∧
      Channel.has revents POLLPRI = true ∧ n = 0
  | _ => False

instance decidableClash : DecidablePred Clash
  | .connectEstablished => isFalse id
  | .handleEvent _ _ => inferInstanceAs (Decidable (_ ∧ _ ∧ _ ∧ _))
  | .connectDestroyed => isFalse id

/-- The state goes from `kConnecting` to `kConnected` to `kDisconnected`, and each callback is
called as often as it should be. -/
structure ClosesOnce (c : TcpConnection) : Prop where
  states : c.past ++ [c.state] <+: [.kConnecting, .kConnected, .kDisconnected]
  close : c.requests.count .closeCallback ≤ 1
  up : c.requests.count (.connectionCallback true) = if c.past = [] then 0 else 1
  down : c.requests.count (.connectionCallback false) ≤ 1

/-! ## The three phases -/

/-- After `connectEstablished`. -/
structure Up (c : TcpConnection) : Prop where
  past : c.past = [.kConnecting]
  state : c.state = .kConnected
  close : c.requests.count .closeCallback = 0
  up : c.requests.count (.connectionCallback true) = 1
  down : c.requests.count (.connectionCallback false) = 0
  events : c.events = Channel.kReadEvent

/-- After `handleClose` or `connectDestroyed`. -/
structure Down (c : TcpConnection) : Prop where
  past : c.past = [.kConnecting, .kConnected]
  state : c.state = .kDisconnected
  close : c.requests.count .closeCallback ≤ 1
  up : c.requests.count (.connectionCallback true) = 1
  down : c.requests.count (.connectionCallback false) = 1
  events : c.events = Channel.kNoneEvent

inductive Phase (c : TcpConnection) : Prop where
  | fresh (past : c.past = []) (state : c.state = .kConnecting) (requests : c.requests = [])
  | up (h : Up c)
  | down (h : Down c)

theorem Phase.closesOnce {c : TcpConnection} (h : Phase c) : ClosesOnce c := by
  cases h with
  | fresh hp hs hr =>
    refine ⟨?_, ?_, ?_, ?_⟩
    · rw [hp, hs]
      exact ⟨[.kConnected, .kDisconnected], rfl⟩
    · simp [hr]
    · simp [hr, hp]
    · simp [hr]
  | up h =>
    refine ⟨?_, ?_, ?_, ?_⟩
    · rw [h.past, h.state]
      exact ⟨[.kDisconnected], rfl⟩
    · rw [h.close]
      exact Nat.zero_le 1
    · rw [h.up, h.past]
      rfl
    · rw [h.down]
      exact Nat.zero_le 1
  | down h =>
    refine ⟨?_, h.close, ?_, Nat.le_of_eq h.down⟩
    · rw [h.past, h.state]
      exact ⟨[], rfl⟩
    · rw [h.up, h.past]
      rfl

@[simp] theorem events_request (c : TcpConnection) (r : Request) :
    (c.request r).events = Request.events c.events r := by
  simp [events, request]

@[simp] theorem events_setState (c : TcpConnection) (s : StateE) :
    (c.setState s).events = c.events := rfl

theorem count_request {c : TcpConnection} {r r' : Request} (h : r ≠ r') :
    (c.request r).requests.count r' = c.requests.count r' := by
  simp [request, List.count_append, h]

theorem count_request_self (c : TcpConnection) (r : Request) :
    (c.request r).requests.count r = c.requests.count r + 1 := by
  simp [request, List.count_append]

variable {c : TcpConnection}

theorem Up.quiet (h : Up c) {r : Request} (hr : r.quiet = true) : Up (c.request r) where
  past := h.past
  state := h.state
  close := by rw [count_request (Request.quiet_ne hr rfl), h.close]
  up := by rw [count_request (Request.quiet_ne hr rfl), h.up]
  down := by rw [count_request (Request.quiet_ne hr rfl), h.down]
  events := by rw [events_request, Request.events_quiet hr, h.events]

theorem Down.quiet (h : Down c) {r : Request} (hr : r.quiet = true) : Down (c.request r) where
  past := h.past
  state := h.state
  close := by
    rw [count_request (Request.quiet_ne hr rfl)]
    exact h.close
  up := by rw [count_request (Request.quiet_ne hr rfl), h.up]
  down := by rw [count_request (Request.quiet_ne hr rfl), h.down]
  events := by rw [events_request, Request.events_quiet hr, h.events]

/-- What `handleClose` and `connectDestroyed` both do to a connection that is up. -/
def takeDown (c : TcpConnection) : TcpConnection :=
  ((c.setState .kDisconnected).request (.update .disableAll)).callBack

theorem Up.takeDown (h : Up c) :
    Down c.takeDown ∧ c.takeDown.requests.count .closeCallback = 0 := by
  have hclose : c.takeDown.requests.count .closeCallback = 0 := by
    simpa [TcpConnection.takeDown, callBack, request, setState] using h.close
  refine ⟨⟨?_, rfl, by omega, ?_, ?_, ?_⟩, hclose⟩
  · simp [TcpConnection.takeDown, callBack, request, setState, h.past, h.state]
  · simpa [TcpConnection.takeDown, callBack, request, setState, connected] using h.up
  · simpa [TcpConnection.takeDown, callBack, request, setState, connected] using h.down
  · simp [TcpConnection.takeDown, callBack, Request.events, Channel.Op.events]

theorem Up.handleClose (h : Up c) : ∃ c', c.handleClose = .ok c' ∧ Down c' := by
  obtain ⟨hd, hclose⟩ := h.takeDown
  refine ⟨c.takeDown.request .closeCallback, if_pos (.inl h.state), ?_⟩
  refine ⟨hd.past, hd.state, ?_, ?_, ?_, ?_⟩
  · rw [count_request_self, hclose]
  · rw [count_request (by decide), hd.up]
  · rw [count_request (by decide), hd.down]
  · rw [events_request, hd.events]
    rfl

theorem Down.handleClose (h : Down c) : c.handleClose = .error .assertFailed := by
  rw [TcpConnection.handleClose, if_neg]
  rw [h.state]
  decide

theorem Up.handleRead (h : Up c) (n : Int) :
    ∃ c', c.handleRead n = .ok c' ∧ (Up c' ∨ Down c') := by
  unfold TcpConnection.handleRead
  split
  · exact ⟨_, rfl, .inl (h.quiet rfl)⟩
  · split
    · obtain ⟨c', hc', hd⟩ := h.handleClose
      exact ⟨c', hc', .inr hd⟩
    · exact ⟨_, rfl, .inl h⟩

theorem Down.handleRead_of_ne (h : Down c) {n : Int} (hn : n ≠ 0) :
    ∃ c', c.handleRead n = .ok c' ∧ Down c' := by
  unfold TcpConnection.handleRead
  split
  · exact ⟨_, rfl, h.quiet rfl⟩
  · exact ⟨_, rfl, h⟩

/-- A second end of file. -/
theorem Down.handleRead_zero (h : Down c) : c.handleRead 0 = .error .assertFailed :=
  h.handleClose

/-! ## One report -/

/-- Of a connection that is up, the report can hold only what it reads and the unasked bits. -/
theorem callbacks_of_mask {revents : BitVec 32}
    (h : revents &&& ~~~(Channel.kReadEvent ||| unasked) = 0) :
    Channel.handleEventWithGuard revents =
      (if Channel.has revents POLLHUP && !Channel.has revents POLLIN then [.close] else []) ++
        ((if Channel.has revents (POLLERR ||| POLLNVAL) then [.error] else []) ++
          if Channel.has revents POLLIN || Channel.has revents POLLPRI then [.read] else []) := by
  have hout : Channel.has revents POLLOUT = false := Channel.has_eq_false_of_mask h (by decide)
  have hrdhup : Channel.has revents POLLRDHUP = false := Channel.has_eq_false_of_mask h (by decide)
  simp [Channel.handleEventWithGuard, Channel.has_or, hout, hrdhup]

theorem foldlM_error (n : Int) (c : TcpConnection) (b : Bool) (rest : List Channel.Callback) :
    ((if b then [Channel.Callback.error] else []) ++ rest).foldlM (callback n) c =
      rest.foldlM (callback n) c := by
  cases b <;> rfl

theorem foldlM_read (n : Int) (c : TcpConnection) :
    [Channel.Callback.read].foldlM (callback n) c = c.handleRead n := by
  rw [List.foldlM_cons]
  show (c.handleRead n >>= fun c' => pure c') = _
  rw [bind_pure]

variable {revents : BitVec 32} {n : Int}

/-- The report closes the connection by itself: what is left is a read of priority data. -/
theorem Up.handleEvent_hup (h : Up c) (hm : revents &&& ~~~(Channel.kReadEvent ||| unasked) = 0)
    (hhup : Channel.has revents POLLHUP = true) (hin : Channel.has revents POLLIN = false) :
    ∃ c', Down c' ∧
      c.handleEvent revents n =
        if Channel.has revents POLLPRI then c'.handleRead n else .ok c' := by
  obtain ⟨c', hc', hd⟩ := h.handleClose
  refine ⟨c', hd, ?_⟩
  rw [handleEvent, callbacks_of_mask hm, hhup, hin]
  simp only [Bool.not_false, Bool.and_true, if_true, Bool.false_or, List.singleton_append,
    List.foldlM_cons]
  show (c.handleClose >>= _) = _
  rw [hc']
  show List.foldlM (callback n) c' _ = _
  rw [foldlM_error]
  cases Channel.has revents POLLPRI with
  | false => rfl
  | true => exact foldlM_read n c'

theorem Up.handleEvent_noHup (h : Up c) (hm : revents &&& ~~~(Channel.kReadEvent ||| unasked) = 0)
    (hhup : (Channel.has revents POLLHUP && !Channel.has revents POLLIN) = false) :
    ∃ c', c.handleEvent revents n = .ok c' ∧ (Up c' ∨ Down c') := by
  rw [handleEvent, callbacks_of_mask hm, hhup, if_neg (by decide), List.nil_append, foldlM_error]
  split
  · rw [foldlM_read]
    exact h.handleRead n
  · exact ⟨c, rfl, .inl h⟩

theorem Up.handleEvent_ok (h : Up c) (hm : revents &&& ~~~(Channel.kReadEvent ||| unasked) = 0)
    (hn : ¬ Clash (.handleEvent revents n)) :
    ∃ c', c.handleEvent revents n = .ok c' ∧ (Up c' ∨ Down c') := by
  cases hhup : Channel.has revents POLLHUP && !Channel.has revents POLLIN with
  | false => exact h.handleEvent_noHup hm hhup
  | true =>
    rw [Bool.and_eq_true, Bool.not_eq_true'] at hhup
    obtain ⟨c', hd, hc'⟩ := h.handleEvent_hup (n := n) hm hhup.1 hhup.2
    rw [hc']
    split
    · next hpri =>
      obtain ⟨c'', hc'', hd'⟩ := hd.handleRead_of_ne
        (fun h0 => hn ⟨hhup.1, hhup.2, hpri, h0⟩)
      exact ⟨c'', hc'', .inr hd'⟩
    · exact ⟨c', rfl, .inr hd⟩

theorem Up.handleEvent_clash (h : Up c) (hm : revents &&& ~~~(Channel.kReadEvent ||| unasked) = 0)
    (hclash : Clash (.handleEvent revents n)) :
    c.handleEvent revents n = .error .assertFailed := by
  obtain ⟨hhup, hin, hpri, rfl⟩ := hclash
  obtain ⟨c', hd, hc'⟩ := h.handleEvent_hup (n := 0) hm hhup hin
  rw [hc', if_pos hpri]
  exact hd.handleRead_zero

/-! ## All calls -/

theorem Phase.make (nameArg : Text) (sockfd : Int) : Phase (make nameArg sockfd) :=
  .fresh rfl rfl rfl

/-- Only a connection that is up gets events, and it is asked for the two read bits. -/
theorem Phase.up_of_event (h : Phase c) {n : Int}
    (he : enabled c (.handleEvent revents n) = true) :
    Up c ∧ revents &&& ~~~(Channel.kReadEvent ||| unasked) = 0 := by
  simp only [enabled, Bool.and_eq_true, decide_eq_true_eq] at he
  obtain ⟨hne, hm⟩ := he
  cases h with
  | fresh hp hs hr => exact absurd (by rw [events, hr]; rfl) hne
  | up h =>
    rw [h.events] at hm
    exact ⟨h, hm⟩
  | down h => exact absurd h.events hne

theorem Phase.connectEstablished (h : Phase c) (hp : c.past = []) :
    ∃ c', c.connectEstablished = .ok c' ∧ Phase c' := by
  cases h with
  | fresh _ hs hr =>
    refine ⟨_, if_pos hs, .up ⟨?_, rfl, ?_, ?_, ?_, ?_⟩⟩
    · simp [callBack, request, setState, hp, hs]
    · simp [callBack, request, setState, hr]
    · simp [callBack, request, setState, hr, connected]
    · simp [callBack, request, setState, hr, connected]
    · simp only [callBack, events_request, events_setState, Request.events, Channel.Op.events]
      rw [events, hr]
      rfl
  | up h => exact absurd (h.past.symm.trans hp) (by decide)
  | down h => exact absurd (h.past.symm.trans hp) (by decide)

theorem Phase.connectDestroyed (h : Phase c) (hp : c.past ≠ []) : Phase c.connectDestroyed := by
  cases h with
  | fresh hp' _ _ => exact absurd hp' hp
  | up h =>
    rw [TcpConnection.connectDestroyed, if_pos h.state]
    exact .down (h.takeDown.1.quiet rfl)
  | down h =>
    rw [TcpConnection.connectDestroyed, if_neg (by rw [h.state]; decide)]
    exact .down (h.quiet rfl)

theorem Phase.step_ok (c : TcpConnection) (a : Action) (h : Phase c)
    (he : machine.enabled c a = true) (hn : ¬ Clash a) :
    ∃ c', machine.step c a = .ok c' ∧ Phase c' := by
  cases a with
  | connectEstablished => exact h.connectEstablished (of_decide_eq_true he)
  | handleEvent revents n =>
    obtain ⟨hup, hm⟩ := h.up_of_event (n := n) he
    obtain ⟨c', hc', hud⟩ := hup.handleEvent_ok hm hn
    exact ⟨c', hc', hud.elim .up .down⟩
  | connectDestroyed =>
    have hp := of_decide_eq_true (Bool.and_eq_true .. ▸ he : _ ∧ _).1
    exact ⟨_, rfl, h.connectDestroyed hp⟩

theorem Phase.step_only (c : TcpConnection) (a : Action) (c' : TcpConnection) (h : Phase c)
    (he : machine.enabled c a = true) (hs : machine.step c a = .ok c') : ¬ Clash a := by
  cases a with
  | connectEstablished => exact id
  | handleEvent revents n =>
    intro hclash
    obtain ⟨hup, hm⟩ := h.up_of_event (n := n) he
    have herr := hup.handleEvent_clash hm hclash
    exact absurd (herr.symm.trans hs) (by simp)
  | connectDestroyed => exact id

/-- From its construction on, a connection meets no fault and closes at most once, whatever the
order of calls, events and results of `read`, iff no report holds `POLLHUP` and `POLLPRI` without
`POLLIN` where `read` returns zero. -/
theorem closesOnce_iff_no_clash (nameArg : Text) (sockfd : Int) (as : List Action)
    {r : Except Fault TcpConnection} (h : machine.exec (make nameArg sockfd) as = some r) :
    (∃ c, r = .ok c ∧ ClosesOnce c) ↔ ∀ a ∈ as, ¬ Clash a :=
  Machine.exec_isOk_iff (fun _ => Phase.closesOnce) Phase.step_ok Phase.step_only
    (Phase.make nameArg sockfd) h

/-- Data, then an end of file. -/
def dataThenEof : List Action :=
  [.connectEstablished, .handleEvent POLLIN 4, .handleEvent (POLLIN ||| POLLHUP) 0,
    .connectDestroyed]

theorem dataThenEof_closesOnce :
    ∃ r, machine.exec (make [] 7) dataThenEof = some r ∧ ∃ c, r = .ok c ∧ ClosesOnce c :=
  ⟨_, rfl, (closesOnce_iff_no_clash [] 7 dataThenEof rfl).2 (by decide)⟩

/-- The end of file is read after `POLLHUP` has closed the connection. -/
theorem hupThenEof_closes_twice :
    machine.exec (make [] 7)
      [.connectEstablished, .handleEvent (POLLHUP ||| POLLPRI) 0] = some (.error .assertFailed) :=
  rfl

end TcpConnection

end Rawmd
