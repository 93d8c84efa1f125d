import Rawmd.Net.TcpConnection

/-!
# `net/TcpConnection.cpp`: the bytes of a connection

A `Link` is a connection with its socket: the bytes that have come and are not read, whether
the other end has closed or reset, and the `revents_` of a `poll` whose `handleEvent` is still
to come.  The other end writes, closes and resets at any time, also between the two.  `handleRead`
reads at most `kReadSize` bytes into a buffer of its own, and hands them to `messageCallback`.

    what the user got is what came, in order and without a gap; it comes after the one callback
    that the connection is up, before the one that it is down; and when the connection closes
    itself, unless it was reset, all of what came has been handed over    (stream_in_order)
-/

namespace Rawmd

/-- The callbacks of the user and of the server, and not what the channel is asked. -/
def Request.told : Request → Bool
  | .update _ => false
  | .remove => false
  | _ => true

namespace TcpConnection

/-- `sizeof buf` in `handleRead`. -/
def kReadSize : Nat := 65536

/-- What the user and the server were told. -/
def told (c : TcpConnection) : List Request := c.requests.filter Request.told

structure Link where
  conn : TcpConnection
  /-- in the socket -/
  unread : List UInt8
  /-- the other end has closed -/
  ended : Bool
  reset : Bool
  /-- of the channel, from `poll` to `handleEvent` -/
  revents : Option (BitVec 32)
  /-- ghost: all that the other end wrote -/
  received : List UInt8
  /-- ghost: what `messageCallback` was called with -/
  delivered : List (List UInt8)

namespace Link

/-- The constructor, over a socket that `accept` has returned. -/
def make (nameArg : Text) (sockfd : Int) : Link :=
  ⟨TcpConnection.make nameArg sockfd, [], false, false, none, [], []⟩

inductive Action where
  | connectEstablished
  | arrive (bytes : List UInt8)
  | finish
  /-- the kernel may keep some of what was not read -/
  | abort (kept : Nat)
  | poll (revents : BitVec 32)
  | handleEvent (n : Int)
  | connectDestroyed

variable (l : Link)

/-- What `read` may return: an error is always possible, zero is the end of the stream. -/
def readable (n : Int) : Bool :=
  decide (n = -1) || decide (n = 0 ∧ l.unread = [] ∧ l.ended = true) ||
    decide (0 < n ∧ n ≤ kReadSize ∧ n ≤ l.unread.length)

/-- The kernel does not withhold what is there to be read, and reports `POLLHUP` only after the
end. -/
def truthful (revents : BitVec 32) : Bool :=
  (l.unread.isEmpty || Channel.has revents POLLIN) && (!Channel.has revents POLLHUP || l.ended)

def enabled : Action → Bool
  | .connectEstablished => TcpConnection.enabled l.conn .connectEstablished
  | .arrive _ => !l.ended
  | .finish => true
  | .abort _ => true
  | .poll revents =>
    l.revents.isNone && TcpConnection.enabled l.conn (.handleEvent revents 0) && l.truthful revents
  | .handleEvent n => l.revents.isSome && l.readable n
  | .connectDestroyed => l.revents.isNone && TcpConnection.enabled l.conn .connectDestroyed

/-- `::read(channel_->fd(), buf, sizeof buf)` has returned `n`, and a positive `n` is handed on. -/
def take (n : Int) : Link :=
  if 0 < n then
    { l with unread := l.unread.drop n.toNat
             delivered := l.delivered ++ [l.unread.take n.toNat] }
  else l

def handleEvent (revents : BitVec 32) (n : Int) : Except Fault Link := do
  let conn ← l.conn.handleEvent revents n
  let l := if .read ∈ Channel.handleEventWithGuard revents then l.take n else l
  return { l with conn := conn, revents := none }

def step : Action → Except Fault Link
  | .connectEstablished => return { l with conn := ← l.conn.connectEstablished }
  | .arrive bytes => .ok { l with unread := l.unread ++ bytes, received := l.received ++ bytes }
  | .finish => .ok { l with ended := true }
  | .abort kept => .ok { l with unread := l.unread.take kept, ended := true, reset := true }
  | .poll revents => .ok { l with revents := some revents }
  | .handleEvent n => l.handleEvent (l.revents.getD 0) n
  | .connectDestroyed => .ok { l with conn := l.conn.connectDestroyed }

def machine : Machine Link Action Fault := ⟨enabled, step⟩

/-- The calls of `messageCallback`. -/
def messages : List Request := l.delivered.map fun m => .messageCallback m.length

/-- What the user got, against what came. -/
structure InOrder (l : Link) : Prop where
  inOrder : l.delivered.flatten <+: l.received
  sizes : ∀ m ∈ l.delivered, 0 < m.length ∧ m.length ≤ kReadSize
  /-- up, the messages, down -/
  told : l.conn.told = [] ∧ l.delivered = [] ∨
    ∃ rest, rest <+: [.connectionCallback false, .closeCallback] ∧
      l.conn.told = .connectionCallback true :: l.messages ++ rest
  complete : l.reset = false → .closeCallback ∈ l.conn.told →
    l.ended = true ∧ l.delivered.flatten = l.received
  /-- between the two it asks to be read -/
  asks : .connectionCallback true ∈ l.conn.told → .connectionCallback false ∉ l.conn.told →
    l.conn.events = Channel.kReadEvent

end Link

/-! ## What is told -/

theorem told_request (c : TcpConnection) (r : Request) :
    (c.request r).told = if r.told then c.told ++ [r] else c.told := by
  rw [told, request, List.filter_append]
  cases h : r.told with
  | true => simp [h, told]
  | false => simp [h, told]

theorem told_setState (c : TcpConnection) (s : StateE) : (c.setState s).told = c.told := rfl

theorem told_takeDown (c : TcpConnection) :
    c.takeDown.told = c.told ++ [.connectionCallback false] := by
  rw [takeDown, callBack, told_request, told_request, told_setState]
  rfl

/-- The connection that `handleClose` leaves. -/
def closed (c : TcpConnection) : TcpConnection := c.takeDown.request .closeCallback

theorem told_closed (c : TcpConnection) :
    c.closed.told = c.told ++ [.connectionCallback false, .closeCallback] := by
  rw [closed, told_request, told_takeDown]
  show c.told ++ [_] ++ [_] = _
  rw [List.append_assoc]
  rfl

variable {c : TcpConnection} {revents : BitVec 32} {n : Int}

theorem handleClose_eq (h : c.state = .kConnected) : c.handleClose = .ok c.closed :=
  if_pos (.inl h)

theorem Up.down_closed (h : Up c) : Down c.closed := by
  obtain ⟨c', hc', hd⟩ := h.handleClose
  rw [handleClose_eq h.state] at hc'
  cases hc'
  exact hd

theorem Up.down_takeDown (h : Up c) : Down c.takeDown := h.takeDown.1

/-- What one report does to a connection that is up. -/
theorem handleEvent_eq (h : c.state = .kConnected)
    (hm : revents &&& ~~~(Channel.kReadEvent ||| unasked) = 0) :
    c.handleEvent revents n =
      if Channel.has revents POLLHUP && !Channel.has revents POLLIN then
        if Channel.has revents POLLPRI then c.closed.handleRead n else .ok c.closed
      else if Channel.has revents POLLIN || Channel.has revents POLLPRI then c.handleRead n
      else .ok c := by
  rw [TcpConnection.handleEvent, callbacks_of_mask hm]
  cases hhup : Channel.has revents POLLHUP && !Channel.has revents POLLIN with
  | true =>
    rw [Bool.and_eq_true, Bool.not_eq_true'] at hhup
    rw [hhup.2]
    simp only [if_true, List.singleton_append, List.foldlM_cons]
    show (c.handleClose >>= _) = _
    rw [handleClose_eq h]
    show List.foldlM (callback n) c.closed _ = _
    rw [foldlM_error]
    cases Channel.has revents POLLPRI with
    | true => exact foldlM_read n c.closed
    | false => rfl
  | false =>
    rw [if_neg Bool.false_ne_true, if_neg Bool.false_ne_true, List.nil_append, foldlM_error]
    cases Channel.has revents POLLIN || Channel.has revents POLLPRI with
    | true => exact foldlM_read n c
    | false => rfl

/-- The read callback is called for the two read bits. -/
theorem read_mem_iff (hm : revents &&& ~~~(Channel.kReadEvent ||| unasked) = 0) :
    .read ∈ Channel.handleEventWithGuard revents ↔
      (Channel.has revents POLLIN || Channel.has revents POLLPRI) = true := by
  rw [callbacks_of_mask hm]
  cases Channel.has revents POLLHUP && !Channel.has revents POLLIN <;>
    cases Channel.has revents (POLLERR ||| POLLNVAL) <;>
    cases Channel.has revents POLLIN || Channel.has revents POLLPRI <;> decide

namespace Link

variable {l l' : Link}

/-! ## One report -/

theorem readable_iff : l.readable n = true ↔
    n = -1 ∨ (n = 0 ∧ l.unread = [] ∧ l.ended = true) ∨
      (0 < n ∧ n ≤ kReadSize ∧ n ≤ l.unread.length) := by
  simp only [readable, Bool.or_eq_true, decide_eq_true_eq, or_assoc]

/-- The user's part of a `read` that got something. -/
def deliver (l : Link) (n : Int) : Link :=
  { l.take n with conn := l.conn.request (.messageCallback n), revents := none }

/-- The connection closes itself. -/
def close (l : Link) : Link := { l with conn := l.conn.closed, revents := none }

/-- What is told of a connection, and whether it is up. -/
inductive Story (l : Link) : Prop where
  | fresh (past : l.conn.past = []) (state : l.conn.state = .kConnecting)
      (requests : l.conn.requests = []) (delivered : l.delivered = [])
  | up (h : Up l.conn) (told : l.conn.told = .connectionCallback true :: l.messages)
  | down (h : Down l.conn) (rest : List Request)
      (hrest : rest <+: [.connectionCallback false, .closeCallback])
      (told : l.conn.told = .connectionCallback true :: l.messages ++ rest)

structure Flow (l : Link) : Prop where
  kept : l.delivered.flatten ++ l.unread <+: l.received
  whole : l.reset = false → l.delivered.flatten ++ l.unread = l.received
  aborted : l.reset = true → l.ended = true
  sizes : ∀ m ∈ l.delivered, 0 < m.length ∧ m.length ≤ kReadSize
  polled : ∀ revents ∈ l.revents, Up l.conn ∧
    revents &&& ~~~(Channel.kReadEvent ||| unasked) = 0 ∧
      ((Channel.has revents POLLHUP && !Channel.has revents POLLIN) = true →
        l.ended = true ∧ l.unread = [])
  story : Story l
  closed : .closeCallback ∈ l.conn.told → l.ended = true ∧ l.unread = []

theorem take_of_nonpos (hn : ¬ 0 < n) : l.take n = l := if_neg hn

theorem handleEvent_read (hread : .read ∈ Channel.handleEventWithGuard revents)
    {c' : TcpConnection} (hc : l.conn.handleEvent revents n = .ok c') :
    l.handleEvent revents n = .ok { l.take n with conn := c', revents := none } := by
  rw [handleEvent, hc]
  show Except.ok _ = _
  rw [if_pos hread]

theorem handleEvent_noRead (hread : .read ∉ Channel.handleEventWithGuard revents)
    {c' : TcpConnection} (hc : l.conn.handleEvent revents n = .ok c') :
    l.handleEvent revents n = .ok { l with conn := c', revents := none } := by
  rw [handleEvent, hc]
  show Except.ok _ = _
  rw [if_neg hread]

/-- Unless data are read, the report changes the connection alone. -/
theorem handleEvent_of_nonpos (hn : ¬ 0 < n) {c' : TcpConnection}
    (hc : l.conn.handleEvent revents n = .ok c') :
    l.handleEvent revents n = .ok { l with conn := c', revents := none } := by
  by_cases hread : .read ∈ Channel.handleEventWithGuard revents
  · rw [handleEvent_read hread hc, take_of_nonpos hn]
  · exact handleEvent_noRead hread hc

theorem handleEvent_ok (hs : l.handleEvent revents n = .ok l') :
    ∃ c', l.conn.handleEvent revents n = .ok c' := by
  cases hc : l.conn.handleEvent revents n with
  | ok c' => exact ⟨c', rfl⟩
  | error e =>
    rw [handleEvent, hc] at hs
    cases hs

/-- A report leaves the connection as it is, hands data to the user, or closes the connection
when there is nothing left to be read. -/
theorem Flow.handleEvent_cases (h : Flow l) (hrev : l.revents = some revents)
    (hn : l.readable n = true) (hs : l.handleEvent revents n = .ok l') :
    l' = { l with revents := none } ∨
      (0 < n ∧ n ≤ kReadSize ∧ n ≤ l.unread.length ∧ l' = l.deliver n) ∨
      (l.ended = true ∧ l.unread = [] ∧ l' = l.close) := by
  obtain ⟨hup, hm, hhup⟩ := h.polled revents hrev
  obtain ⟨c', hc⟩ := handleEvent_ok hs
  have heq := handleEvent_eq (n := n) hup.state hm
  rw [hc] at heq
  split at heq
  · next hb =>
    -- the kernel has reported the end of the stream: there is nothing to be read
    obtain ⟨hended, hunread⟩ := hhup hb
    have hneg : ¬ 0 < n := by
      rcases readable_iff.1 hn with hn | ⟨hn, -⟩ | ⟨-, -, hn⟩
      · omega
      · omega
      · rw [hunread] at hn
        simpa using hn
    have hclosed : c' = l.conn.closed := by
      split at heq
      · by_cases hzero : n = 0
        · rw [hzero, hup.down_closed.handleRead_zero] at heq
          cases heq
        · rw [TcpConnection.handleRead, if_neg hneg, if_neg hzero] at heq
          cases heq
          rfl
      · cases heq
        rfl
    rw [handleEvent_of_nonpos hneg hc, hclosed] at hs
    cases hs
    exact .inr (.inr ⟨hended, hunread, rfl⟩)
  · split at heq
    · next hb =>
      rcases readable_iff.1 hn with rfl | ⟨rfl, hunread, hended⟩ | ⟨hpos, hsize, hlen⟩
      · rw [handleEvent_of_nonpos (by decide) hc] at hs
        cases hs
        cases heq
        exact .inl rfl
      · have hclosed : c' = l.conn.closed := by
          have h0 : (Except.ok c' : Except Fault _) = l.conn.handleClose := heq
          rw [handleClose_eq hup.state] at h0
          cases h0
          rfl
        rw [handleEvent_of_nonpos (by decide) hc, hclosed] at hs
        cases hs
        exact .inr (.inr ⟨hended, hunread, rfl⟩)
      · rw [handleEvent_read ((read_mem_iff hm).2 hb) hc] at hs
        rw [TcpConnection.handleRead, if_pos hpos] at heq
        cases hs
        cases heq
        exact .inr (.inl ⟨hpos, hsize, hlen, rfl⟩)
    · next hb =>
      rw [handleEvent_noRead (fun hread => hb ((read_mem_iff hm).1 hread)) hc] at hs
      cases hs
      cases heq
      exact .inl rfl

/-! ## One step -/

/-- The other end and the kernel do not touch the connection and what was delivered. -/
theorem Story.of_conn (h : Story l) (hc : l'.conn = l.conn) (hd : l'.delivered = l.delivered) :
    Story l' := by
  cases h with
  | fresh hp hs hr hdel =>
    apply Story.fresh
    · rw [hc, hp]
    · rw [hc, hs]
    · rw [hc, hr]
    · rw [hd, hdel]
  | up h ht =>
    apply Story.up
    · rw [hc]
      exact h
    · rw [hc, ht, messages, messages, hd]
  | down h rest hrest ht =>
    apply Story.down _ rest hrest
    · rw [hc, ht, messages, messages, hd]
    · rw [hc]
      exact h

theorem flow_make (nameArg : Text) (sockfd : Int) : Flow (make nameArg sockfd) where
  kept := List.nil_prefix
  whole := fun _ => rfl
  aborted := by
    intro h
    cases h
  sizes := by
    intro m hm
    cases hm
  polled := by
    intro revents h
    cases h
  story := .fresh rfl rfl rfl rfl
  closed := by
    intro h
    cases h

theorem Flow.arrive (h : Flow l) (he : l.ended = false) (bytes : List UInt8) :
    Flow { l with unread := l.unread ++ bytes, received := l.received ++ bytes } := by
  have hreset : l.reset = false := by
    cases hr : l.reset with
    | false => rfl
    | true => exact absurd (he.symm.trans (h.aborted hr)) Bool.false_ne_true
  have hwhole := h.whole hreset
  refine ⟨?_, fun _ => ?_, h.aborted, h.sizes, ?_, h.story.of_conn rfl rfl, ?_⟩
  · rw [← hwhole, List.append_assoc]
  · rw [← hwhole, List.append_assoc]
  · intro revents hrev
    obtain ⟨hup, hm, hhup⟩ := h.polled revents hrev
    exact ⟨hup, hm, fun hb => absurd (he.symm.trans (hhup hb).1) Bool.false_ne_true⟩
  · intro hc
    exact absurd (he.symm.trans (h.closed hc).1) Bool.false_ne_true

theorem Flow.finish (h : Flow l) : Flow { l with ended := true } := by
  refine ⟨h.kept, h.whole, fun _ => rfl, h.sizes, ?_, h.story.of_conn rfl rfl, ?_⟩
  · intro revents hrev
    obtain ⟨hup, hm, hhup⟩ := h.polled revents hrev
    exact ⟨hup, hm, fun hb => ⟨rfl, (hhup hb).2⟩⟩
  · exact fun hc => ⟨rfl, (h.closed hc).2⟩

theorem Flow.abort (h : Flow l) (kept : Nat) :
    Flow { l with unread := l.unread.take kept, ended := true, reset := true } := by
  refine ⟨?_, ?_, fun _ => rfl, h.sizes, ?_, h.story.of_conn rfl rfl, ?_⟩
  · refine List.IsPrefix.trans ?_ h.kept
    exact (List.prefix_append_right_inj _).2 (List.take_prefix kept l.unread)
  · intro hr
    cases hr
  · intro revents hrev
    obtain ⟨hup, hm, hhup⟩ := h.polled revents hrev
    refine ⟨hup, hm, fun hb => ⟨rfl, ?_⟩⟩
    show l.unread.take kept = []
    rw [(hhup hb).2, List.take_nil]
  · intro hc
    refine ⟨rfl, ?_⟩
    show l.unread.take kept = []
    rw [(h.closed hc).2, List.take_nil]

theorem truthful_hup (ht : l.truthful revents = true)
    (hb : (Channel.has revents POLLHUP && !Channel.has revents POLLIN) = true) :
    l.ended = true ∧ l.unread = [] := by
  rw [truthful, Bool.and_eq_true] at ht
  rw [Bool.and_eq_true, Bool.not_eq_true'] at hb
  obtain ⟨hin, hhup⟩ := ht
  rw [hb.2, Bool.or_false, List.isEmpty_iff] at hin
  rw [hb.1, Bool.not_true, Bool.false_or] at hhup
  exact ⟨hhup, hin⟩

theorem Story.phase (h : Story l) : Phase l.conn := by
  cases h with
  | fresh hp hs hr _ => exact .fresh hp hs hr
  | up h _ => exact .up h
  | down h _ _ _ => exact .down h

theorem Flow.poll (h : Flow l)
    (he : TcpConnection.enabled l.conn (.handleEvent revents 0) = true)
    (ht : l.truthful revents = true) : Flow { l with revents := some revents } := by
  refine ⟨h.kept, h.whole, h.aborted, h.sizes, ?_, h.story.of_conn rfl rfl, h.closed⟩
  intro revents' hrev
  cases hrev
  obtain ⟨hup, hm⟩ := h.story.phase.up_of_event he
  exact ⟨hup, hm, truthful_hup ht⟩

/-- Nothing happened. -/
theorem Flow.unpolled (h : Flow l) : Flow { l with revents := none } := by
  refine ⟨h.kept, h.whole, h.aborted, h.sizes, ?_, h.story.of_conn rfl rfl, h.closed⟩
  intro revents hrev
  cases hrev

theorem Story.told_of_up (h : Story l) (hup : Up l.conn) :
    l.conn.told = .connectionCallback true :: l.messages := by
  cases h with
  | fresh hp _ _ _ => exact absurd (hp.symm.trans hup.past) (by decide)
  | up _ ht => exact ht
  | down hd _ _ _ => exact absurd (hup.state.symm.trans hd.state) (by decide)

theorem closeCallback_notMem_told (hup : Up c) : .closeCallback ∉ c.told := by
  intro hmem
  exact List.count_eq_zero.1 hup.close (List.mem_filter.1 hmem).1

theorem deliver_eq {k : Nat} (hpos : 0 < (k : Int)) :
    l.deliver k =
      { l with conn := l.conn.request (.messageCallback k)
               unread := l.unread.drop k
               revents := none
               delivered := l.delivered ++ [l.unread.take k] } := by
  rw [deliver, take, if_pos hpos]
  rfl

theorem Flow.deliver (h : Flow l) (hup : Up l.conn) (hpos : 0 < n) (hsize : n ≤ kReadSize)
    (hlen : n ≤ l.unread.length) : Flow (l.deliver n) := by
  obtain ⟨k, rfl⟩ := Int.eq_ofNat_of_zero_le hpos.le
  have hk : (l.unread.take k).length = k := by
    rw [List.length_take]
    omega
  have hflow : (l.delivered ++ [l.unread.take k]).flatten ++ l.unread.drop k =
      l.delivered.flatten ++ l.unread := by
    rw [List.flatten_append, List.flatten_singleton, List.append_assoc, List.take_append_drop]
  rw [deliver_eq hpos]
  refine ⟨?_, ?_, h.aborted, ?_, ?_, .up (hup.quiet rfl) ?_, ?_⟩
  · rw [hflow]
    exact h.kept
  · rw [hflow]
    exact h.whole
  · intro m hm
    rcases List.mem_append.1 hm with hm | hm
    · exact h.sizes m hm
    · rw [List.mem_singleton.1 hm, hk]
      omega
  · intro revents hrev
    cases hrev
  · show (l.conn.request (.messageCallback k)).told = _
    rw [told_request, h.story.told_of_up hup, messages, messages, List.map_append, List.map_cons,
      hk]
    rfl
  · intro hc
    exact absurd hc (closeCallback_notMem_told (hup.quiet rfl))

theorem Flow.close (h : Flow l) (hup : Up l.conn) (hended : l.ended = true)
    (hunread : l.unread = []) : Flow l.close := by
  refine ⟨h.kept, h.whole, h.aborted, h.sizes, ?_, ?_, fun _ => ⟨hended, hunread⟩⟩
  · intro revents hrev
    cases hrev
  · refine .down hup.down_closed [.connectionCallback false, .closeCallback]
      List.prefix_rfl ?_
    show l.conn.closed.told = _
    rw [told_closed, h.story.told_of_up hup]
    rfl

theorem Flow.connectEstablished (h : Flow l) (hp : l.conn.past = []) :
    ∃ c', l.conn.connectEstablished = .ok c' ∧ Flow { l with conn := c' } := by
  cases h.story with
  | up hup _ => exact absurd (hp.symm.trans hup.past) (by decide)
  | down hd _ _ _ => exact absurd (hp.symm.trans hd.past) (by decide)
  | fresh _ hs hr hdel =>
    obtain ⟨c', hc', hphase⟩ := h.story.phase.connectEstablished hp
    have heq : c' = ((l.conn.setState .kConnected).request (.update .enableReading)).callBack := by
      rw [TcpConnection.connectEstablished, if_pos hs] at hc'
      cases hc'
      rfl
    have htold : c'.told = [.connectionCallback true] := by
      rw [heq, callBack, told_request, told_request, told_setState, told, hr]
      rfl
    have hpast : c'.past = [.kConnecting] := by
      rw [heq]
      simp [callBack, request, setState, hp, hs]
    have hup : Up c' := by
      cases hphase with
      | fresh hp' _ _ => exact absurd (hp'.symm.trans hpast) (by decide)
      | up hup => exact hup
      | down hd => exact absurd (hd.past.symm.trans hpast) (by decide)
    refine ⟨c', hc', h.kept, h.whole, h.aborted, h.sizes, ?_, .up hup ?_, ?_⟩
    · intro revents hrev
      obtain ⟨hup', -⟩ := h.polled revents hrev
      exact absurd (hp.symm.trans hup'.past) (by decide)
    · rw [messages, hdel]
      exact htold
    · intro hc
      exact absurd hc (closeCallback_notMem_told hup)

theorem Flow.connectDestroyed (h : Flow l) (hp : l.conn.past ≠ []) (hrev : l.revents = none) :
    Flow { l with conn := l.conn.connectDestroyed } := by
  have hpolled : ∀ revents ∈ l.revents, False := by
    intro revents hr
    rw [hrev] at hr
    cases hr
  cases h.story with
  | fresh hp' _ _ _ => exact absurd hp' hp
  | up hup ht =>
    have htold : l.conn.connectDestroyed.told =
        .connectionCallback true :: l.messages ++ [.connectionCallback false] := by
      rw [TcpConnection.connectDestroyed, if_pos hup.state, told_request]
      show l.conn.takeDown.told = _
      rw [told_takeDown, ht]
    refine ⟨h.kept, h.whole, h.aborted, h.sizes, fun r hr => (hpolled r hr).elim,
      .down ?_ [.connectionCallback false] ⟨[.closeCallback], rfl⟩ htold, ?_⟩
    · rw [TcpConnection.connectDestroyed, if_pos hup.state]
      exact hup.down_takeDown.quiet rfl
    · intro hc
      rw [htold] at hc
      simp [messages] at hc
  | down hd rest hrest ht =>
    have heq : l.conn.connectDestroyed = l.conn.request .remove := by
      rw [TcpConnection.connectDestroyed, if_neg (by rw [hd.state]; decide)]
    have htold : (l.conn.request .remove).told = l.conn.told := by
      rw [told_request]
      rfl
    rw [heq]
    refine ⟨h.kept, h.whole, h.aborted, h.sizes, fun r hr => (hpolled r hr).elim,
      .down (hd.quiet rfl) rest hrest (htold.trans ht), fun hc => h.closed (htold ▸ hc)⟩

/-! ## All runs -/

theorem flow_keeps : machine.Keeps (fun _ _ _ => True) Flow := by
  intro l a l' h _ he hs
  cases a with
  | connectEstablished =>
    obtain ⟨c', hc', hf⟩ := h.connectEstablished (of_decide_eq_true he)
    have hs : l.step .connectEstablished = .ok l' := hs
    rw [step, hc'] at hs
    cases hs
    exact hf
  | arrive bytes =>
    cases hs
    exact h.arrive (Bool.not_eq_true' _ ▸ he) bytes
  | finish =>
    cases hs
    exact h.finish
  | abort kept =>
    cases hs
    exact h.abort kept
  | poll revents =>
    cases hs
    have he : (l.revents.isNone && TcpConnection.enabled l.conn (.handleEvent revents 0) &&
      l.truthful revents) = true := he
    simp only [Bool.and_eq_true] at he
    exact h.poll he.1.2 he.2
  | handleEvent n =>
    have he : (l.revents.isSome && l.readable n) = true := he
    rw [Bool.and_eq_true, Option.isSome_iff_exists] at he
    obtain ⟨⟨revents, hrev⟩, hn⟩ := he
    have hs : l.handleEvent (l.revents.getD 0) n = .ok l' := hs
    rw [hrev] at hs
    have hup := (h.polled revents hrev).1
    rcases h.handleEvent_cases hrev hn hs with rfl | ⟨hpos, hsize, hlen, rfl⟩ | ⟨hen, hun, rfl⟩
    · exact h.unpolled
    · exact h.deliver hup hpos hsize hlen
    · exact h.close hup hen hun
  | connectDestroyed =>
    cases hs
    have he : (l.revents.isNone && TcpConnection.enabled l.conn .connectDestroyed) = true := he
    rw [Bool.and_eq_true, Option.isNone_iff_eq_none] at he
    have hp := of_decide_eq_true (Bool.and_eq_true .. ▸ he.2 : _ ∧ _).1
    exact h.connectDestroyed hp he.1

theorem Flow.inOrder (h : Flow l) : InOrder l where
  inOrder := (List.prefix_append _ _).trans h.kept
  sizes := h.sizes
  told := by
    cases h.story with
    | fresh _ _ hr hd => exact .inl ⟨by rw [TcpConnection.told, hr]; rfl, hd⟩
    | up _ ht => exact .inr ⟨[], List.nil_prefix, by rw [ht, List.append_nil]⟩
    | down _ rest hrest ht => exact .inr ⟨rest, hrest, ht⟩
  complete := by
    intro hreset hc
    obtain ⟨hended, hunread⟩ := h.closed hc
    refine ⟨hended, ?_⟩
    have hwhole := h.whole hreset
    rwa [hunread, List.append_nil] at hwhole
  asks := by
    intro htrue hfalse
    cases h.story with
    | fresh _ _ hr _ =>
      rw [TcpConnection.told, hr] at htrue
      cases htrue
    | up hup _ => exact hup.events
    | down hd _ _ _ =>
      have hmem : .connectionCallback false ∈ l.conn.requests := by
        apply List.count_pos_iff.1
        rw [hd.down]
        decide
      exact absurd (List.mem_filter.2 ⟨hmem, rfl⟩) hfalse

/-- In every run of a connection, from its construction to its removal, with every order of
arrivals, reports and reads. -/
theorem stream_in_order (nameArg : Text) (sockfd : Int) (as : List Action) {l : Link}
    (h : machine.run (make nameArg sockfd) as = some l) : InOrder l :=
  (flow_keeps.run_all (flow_make nameArg sockfd) h).inOrder

/-- Three bytes come before the first `poll`, two more before they are read; then the end. -/
def twoReads : List Action :=
  [.connectEstablished, .arrive [1, 2, 3], .poll POLLIN, .arrive [4, 5], .finish,
    .handleEvent 4, .poll POLLIN, .handleEvent 1, .poll (POLLIN ||| POLLHUP), .handleEvent 0,
    .connectDestroyed]

theorem twoReads_in_order :
    ∃ l, machine.run (make [] 7) twoReads = some l ∧ l.delivered = [[1, 2, 3, 4], [5]] ∧
      InOrder l :=
  ⟨_, rfl, rfl, stream_in_order [] 7 twoReads rfl⟩

end Link

end TcpConnection

end Rawmd
