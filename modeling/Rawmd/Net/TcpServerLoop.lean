import Rawmd.Net.Poller.PollerServes
import Rawmd.Net.TcpConnectionStream
import Rawmd.Net.TcpServerOwned

/-!
# A `TcpServer` in its loop

The server's calls in the order in which `EventLoop::loop` makes them: `poll`, `handleEvent` of each
active channel with the `revents_` that the poller has set, and then the functors.  Connections
are accepted at any time.  `removeChannel` is called by functors and by `~TcpServer` only, and
these do not run while events are handled, so its assert on the active channels does not come
into it.

    Ahead (a :: as) l → a step that is no clash succeeds, and Ahead as holds   (Ahead.step_ok)
    Ready l → a clash fails an assert                                          (Ready.step_only)
    no assert fails and no dead object is used iff no report clashes
                                                              (serverLoop_ok_iff_no_clash)
-/

namespace Rawmd

structure TcpServerLoop where
  server : TcpServer
  /-- `activeChannels_` of the loop, from its iterator on -/
  rest : List Nat
  eventHandling : Bool

namespace TcpServerLoop

open TcpServer (Fault)

def make (usePoll : Bool) (listenAddr : SockaddrIn) (nameArg : Text) : TcpServerLoop :=
  ⟨.make usePoll listenAddr nameArg, [], false⟩

inductive Action where
  | newConnection (sockfd : Int)
  | poll (result : Poller.Result)
  /-- The next active channel has these `revents_`, and `read` would return `n`. -/
  | handleEvent (revents : BitVec 32) (n : Int)
  | eventsHandled
  | doPendingFunctors
  | destruct
  | release (c : Nat)

variable (l : TcpServerLoop)

/-- The kernel keeps its promises.  The server is not destroyed by a callback. -/
def enabled : Action → Bool
  | .newConnection sockfd =>
    l.server.enabled (.newConnection sockfd) && decide (0 ≤ sockfd)
  | .poll result =>
    !l.eventHandling && l.server.poller.mayReturn result && l.server.poller.within result
  | .handleEvent revents _ =>
    match l.rest with
    | [] => false
    | c :: _ => decide (revents = (l.server.poller.channel c).revents)
  | .eventsHandled => l.eventHandling && l.rest.isEmpty
  | .doPendingFunctors => !l.eventHandling
  | .destruct => !l.eventHandling && l.server.enabled .destruct
  | .release c => l.server.enabled (.release c)

def setServer (r : Except Fault TcpServer) : Except Fault TcpServerLoop :=
  match r with
  | .ok server => .ok { l with server := server }
  | .error e => .error e

def poll (result : Poller.Result) : Except Fault TcpServerLoop :=
  match l.server.poller.callPoll result with
  | .ok p =>
    .ok { l with
      server := { l.server with poller := p }
      rest := p.activeChannels
      eventHandling := true }
  | .error e => .error (.poller e)

def handleEvent (revents : BitVec 32) (n : Int) : Except Fault TcpServerLoop :=
  match l.rest with
  | [] => .ok l
  | c :: rest => setServer { l with rest := rest } (l.server.handleEvent c revents n)

def step : Action → Except Fault TcpServerLoop
  | .newConnection sockfd => l.setServer (l.server.newConnection sockfd)
  | .poll result => l.poll result
  | .handleEvent revents n => l.handleEvent revents n
  | .eventsHandled => .ok { l with eventHandling := false }
  | .doPendingFunctors => l.setServer l.server.doPendingFunctors
  | .destruct => l.setServer l.server.destruct
  | .release c => .ok { l with server := l.server.release c }

def machine : Machine TcpServerLoop Action Fault := ⟨enabled, step⟩

def Action.isNewConnection : Action → Bool
  | .newConnection _ => true
  | _ => false

/-- As for one connection: `POLLHUP` closes it, and `POLLPRI` then reads an end of file. -/
def Clash : Action → Prop
  | .handleEvent revents n => TcpConnection.Clash (.handleEvent revents n)
  | _ => False

instance decidableClash : DecidablePred Clash
  | .handleEvent revents n =>
    inferInstanceAs (Decidable (TcpConnection.Clash (.handleEvent revents n)))
  | .newConnection _ | .poll _ | .eventsHandled | .doPendingFunctors | .destruct | .release _ =>
    isFalse id

/-- What holds between the steps of the loop. -/
structure Sound (l : TcpServerLoop) : Prop where
  lifecycle : TcpServer.Lifecycle l.server
  /-- the channels that are still to be handled -/
  active : ∀ c ∈ l.rest, l.server.poller.hasChannel c = true ∧
    (l.server.conn c).state = .kConnected
  /-- the poller asks for input of the connections that are up, and of no other -/
  asks : ∀ c, l.server.poller.hasChannel c = true → (l.server.poller.channel c).events =
    if (l.server.conn c).state = .kConnected then Channel.kReadEvent else Channel.kNoneEvent

end TcpServerLoop

/-! ## The connection -/

namespace TcpConnection

variable {c : TcpConnection} {revents : BitVec 32} {n : Int}

theorem handleRead_ok (h : c.state = .kConnected ∨ n ≠ 0) : ∃ c', c.handleRead n = .ok c' := by
  unfold handleRead
  split
  · exact ⟨_, rfl⟩
  · split
    · next h0 => exact ⟨_, handleClose_eq (h.resolve_right (not_not.2 h0))⟩
    · exact ⟨_, rfl⟩

theorem handleEvent_ok_of_connected (h : c.state = .kConnected)
    (hm : revents &&& ~~~(Channel.kReadEvent ||| unasked) = 0)
    (hn : ¬ Clash (.handleEvent revents n)) : ∃ c', c.handleEvent revents n = .ok c' := by
  rw [handleEvent_eq h hm]
  split
  · next hhup =>
    rw [Bool.and_eq_true, Bool.not_eq_true'] at hhup
    split
    · next hpri => exact handleRead_ok (.inr fun h0 => hn ⟨hhup.1, hhup.2, hpri, h0⟩)
    · exact ⟨_, rfl⟩
  · split
    · exact handleRead_ok (.inl h)
    · exact ⟨_, rfl⟩

theorem handleEvent_clash_of_connected (h : c.state = .kConnected)
    (hm : revents &&& ~~~(Channel.kReadEvent ||| unasked) = 0)
    (hclash : Clash (.handleEvent revents n)) :
    c.handleEvent revents n = .error .assertFailed := by
  obtain ⟨hhup, hin, hpri, rfl⟩ := hclash
  rw [handleEvent_eq h hm, hhup, hin, hpri]
  show c.closed.handleClose = _
  have hdown : ¬ (c.closed.state = .kConnected ∨ c.closed.state = .kDisconnecting) := by
    rintro (hs | hs)
    · cases hs
    · cases hs
  rw [handleClose, if_neg hdown]

end TcpConnection

/-! ## The server -/

namespace TcpServer

open Poller (SetsEvents)

variable {s s' : TcpServer} {c d : Nat} {p : Poller Nat}

/-- Two connections that are not destroyed do not have one descriptor. -/
def FdsDistinct (s : TcpServer) : Prop :=
  ∀ c d, s.Created c → s.Created d → c ∉ s.released → d ∉ s.released →
    (s.conn c).sockfd = (s.conn d).sockfd → c = d

theorem FdsDistinct.update (h : FdsDistinct s) {conn : TcpConnection}
    (hfd : conn.sockfd = (s.conn c).sockfd) (hid : s'.nextConnId = s.nextConnId)
    (hrel : s'.released = s.released) (hconn : s'.conn = Function.update s.conn c conn) :
    FdsDistinct s' := by
  intro a b ha hb har hbr heq
  have hsock := field_update TcpConnection.sockfd hfd
  rw [hconn, hsock, hsock] at heq
  rw [Created, hid] at ha hb
  rw [hrel] at har hbr
  exact h a b ha hb har hbr heq

/-- The poller serves the channels, and watches those of the connections that are up. -/
structure Fit (s : TcpServer) : Prop where
  fds : FdsDistinct s
  serves : s.poller.Serves
  up : ∀ c, s.Created c → c ∉ s.destroyed → (s.conn c).state = .kConnected →
    (s.poller.channel c).events = Channel.kReadEvent
  down : ∀ c, s.Created c → c ∉ s.destroyed → (s.conn c).state = .kDisconnected →
    (s.poller.channel c).events = Channel.kNoneEvent

theorem Fit.init (usePoll : Bool) (listenAddr : SockaddrIn) (nameArg : Text) :
    Fit (make usePoll listenAddr nameArg) := by
  have hnone : ∀ c, ¬ (make usePoll listenAddr nameArg).Created c := by
    intro c hc
    have : 1 ≤ c ∧ c < 1 := hc
    omega
  exact ⟨fun c _ hc => absurd hc (hnone c), .newDefaultPoller usePoll,
    fun c hc => absurd hc (hnone c), fun c hc => absurd hc (hnone c)⟩

/-- Connection `c` changes, and the poller for it. -/
theorem Fit.update (h : Fit s) {conn : TcpConnection} (hfds : FdsDistinct s') (hp : p.Serves)
    (hevents : ∀ d, d ≠ c → (p.channel d).events = (s.poller.channel d).events)
    (hcreated : ∀ d, s'.Created d → d ∉ s'.destroyed → d ≠ c → s.Created d ∧ d ∉ s.destroyed)
    (hpoller : s'.poller = p) (hconn : s'.conn = Function.update s.conn c conn)
    (hup : c ∉ s'.destroyed → conn.state = .kConnected →
      (p.channel c).events = Channel.kReadEvent)
    (hdown : c ∉ s'.destroyed → conn.state = .kDisconnected →
      (p.channel c).events = Channel.kNoneEvent) : Fit s' := by
  refine ⟨hfds, hpoller ▸ hp, fun d hd hdd hstate => ?_, fun d hd hdd hstate => ?_⟩
  · rw [hpoller]
    rw [hconn] at hstate
    by_cases hdc : d = c
    · subst hdc
      rw [Function.update_self] at hstate
      exact hup hdd hstate
    · rw [Function.update_of_ne hdc] at hstate
      obtain ⟨hd, hdd⟩ := hcreated d hd hdd hdc
      rw [hevents d hdc]
      exact h.up d hd hdd hstate
  · rw [hpoller]
    rw [hconn] at hstate
    by_cases hdc : d = c
    · subst hdc
      rw [Function.update_self] at hstate
      exact hdown hdd hstate
    · rw [Function.update_of_ne hdc] at hstate
      obtain ⟨hd, hdd⟩ := hcreated d hd hdd hdc
      rw [hevents d hdc]
      exact h.down d hd hdd hstate

theorem perform_update_ok {op : Channel.Op} (h : s.poller.updateChannel c op = .ok p) :
    perform c s (.update op) = .ok { s with poller := p } := by
  simp only [perform, h]

theorem perform_remove_ok (h : s.poller.removeChannel c = .ok p) :
    perform c s .remove = .ok { s with poller := p } := by
  simp only [perform, h]

theorem perform_remove_only {q : Poller Nat} (hq : s.poller.removeChannel c = .ok q) :
    [Request.remove].foldlM (perform c) s = .ok { s with poller := q } := by
  rw [List.foldlM_cons, perform_remove_ok hq]
  rfl

theorem perform_disable_remove {q : Poller Nat}
    (hp : s.poller.updateChannel c .disableAll = .ok p) (hq : p.removeChannel c = .ok q) :
    [Request.update .disableAll, Request.remove].foldlM (perform c) s =
      .ok { s with poller := q } := by
  rw [List.foldlM_cons, perform_update_ok hp]
  exact perform_remove_only (s := { s with poller := p }) hq

variable {listed : Nat → Prop} {queued : List Nat}

theorem Core.hasChannel (h : Core s listed queued) (hc : s.Created c) (hcd : c ∉ s.destroyed) :
    s.poller.hasChannel c = true := by
  refine decide_eq_true ?_
  rw [h.fd c hc]
  exact h.registered c hc hcd

/-- Of a connection that was destroyed nothing is asked. -/
theorem Fit.unregistered (h : Fit s) (hp : p.Serves)
    (hevents : ∀ d, d ≠ c → (p.channel d).events = (s.poller.channel d).events)
    {conn : TcpConnection} (hfd : conn.sockfd = (s.conn c).sockfd) :
    Fit { s with
      destroyed := s.destroyed ++ [c], poller := p, conn := Function.update s.conn c conn } := by
  have hgone : c ∈ s.destroyed ++ [c] := List.mem_append_right _ List.mem_cons_self
  refine h.update (h.fds.update hfd rfl rfl rfl) hp hevents
    (fun d hd hdd _ => ⟨hd, fun hin => ?_⟩) rfl rfl
    (fun hc => absurd hgone hc) (fun hc => absurd hgone hc)
  exact hdd (List.mem_append_left _ hin)

/-- `connectDestroyed` unregisters a channel that is registered. -/
theorem Fit.connectDestroyed (h : Fit s) (hcore : Core s listed queued) (hc : s.Created c)
    (hcd : c ∉ s.destroyed) : (s.connectDestroyed c).Returns Fit := by
  have hreg := hcore.hasChannel hc hcd
  have hrel : c ∉ s.released := fun hr => hcd (hcore.released c hr)
  have hsock : { (s.conn c).connectDestroyed with requests := [] }.sockfd = (s.conn c).sockfd :=
    TcpConnection.connectDestroyed_sockfd _
  rw [TcpServer.connectDestroyed, if_neg hrel, finish_eq, TcpConnection.connectDestroyed_work,
    TcpConnection.work, hcore.requests, List.filter_nil, List.nil_append]
  split
  · next hup =>
    -- it is up: the channel is disabled first
    have hread := h.up c hc hcd hup
    obtain ⟨p, hp, hserves, hset⟩ : ∃ p, s.poller.updateChannel c .disableAll = .ok p ∧ _ :=
      h.serves.updateChannel hreg (.inl (by rw [hread]; decide))
    have hsets := Poller.updateChannel_sets hp
    have hreg' : p.hasChannel c = true := by
      refine decide_eq_true ?_
      rw [hsets.channels, hsets.fd, if_pos rfl]
    obtain ⟨q, hq, hserves', hsame⟩ := hserves.removeChannel hreg' ((hset c).trans (if_pos rfl))
    have hfit := h.unregistered hserves' (fun d hd => by rw [hsame, hset, if_neg hd]) hsock
    exact ⟨_, perform_disable_remove hp hq, hfit⟩
  · next hup =>
    have hdown : (s.conn c).state = .kDisconnected := by
      by_cases hl : listed c
      · exact absurd (hcore.up c hl).2.2 hup
      · exact hcore.down c hc hl
    obtain ⟨q, hq, hserves, hsame⟩ := h.serves.removeChannel hreg (h.down c hc hcd hdown)
    have hfit := h.unregistered hserves (fun d _ => hsame d) hsock
    exact ⟨_, perform_remove_only hq, hfit⟩

/-! ## Functors and the destructor -/

theorem Fit.doPendingFunctors (h : Fit s) (ho : Owned s) :
    s.doPendingFunctors.Returns Fit := by
  obtain ⟨hcore, hn, hdead⟩ := ho
  have hstart : Owned.Calling s.pendingFunctors { s with pendingFunctors := [] } :=
    ⟨⟨hcore.requests, hcore.fd, hcore.key, hcore.registered, hcore.up, hcore.down, hcore.waiting,
      hcore.queuedNodup, hcore.destroyedNodup, hcore.created, hcore.released⟩,
      ⟨hn.pos, hn.name, hn.entry⟩, rfl, hdead⟩
  obtain ⟨t, ht, -, hfit⟩ := Except.Returns.foldlM (f := TcpServer.connectDestroyed)
    (I := fun rest t => Owned.Calling rest t ∧ Fit t) (fun c rest t ht => by
      obtain ⟨hcalling, hfit⟩ := ht
      obtain ⟨hc, -, hcd⟩ := (hcalling.1.waiting c).1 List.mem_cons_self
      obtain ⟨u, hu, hfit'⟩ := hfit.connectDestroyed hcalling.1 hc hcd
      exact ⟨u, hu, hcalling.step hu, hfit'⟩)
    ⟨hstart, h.fds, h.serves, h.up, h.down⟩
  exact ⟨t, ht, hfit⟩

theorem Fit.destruct (h : Fit s) (ho : Owned s) : s.destruct.Returns Fit := by
  have hstart : Owned.Destructing (s.connections.toList.map Prod.snd) s :=
    ⟨ho.core.congr fun d => (Owned.mem_values ho.named d).symm, ho.named,
      Owned.nodup_values ho.named⟩
  obtain ⟨t, ht, -, hfit⟩ := Except.Returns.foldlM (f := TcpServer.connectDestroyed)
    (I := fun rest t => Owned.Destructing rest t ∧ Fit t) (fun c rest t ht => by
      obtain ⟨hdes, hfit⟩ := ht
      obtain ⟨hc, hcd, -⟩ := hdes.1.up c List.mem_cons_self
      obtain ⟨u, hu, hfit'⟩ := hfit.connectDestroyed hdes.1 hc hcd
      exact ⟨u, hu, hdes.step hu, hfit'⟩)
    ⟨hstart, h⟩
  refine ⟨{ t with connections := ∅, alive := false }, ?_, hfit.fds, hfit.serves, hfit.up,
    hfit.down⟩
  rw [TcpServer.destruct, ht]
  rfl

/-! ## Reports and new connections -/

/-- What a call on connection `c` leaves alone. -/
structure Apart (s : TcpServer) (c : Nat) (t : TcpServer) : Prop where
  destroyed : t.destroyed = s.destroyed
  created : ∀ d, s.Created d → t.Created d
  conn : ∀ d, d ≠ c → t.conn d = s.conn d
  revents : ∀ d, d ≠ c → (t.poller.channel d).revents = (s.poller.channel d).revents

theorem removeConnection_listed (ha : s.alive = true)
    (hl : s.connections[(s.conn c).name]? = some d) :
    s.removeConnection c = .ok { s with
      connections := s.connections.erase (s.conn c).name
      pendingFunctors := s.pendingFunctors ++ [c] } := by
  have hcontains : s.connections.contains (s.conn c).name = true := by
    rw [Std.TreeMap.contains_eq_isSome_getElem?, hl]
    rfl
  simp [removeConnection, ha, hcontains]

theorem perform_disable_close (hp : s.poller.updateChannel c .disableAll = .ok p)
    (ha : s.alive = true) (hl : s.connections[(s.conn c).name]? = some d) :
    [Request.update .disableAll, Request.closeCallback].foldlM (perform c) s =
      .ok { s with
        poller := p
        connections := s.connections.erase (s.conn c).name
        pendingFunctors := s.pendingFunctors ++ [c] } := by
  have hclose : perform c { s with poller := p } .closeCallback = _ :=
    removeConnection_listed (s := { s with poller := p }) ha hl
  rw [List.foldlM_cons, perform_update_ok hp]
  show [Request.closeCallback].foldlM (perform c) _ = _
  rw [List.foldlM_cons, hclose]
  rfl

/-- A report that does not clash is handled. -/
theorem Fit.handleEvent (h : Fit s) (ho : Owned s) (hc : s.Created c) (hcd : c ∉ s.destroyed)
    (hup : (s.conn c).state = .kConnected) {revents : BitVec 32} {n : Int}
    (hm : revents &&& ~~~(Channel.kReadEvent ||| TcpConnection.unasked) = 0)
    (hn : ¬ TcpConnection.Clash (.handleEvent revents n)) :
    (s.handleEvent c revents n).Returns fun t => Fit t ∧ Apart s c t := by
  have hrel : c ∉ s.released := fun hr => hcd (ho.core.released c hr)
  have hreg := ho.core.hasChannel hc hcd
  obtain ⟨conn, hconn⟩ := TcpConnection.handleEvent_ok_of_connected hup hm hn
  rw [TcpServer.handleEvent, if_neg hrel, hconn]
  show (s.finish c conn).Returns _
  rw [finish_eq]
  cases TcpConnection.callbacks_outcome hconn with
  | same hname hfd hstate hpast hwork =>
    have hw : conn.work = [] := by
      rw [hwork, TcpConnection.work, ho.core.requests, List.filter_nil]
    rw [hw]
    refine ⟨_, rfl, ?_, rfl, fun _ hd => hd, fun d hd => Function.update_of_ne hd _ _,
      fun _ _ => rfl⟩
    have hsock : { conn with requests := [] }.sockfd = (s.conn c).sockfd := hfd
    refine h.update (c := c) (h.fds.update hsock rfl rfl rfl) h.serves (fun _ _ => rfl)
      (fun d hd hdd _ => ⟨hd, hdd⟩) rfl rfl
      (fun _ _ => h.up c hc hcd hup) (fun _ hdown => ?_)
    have hconnected : conn.state = .kDisconnected := hdown
    rw [hstate, hup] at hconnected
    cases hconnected
  | closed hname hfd hbefore hstate hwork =>
    have hw : conn.work = [.update .disableAll, .closeCallback] := by
      rw [hwork, TcpConnection.work, ho.core.requests, List.filter_nil, List.nil_append]
    have hl := ho.listed_of_open hc hbefore
    have halive : s.alive = true := by
      by_contra ha
      exact ho.dead (Bool.eq_false_iff.2 ha) c hl
    have hread := h.up c hc hcd hup
    obtain ⟨p, hp, hserves, hset⟩ : ∃ p, s.poller.updateChannel c .disableAll = .ok p ∧ _ :=
      h.serves.updateChannel hreg (.inl (by rw [hread]; decide))
    have hnm : (Function.update s.conn c { conn with requests := [] } c).name =
        (s.conn c).name := by
      rw [Function.update_self]
      exact hname
    have hok := perform_disable_close (s := { s with
      conn := Function.update s.conn c { conn with requests := [] } }) (d := c) hp halive
      (by rw [hnm]; exact hl)
    rw [hw]
    refine ⟨_, hok, ?_, rfl, fun _ hd => hd, fun d hd => Function.update_of_ne hd _ _,
      fun d _ => Poller.updateChannel_revents hp d⟩
    have hsock : { conn with requests := [] }.sockfd = (s.conn c).sockfd := hfd
    refine h.update (c := c) (h.fds.update hsock rfl rfl rfl) hserves
      (fun d hd => (hset d).trans (if_neg hd))
      (fun d hd hdd _ => ⟨hd, hdd⟩) rfl rfl (fun _ hstate' => ?_) (fun _ _ => ?_)
    · have hconnected : conn.state = .kConnected := hstate'
      rw [hstate] at hconnected
      cases hconnected
    · exact (hset c).trans (if_pos rfl)

theorem construct_channel (p : Poller Nat) (c : Nat) (fd : Int) :
    (p.construct c fd).channel c = .make fd := by
  cases p <;> exact Function.update_self _ _ _

theorem construct_channel_ne (p : Poller Nat) (fd : Int) (h : d ≠ c) :
    (p.construct c fd).channel d = p.channel d := by
  cases p <;> exact Function.update_of_ne h _ _

/-- A connection on a descriptor that is not open is accepted. -/
theorem Fit.newConnection (h : Fit s) (ho : Owned s) {sockfd : Int}
    (he : enabled s (.newConnection sockfd) = true) (hfd : 0 ≤ sockfd) :
    (s.newConnection sockfd).Returns fun t => Fit t ∧ Apart s s.nextConnId t := by
  simp only [enabled, Bool.and_eq_true, List.all_eq_true, List.mem_range, decide_eq_true_eq] at he
  obtain ⟨-, hfresh⟩ := he
  have hnone : s.poller.channels[sockfd]? = none := by
    cases hd : s.poller.channels[sockfd]? with
    | none => rfl
    | some d =>
      obtain ⟨hc, heq, hcd⟩ := ho.core.key _ d hd
      exact absurd heq ((hfresh d hc.2 hc).resolve_left fun hr => hcd (ho.core.released d hr))
  have hnew : ∀ x : Int, s.poller.channels[x]? ≠ some s.nextConnId := by
    intro x hx
    exact (ho.core.key x _ hx).1.ne_next rfl
  obtain ⟨p, hp, hserves, hset⟩ : ∃ p, (s.poller.construct s.nextConnId sockfd).updateChannel
      s.nextConnId .enableReading = .ok p ∧ _ :=
    (h.serves.construct sockfd hnew).updateChannel_new
      (construct_channel s.poller s.nextConnId sockfd) hfd
      (by rw [Owned.construct_channels]; exact hnone) (by decide)
  have hother : ∀ d, d ≠ s.nextConnId →
      (p.channel d).events = (s.poller.channel d).events := by
    intro d hd
    rw [hset, if_neg hd, construct_channel_ne _ _ hd]
  unfold TcpServer.newConnection call
  simp only [TcpConnection.connectEstablished, TcpConnection.make, if_true]
  rw [finish_eq, TcpConnection.work_callBack, TcpConnection.work_request]
  show (List.foldlM (perform s.nextConnId) _ [Request.update .enableReading]).Returns _
  rw [List.foldlM_cons, perform_update_ok hp]
  have hsucc := fun d => created_succ (d := d) ho.named.pos
  have hconn : ∀ d, d ≠ s.nextConnId → ∀ a b : TcpConnection,
      Function.update (Function.update s.conn s.nextConnId a) s.nextConnId b d = s.conn d :=
    fun d hd a b => (Function.update_of_ne hd _ _).trans (Function.update_of_ne hd _ _)
  refine ⟨_, rfl, ?_, rfl, fun d hd => (hsucc d).2 (.inl hd), fun d hd => hconn d hd _ _,
    fun d hd => ?_⟩
  · refine h.update (c := s.nextConnId) ?_ hserves hother (fun d hd hdd hne => ?_) rfl
      (Function.update_idem _ _ _) (fun _ _ => ?_) (fun _ hdown => ?_)
    · -- the new descriptor is that of no other connection
      intro a b ha hb har hbr heq
      have hother : ∀ d, s.Created d → d ∉ s.released → (s.conn d).sockfd ≠ sockfd :=
        fun d hd hr => (hfresh d hd.2 hd).resolve_left hr
      simp only [Function.update_idem] at heq
      rcases (hsucc a).1 ha with ha | rfl
      · rcases (hsucc b).1 hb with hb | rfl
        · rw [Function.update_of_ne ha.ne_next, Function.update_of_ne hb.ne_next] at heq
          exact h.fds a b ha hb har hbr heq
        · rw [Function.update_of_ne ha.ne_next, Function.update_self] at heq
          exact absurd heq (hother a ha har)
      · rcases (hsucc b).1 hb with hb | rfl
        · rw [Function.update_of_ne hb.ne_next, Function.update_self] at heq
          exact absurd heq.symm (hother b hb hbr)
        · rfl
    · exact ⟨((hsucc d).1 hd).resolve_right hne, hdd⟩
    · rw [hset, if_pos rfl]
      decide
    · cases hdown
  · exact (Poller.updateChannel_revents hp d).trans
      (congrArg Channel.revents (construct_channel_ne _ _ hd))

theorem closed_channel (p : Poller Nat) (fd : Int) : (p.closed fd).channel = p.channel := by
  cases p <;> rfl

/-- What is destroyed has been unregistered. -/
theorem Fit.release (h : Fit s) (ho : Owned s) (he : enabled s (.release c) = true) :
    Fit (s.release c) := by
  simp only [enabled, Bool.and_eq_true, decide_eq_true_eq] at he
  obtain ⟨⟨⟨hc, hrel⟩, hl⟩, hq⟩ := he
  have hcd : c ∈ s.destroyed := by
    by_contra hcd
    exact hq ((ho.core.waiting c).2 ⟨hc, hl, hcd⟩)
  have hnone : s.poller.channels[(s.conn c).sockfd]? = none := by
    cases hd : s.poller.channels[(s.conn c).sockfd]? with
    | none => rfl
    | some d =>
      obtain ⟨hdc, heq, hdd⟩ := ho.core.key _ d hd
      obtain rfl := h.fds c d hc hdc hrel (fun hr => hdd (ho.core.released d hr)) heq.symm
      exact absurd hcd hdd
  have hmem : ∀ d, d ∉ (s.release c).released → d ∉ s.released :=
    fun d hd hr => hd (List.mem_cons_of_mem c hr)
  have hchannel := closed_channel s.poller (s.conn c).sockfd
  refine ⟨fun a b ha hb har hbr => h.fds a b ha hb (hmem a har) (hmem b hbr),
    h.serves.closed hnone, fun d hd hdd hup => ?_, fun d hd hdd hdown => ?_⟩
  · show ((s.poller.closed _).channel d).events = _
    rw [hchannel]
    exact h.up d hd hdd hup
  · show ((s.poller.closed _).channel d).events = _
    rw [hchannel]
    exact h.down d hd hdd hdown

/-! ## `poll` -/

/-- Only the poller's reports change. -/
theorem Owned.polled (h : Owned s) (hchannels : p.channels = s.poller.channels)
    (hfd : ∀ c, (p.channel c).fd = (s.poller.channel c).fd) : Owned { s with poller := p } := by
  obtain ⟨hcore, hn, hdead⟩ := h
  refine ⟨⟨hcore.requests, fun c hc => (hfd c).trans (hcore.fd c hc), fun x c hc => ?_,
    fun c hc hcd => ?_, hcore.up, hcore.down, hcore.waiting, hcore.queuedNodup,
    hcore.destroyedNodup, hcore.created, hcore.released⟩, ⟨hn.pos, hn.name, hn.entry⟩, hdead⟩
  · have hc : p.channels[x]? = some c := hc
    rw [hchannels] at hc
    exact hcore.key x c hc
  · show p.channels[_]? = some c
    rw [hchannels]
    exact hcore.registered c hc hcd

theorem Fit.polled (h : Fit s) (hp : p.Serves)
    (hevents : ∀ c, (p.channel c).events = (s.poller.channel c).events) :
    Fit { s with poller := p } :=
  ⟨h.fds, hp, fun c hc hcd hup => (hevents c).trans (h.up c hc hcd hup),
    fun c hc hcd hdown => (hevents c).trans (h.down c hc hcd hdown)⟩

end TcpServer

/-! ## The loop -/

namespace TcpServerLoop

open TcpServer (Fault Fit Owned Apart)

variable {l l' : TcpServerLoop} {c : Nat}

/-- The events of channel `c` can be handled. -/
structure Due (s : TcpServer) (c : Nat) : Prop where
  created : s.Created c
  destroyed : c ∉ s.destroyed
  up : (s.conn c).state = .kConnected
  revents : (s.poller.channel c).revents &&& ~~~(Channel.kReadEvent ||| TcpConnection.unasked) = 0

structure Ready (l : TcpServerLoop) : Prop where
  owned : Owned l.server
  fit : Fit l.server
  hostport : l.server.hostport.length ≤ 21
  due : ∀ c ∈ l.rest, Due l.server c
  nodup : l.rest.Nodup
  outside : l.eventHandling = false → l.rest = []

theorem Due.apart {s t : TcpServer} {d : Nat} (h : Due s d) (ha : Apart s c t) (hd : d ≠ c) :
    Due t d := by
  refine ⟨ha.created d h.created, ?_, ?_, ?_⟩
  · rw [ha.destroyed]
    exact h.destroyed
  · rw [ha.conn d hd]
    exact h.up
  · rw [ha.revents d hd]
    exact h.revents

theorem Ready.init (usePoll : Bool) (listenAddr : SockaddrIn) (nameArg : Text) :
    Ready (make usePoll listenAddr nameArg) where
  owned := Owned.init usePoll listenAddr nameArg
  fit := Fit.init usePoll listenAddr nameArg
  hostport := (length_toIpPort listenAddr).2
  due := by
    intro c hc
    cases hc
  nodup := List.nodup_nil
  outside := fun _ => rfl

theorem Ready.sound (h : Ready l) : Sound l where
  lifecycle := h.owned.lifecycle
  active := by
    intro c hc
    obtain ⟨hcr, hcd, hup, -⟩ := h.due c hc
    exact ⟨h.owned.core.hasChannel hcr hcd, hup⟩
  asks := by
    intro c hc
    obtain ⟨hcr, hcd⟩ := h.owned.hasChannel_iff.1 hc
    split
    · next hup => exact h.fit.up c hcr hcd hup
    · next hup =>
      refine h.fit.down c hcr hcd (h.owned.core.down c hcr fun hl => hup ?_)
      exact (h.owned.core.up c hl).2.2

/-- The buffer has room for the digits of the new connection. -/
theorem Ready.newConnection (h : Ready l) {sockfd : Int}
    (he : l.enabled (.newConnection sockfd) = true)
    (hroom : l.server.nextConnId < 10 ^ l.server.room) :
    ∃ l', l.step (.newConnection sockfd) = .ok l' ∧ Ready l' := by
  simp only [enabled, Bool.and_eq_true, decide_eq_true_eq] at he
  obtain ⟨he, hfd⟩ := he
  obtain ⟨t, ht, hfit, hapart⟩ := h.fit.newConnection h.owned he hfd
  have hparts := TcpServer.NameParts.step (a := .newConnection sockfd) ht
  have hnames : TcpServer.NamesDistinct t := by
    obtain ⟨p, conn, -, -, -, -, -, rfl⟩ := Owned.newConnection_ok ht
    refine (TcpServer.namesDistinct_iff ?_).2 ?_
    · exact h.hostport
    · exact hroom
  refine ⟨{ l with server := t }, by rw [step, ht]; rfl, h.owned.newConnection he ht hnames, hfit,
    ?_, fun c hc => ?_, h.nodup, h.outside⟩
  · show t.hostport.length ≤ 21
    rw [hparts.hostport]
    exact h.hostport
  · have hdue := h.due c hc
    exact hdue.apart hapart hdue.created.ne_next

theorem Ready.poll (h : Ready l) {result : Poller.Result}
    (he : l.enabled (.poll result) = true) :
    ∃ l', l.step (.poll result) = .ok l' ∧ Ready l' := by
  simp only [enabled, Bool.and_eq_true] at he
  obtain ⟨⟨-, hreturn⟩, hwithin⟩ := he
  obtain ⟨p, hp, hserves, hreports, hevents⟩ := h.fit.serves.callPoll hreturn
  obtain ⟨hnodup, hreg⟩ := h.fit.serves.keyed.toReport hreturn
  refine ⟨⟨{ l.server with poller := p }, p.activeChannels, true⟩,
    by rw [step, TcpServerLoop.poll, hp],
    h.owned.polled hreports.channels hreports.fd, h.fit.polled hserves hevents, h.hostport,
    fun c hc => ?_, ?_, fun hno => ?_⟩
  · -- what is reported asks for something, so its connection is up
    change c ∈ p.activeChannels at hc
    rw [hreports.active] at hc
    obtain ⟨fd, hfd⟩ := hreg c hc
    obtain ⟨hcr, -, hcd⟩ := h.owned.core.key fd c hfd
    obtain ⟨⟨c', revents⟩, hmem, rfl⟩ := List.mem_map.1 hc
    obtain ⟨hask, hmask⟩ := h.fit.serves.reported hwithin hmem
    have hup : (l.server.conn c').state = .kConnected := by
      by_cases hl : l.server.Listed c'
      · exact (h.owned.core.up c' hl).2.2
      · exact absurd (h.fit.down c' hcr hcd (h.owned.core.down c' hcr hl)) hask
    refine ⟨hcr, hcd, hup, ?_⟩
    show (p.channel c').revents &&& _ = 0
    rw [hreports.revents _ hmem]
    rw [h.fit.up c' hcr hcd hup] at hmask
    exact hmask
  · show p.activeChannels.Nodup
    rw [hreports.active]
    exact hnodup
  · cases hno

theorem Ready.handleEvent (h : Ready l) {revents : BitVec 32} {n : Int}
    (he : l.enabled (.handleEvent revents n) = true) (hn : ¬ Clash (.handleEvent revents n)) :
    ∃ l', l.step (.handleEvent revents n) = .ok l' ∧ Ready l' := by
  obtain ⟨s, rest, eventHandling⟩ := l
  cases rest with
  | nil => cases he
  | cons c rest =>
    obtain rfl := of_decide_eq_true he
    obtain ⟨hcr, hcd, hup, hm⟩ := h.due c List.mem_cons_self
    obtain ⟨hc, hnodup⟩ := List.nodup_cons.1 h.nodup
    obtain ⟨t, ht, hfit, hapart⟩ := h.fit.handleEvent h.owned hcr hcd hup hm hn
    have hparts := TcpServer.NameParts.step (a := .handleEvent c _ n) ht
    refine ⟨⟨t, rest, eventHandling⟩, ?_, h.owned.handleEvent (h.owned.core.hasChannel hcr hcd) ht,
      hfit, ?_, fun d hd => ?_, hnodup, fun hno => ?_⟩
    · show setServer _ (s.handleEvent c _ n) = _
      rw [ht]
      rfl
    · show t.hostport.length ≤ 21
      rw [hparts.hostport]
      exact h.hostport
    · refine (h.due d (List.mem_cons_of_mem c hd)).apart hapart ?_
      rintro rfl
      exact hc hd
    · cases h.outside hno

/-- Outside of the loop over the active channels. -/
theorem Ready.idle (h : Ready l) (he : l.eventHandling = false) {t : TcpServer} (ho : Owned t)
    (hf : Fit t) (hhost : t.hostport = l.server.hostport) :
    Ready { l with server := t } := by
  have hrest := h.outside he
  refine ⟨ho, hf, ?_, fun c hc => ?_, h.nodup, h.outside⟩
  · show t.hostport.length ≤ 21
    rw [hhost]
    exact h.hostport
  · change c ∈ l.rest at hc
    rw [hrest] at hc
    cases hc

theorem Ready.doPendingFunctors (h : Ready l) (he : l.enabled .doPendingFunctors = true) :
    ∃ l', l.step .doPendingFunctors = .ok l' ∧ Ready l' := by
  have hout : l.eventHandling = false := Bool.not_eq_true' _ ▸ he
  obtain ⟨t, ht, hfit⟩ := h.fit.doPendingFunctors h.owned
  have hparts := TcpServer.NameParts.step (a := .doPendingFunctors) ht
  exact ⟨_, by rw [step, ht]; rfl,
    h.idle hout (h.owned.doPendingFunctors ht) hfit hparts.hostport⟩

theorem Ready.destruct (h : Ready l) (he : l.enabled .destruct = true) :
    ∃ l', l.step .destruct = .ok l' ∧ Ready l' := by
  simp only [enabled, Bool.and_eq_true, Bool.not_eq_true'] at he
  obtain ⟨t, ht, hfit⟩ := h.fit.destruct h.owned
  have hparts := TcpServer.NameParts.step (a := .destruct) ht
  exact ⟨_, by rw [step, ht]; rfl, h.idle he.1 (h.owned.destruct ht) hfit hparts.hostport⟩

theorem Ready.release (h : Ready l) (he : l.enabled (.release c) = true) :
    Ready { l with server := l.server.release c } := by
  have he : l.server.enabled (.release c) = true := he
  refine ⟨h.owned.release he, h.fit.release h.owned he, h.hostport, fun d hd => ?_, h.nodup,
    h.outside⟩
  obtain ⟨hcr, hcd, hup, hm⟩ := h.due d hd
  refine ⟨hcr, hcd, hup, ?_⟩
  show ((l.server.poller.closed _).channel d).revents &&& _ = 0
  rw [TcpServer.closed_channel]
  exact hm

theorem setServer_parts {n : Nat} {r : Except Fault TcpServer}
    (hr : ∀ t, r = .ok t → TcpServer.NameParts n l.server t) (h : l.setServer r = .ok l') :
    TcpServer.NameParts n l.server l'.server := by
  cases r with
  | error e => cases h
  | ok t =>
    cases h
    exact hr t rfl

theorem step_parts {a : Action} (h : machine.step l a = .ok l') :
    TcpServer.NameParts ([a].countP Action.isNewConnection) l.server l'.server := by
  cases a with
  | newConnection sockfd =>
    exact setServer_parts (fun _ => TcpServer.NameParts.step (a := .newConnection sockfd)) h
  | poll result =>
    change l.poll result = .ok l' at h
    unfold TcpServerLoop.poll at h
    split at h
    · cases h
      exact ⟨rfl, rfl, rfl⟩
    · cases h
  | handleEvent revents n =>
    change l.handleEvent revents n = .ok l' at h
    unfold TcpServerLoop.handleEvent at h
    split at h
    · cases h
      exact ⟨rfl, rfl, rfl⟩
    · next c rest hrest =>
      exact setServer_parts (l := { l with rest := rest })
        (fun _ => TcpServer.NameParts.step (a := .handleEvent c revents n)) h
  | eventsHandled =>
    cases h
    exact ⟨rfl, rfl, rfl⟩
  | doPendingFunctors =>
    exact setServer_parts (fun _ => TcpServer.NameParts.step (a := .doPendingFunctors)) h
  | destruct => exact setServer_parts (fun _ => TcpServer.NameParts.step (a := .destruct)) h
  | release c =>
    cases h
    exact ⟨rfl, rfl, rfl⟩

theorem Ready.step_ok (h : Ready l) {a : Action} (he : machine.enabled l a = true)
    (hn : ¬ Clash a) (hroom : l.server.nextConnId + [a].countP Action.isNewConnection ≤
      10 ^ l.server.room) : ∃ l', machine.step l a = .ok l' ∧ Ready l' := by
  cases a with
  | newConnection sockfd => exact h.newConnection he hroom
  | poll result => exact h.poll he
  | handleEvent revents n => exact h.handleEvent he hn
  | eventsHandled =>
    refine ⟨{ l with eventHandling := false }, rfl, h.owned, h.fit, h.hostport, h.due, h.nodup,
      fun _ => ?_⟩
    have he : (l.eventHandling && l.rest.isEmpty) = true := he
    rw [Bool.and_eq_true, List.isEmpty_iff] at he
    exact he.2
  | doPendingFunctors => exact h.doPendingFunctors he
  | destruct => exact h.destruct he
  | release c => exact ⟨_, rfl, h.release he⟩

theorem Ready.step_only (h : Ready l) {a : Action} (he : machine.enabled l a = true)
    (hs : machine.step l a = .ok l') : ¬ Clash a := by
  cases a with
  | handleEvent revents n =>
    intro hclash
    obtain ⟨s, rest, eventHandling⟩ := l
    cases rest with
    | nil => cases he
    | cons c rest =>
      obtain rfl := of_decide_eq_true he
      obtain ⟨hcr, hcd, hup, hm⟩ := h.due c List.mem_cons_self
      have hrel : c ∉ s.released := fun hr => hcd (h.owned.core.released c hr)
      have herr := TcpConnection.handleEvent_clash_of_connected hup hm hclash
      change setServer _ (s.handleEvent c _ n) = _ at hs
      rw [TcpServer.handleEvent, if_neg hrel, herr] at hs
      cases hs
  | newConnection sockfd => exact id
  | poll result => exact id
  | eventsHandled => exact id
  | doPendingFunctors => exact id
  | destruct => exact id
  | release c => exact id

/-- The server is ready, and the buffer has room for the digits of the connections that are still
to come. -/
structure Ahead (as : List Action) (l : TcpServerLoop) : Prop where
  ready : Ready l
  room : l.server.nextConnId + as.countP Action.isNewConnection ≤ 10 ^ l.server.room

theorem Ahead.step_ok (l : TcpServerLoop) (a : Action) (as : List Action) (h : Ahead (a :: as) l)
    (he : machine.enabled l a = true) (hn : ¬ Clash a) :
    ∃ l', machine.step l a = .ok l' ∧ Ahead as l' := by
  obtain ⟨hready, hroom⟩ := h
  rw [← List.singleton_append, List.countP_append, ← Nat.add_assoc] at hroom
  obtain ⟨l', hs, hready'⟩ := hready.step_ok he hn ((Nat.le_add_right _ _).trans hroom)
  obtain ⟨hhost, -, hid⟩ := step_parts hs
  refine ⟨l', hs, hready', ?_⟩
  rw [hid, TcpServer.room, hhost]
  exact hroom

/-- Two connections are accepted, one closes, and its descriptor is used again. -/
def acceptCloseReuse : List Action :=
  [.newConnection 7, .newConnection 8, .poll (.ePoll [(POLLIN, 8), (POLLIN ||| POLLHUP, 7)]),
    .handleEvent POLLIN 4, .handleEvent (POLLIN ||| POLLHUP) 0, .eventsHandled,
    .doPendingFunctors, .release 1, .newConnection 7, .poll (.ePoll [(POLLIN, 7)]),
    .handleEvent POLLIN 2, .eventsHandled, .destruct, .release 2, .release 3]

end TcpServerLoop

end Rawmd
