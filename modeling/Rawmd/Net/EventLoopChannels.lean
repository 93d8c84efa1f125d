import Rawmd.Net.Poller.PollerReports

/-!
# The loop of `net/EventLoop.cpp` over its active channels

One iteration of `loop()` polls, calls `handleEvent` of each active channel in turn and then the
pending functors.  The callbacks and functors construct channels, change what they ask for, remove
and destroy them; `activeChannels_` holds plain pointers all the while.  `rest` is what the
iterator of the loop has still to pass.  Reading or writing a channel that is destroyed is the
fault `dead`; the other faults are failed asserts and `LOG_SYSFATAL`.

What makes it safe is the assert in `removeChannel`: while events are handled, only the current
channel and channels that are not active can be removed.  So the channels in `rest` stay
registered, and registered channels are not destroyed, as long as programs call `remove()` first
(`RemovedFirst`).

    Live s → every step keeps Live or meets an assert of its own call   (Live.step)
    no list of actions that meet RemovedFirst ends in the fault dead    (no_dead_channel)
-/

namespace Rawmd.EventLoopChannels

structure State (κ : Type) where
  poller : Poller κ
  /-- constructed and not destroyed -/
  alive : κ → Bool
  /-- `eventHandling_` of the channels -/
  inEvent : κ → Bool
  activeChannels : List κ
  /-- from the iterator on -/
  rest : List κ
  currentActiveChannel : Option κ
  eventHandling : Bool
  /-- in the callbacks of the current channel -/
  calling : Bool
  /-- ghost: what the last `poll` reported -/
  reported : List (κ × BitVec 32)
  /-- ghost: the calls of `handleEvent` since, with `revents_` -/
  handled : List (κ × BitVec 32)

inductive Fault where
  /-- a destroyed channel is used -/
  | dead
  | assertFailed
  | poller (e : Poller.Fault)
deriving DecidableEq

variable {κ : Type}

/-- Before `loop()`. -/
def init (usePoll : Bool) : State κ where
  poller := .newDefaultPoller usePoll
  alive _ := false
  inEvent _ := false
  activeChannels := []
  rest := []
  currentActiveChannel := none
  eventHandling := false
  calling := false
  reported := []
  handled := []

inductive Action (κ : Type) where
  /-- `Channel::Channel` -/
  | construct (c : κ) (fd : Int)
  /-- an operation of a channel that ends in `updateChannel` -/
  | update (c : κ) (op : Channel.Op)
  /-- `Channel::remove` -/
  | remove (c : κ)
  /-- `Channel::~Channel` -/
  | destroy (c : κ)
  /-- `close(fd)` -/
  | close (fd : Int)
  /-- `activeChannels_.clear()`, the poll, and `eventHandling_ = true` -/
  | poll (result : Poller.Result)
  /-- The next channel is the current one, and `handleEvent` is called; `guard` tells whether its
  callbacks are, which is not so if the channel is tied to an object that is gone. -/
  | handleEvent (guard : Bool)
  /-- the callbacks return -/
  | eventHandled
  /-- the end of the loop over the active channels -/
  | finish

variable [DecidableEq κ]

namespace State

variable (s : State κ)

def liftPoller (r : Except Poller.Fault (Poller κ)) : Except Fault (State κ) :=
  match r with
  | .ok p => .ok { s with poller := p }
  | .error e => .error (.poller e)

/-- `EventLoop::removeChannel` -/
def removeChannel (c : κ) : Except Fault (State κ) :=
  if s.eventHandling ∧ ¬ (s.currentActiveChannel = some c ∨ c ∉ s.activeChannels) then
    .error .assertFailed
  else
    match s.liftPoller (s.poller.removeChannel c) with
    | .ok t =>
      if (s.poller.channelAtEnd c).any fun last => !s.alive last then .error .dead else .ok t
    | .error e => .error e

def destroy (c : κ) : Except Fault (State κ) :=
  if s.inEvent c then .error .assertFailed
  else .ok { s with alive := Function.update s.alive c false }

def poll (result : Poller.Result) : Except Fault (State κ) :=
  if (s.poller.toReport result).any fun e => !s.alive e.1 then .error .dead
  else
    match s.poller.callPoll result with
    | .ok p =>
      .ok { s with
        poller := p
        activeChannels := p.activeChannels
        rest := p.activeChannels
        eventHandling := true
        reported := s.poller.toReport result
        handled := [] }
    | .error e => .error (.poller e)

def handleEvent (guard : Bool) : Except Fault (State κ) :=
  match s.rest with
  | [] => .ok s
  | c :: rest =>
    if s.alive c = false then .error .dead
    else
      .ok { s with
        rest := rest
        currentActiveChannel := some c
        calling := guard
        inEvent := if guard then Function.update s.inEvent c true else s.inEvent
        handled := s.handled ++ [(c, (s.poller.channel c).revents)] }

/-- `eventHandling_ = false` at the end of `handleEventWithGuard` -/
def eventHandled : Except Fault (State κ) :=
  match s.currentActiveChannel with
  | none => .ok s
  | some c =>
    if s.alive c = false then .error .dead
    else .ok { s with calling := false, inEvent := Function.update s.inEvent c false }

/-- The functions of the program run: callbacks, pending functors, or what is before `loop()`. -/
def inUserCode : Bool := s.calling || !s.eventHandling

end State

/-- Programs call the functions of channels that they have constructed and not destroyed.
Descriptors are not negative. -/
def enabled (s : State κ) : Action κ → Bool
  | .construct c fd => s.inUserCode && !s.alive c && decide (0 ≤ fd)
  | .update c _ | .remove c | .destroy c => s.inUserCode && s.alive c
  | .close _ => s.inUserCode
  | .poll result => !s.eventHandling && s.poller.mayReturn result
  | .handleEvent _ => s.eventHandling && !s.calling && !s.rest.isEmpty
  | .eventHandled => s.calling
  | .finish => s.eventHandling && !s.calling && s.rest.isEmpty

def step (s : State κ) : Action κ → Except Fault (State κ)
  | .construct c fd =>
    .ok { s with
      poller := s.poller.construct c fd
      alive := Function.update s.alive c true
      inEvent := Function.update s.inEvent c false }
  | .update c op => s.liftPoller (s.poller.updateChannel c op)
  | .remove c => s.removeChannel c
  | .destroy c => s.destroy c
  | .close fd => .ok { s with poller := s.poller.closed fd }
  | .poll result => s.poll result
  | .handleEvent guard => s.handleEvent guard
  | .eventHandled => s.eventHandled
  | .finish => .ok { s with currentActiveChannel := none, eventHandling := false }

def machine (κ : Type) [DecidableEq κ] : Machine (State κ) (Action κ) Fault := ⟨enabled, step⟩

/-- The steps of the loop itself. -/
def Action.ofLoop : Action κ → Bool
  | .poll _ | .handleEvent _ | .eventHandled | .finish => true
  | _ => false

/-- A channel is destroyed only when the poller does not have it. -/
def RemovedFirst (s : State κ) (a : Action κ) (_ : State κ) : Prop :=
  match a with
  | .destroy c => s.poller.hasChannel c = false
  | _ => True

instance (s : State κ) (a : Action κ) (t : State κ) : Decidable (RemovedFirst s a t) :=
  match a with
  | .destroy c => inferInstanceAs (Decidable (s.poller.hasChannel c = false))
  | .construct _ _ | .update _ _ | .remove _ | .close _ | .poll _ | .handleEvent _ |
    .eventHandled | .finish => isTrue trivial

/-! ## The invariant -/

/-- A channel with what its next `handleEvent` finds in `revents_`. -/
def State.withRevents (s : State κ) (c : κ) : κ × BitVec 32 := (c, (s.poller.channel c).revents)

structure Live (s : State κ) : Prop where
  keyed : s.poller.Keyed
  registered : ∀ (fd : Int) (c : κ), s.poller.channels[fd]? = some c → s.alive c = true
  fds : ∀ c, s.alive c = true → 0 ≤ (s.poller.channel c).fd
  active : s.activeChannels = s.reported.map Prod.fst
  nodup : s.activeChannels.Nodup
  /-- each channel in turn, with what was reported -/
  order : s.handled ++ s.rest.map s.withRevents = s.reported
  /-- what is still to be passed has not been removed -/
  rest : ∀ c ∈ s.rest, ∃ fd : Int, s.poller.channels[fd]? = some c
  current : ∀ c, s.currentActiveChannel = some c → c ∉ s.rest
  calling : s.calling = true → s.eventHandling = true ∧
    ∃ c, s.currentActiveChannel = some c ∧ s.alive c = true ∧ s.inEvent c = true
  outside : s.eventHandling = false → s.rest = [] ∧ s.currentActiveChannel = none

/-- A fault that is a failed assert of the call made, or `LOG_SYSFATAL` in it. -/
def Asserted (e : Fault) : Prop := e ≠ .dead

namespace Live

variable {s : State κ} {c : κ}

omit [DecidableEq κ] in
theorem init (usePoll : Bool) : Live (init usePoll : State κ) := by
  have hempty : ∀ (fd : Int) (c : κ),
      (Poller.newDefaultPoller usePoll : Poller κ).channels[fd]? ≠ some c := by
    intro fd c
    cases usePoll <;> simp [Poller.newDefaultPoller, Poller.channels]
  refine ⟨.newDefaultPoller usePoll, fun fd c hc => absurd hc (hempty fd c), ?_, rfl,
    List.nodup_nil, rfl, ?_, ?_, ?_, fun _ => ⟨rfl, rfl⟩⟩
  · intro c hc
    cases hc
  · intro c hc
    cases hc
  · intro c hc
    cases hc
  · intro h
    cases h

omit [DecidableEq κ] in
theorem rest_alive (h : Live s) (hc : c ∈ s.rest) : s.alive c = true := by
  obtain ⟨fd, hfd⟩ := h.rest c hc
  exact h.registered fd c hfd

omit [DecidableEq κ] in
theorem mem_active (h : Live s) (hc : c ∈ s.rest) : c ∈ s.activeChannels := by
  rw [h.active, ← h.order, List.map_append, List.map_map, List.mem_append]
  exact .inr (List.mem_map.2 ⟨c, hc, rfl⟩)

omit [DecidableEq κ] in
/-- Changes of the poller that keep what is to be passed. -/
theorem setPoller (h : Live s) {p : Poller κ} (hk : p.Keyed)
    (hreg : ∀ (fd : Int) (c : κ), p.channels[fd]? = some c → s.alive c = true)
    (hfd : ∀ c, s.alive c = true → 0 ≤ (p.channel c).fd)
    (hrevents : ∀ c ∈ s.rest, (p.channel c).revents = (s.poller.channel c).revents)
    (hrest : ∀ c ∈ s.rest, ∀ fd : Int, s.poller.channels[fd]? = some c →
      p.channels[fd]? = some c) : Live { s with poller := p } := by
  refine ⟨hk, hreg, hfd, h.active, h.nodup, ?_, ?_, h.current, h.calling, h.outside⟩
  · have hsame : s.rest.map (State.withRevents { s with poller := p }) =
        s.rest.map s.withRevents := by
      refine List.map_congr_left fun c hc => ?_
      rw [State.withRevents, State.withRevents, hrevents c hc]
    exact (congrArg (s.handled ++ ·) hsame).trans h.order
  · intro c hc
    obtain ⟨fd, hfd⟩ := h.rest c hc
    exact ⟨fd, hrest c hc fd hfd⟩

theorem construct (h : Live s) (fd : Int) (hc : s.alive c = false) (hfd : 0 ≤ fd) :
    Live { s with
      poller := s.poller.construct c fd
      alive := Function.update s.alive c true
      inEvent := Function.update s.inEvent c false } := by
  have hne : ∀ d, s.alive d = true → d ≠ c := by
    rintro d hd rfl
    rw [hc] at hd
    cases hd
  have hch : (s.poller.construct c fd).channels = s.poller.channels := by
    cases s.poller <;> rfl
  have hself : (s.poller.construct c fd).channel c = .make fd := by
    cases s.poller <;> exact Function.update_self _ _ _
  have hother : ∀ d, d ≠ c → (s.poller.construct c fd).channel d = s.poller.channel d := by
    intro d hd
    cases s.poller <;> exact Function.update_of_ne hd _ _
  have hkeyed : (s.poller.construct c fd).Keyed := by
    refine h.keyed.construct fd fun x hx => ?_
    exact hne c (h.registered x c hx) rfl
  refine ⟨hkeyed, ?_, ?_, h.active, h.nodup, ?_, ?_, h.current, ?_, h.outside⟩
  · intro x d hd
    rw [hch] at hd
    have hd := h.registered x d hd
    show Function.update s.alive c true d = true
    rw [Function.update_of_ne (hne d hd)]
    exact hd
  · intro d hd
    show 0 ≤ ((s.poller.construct c fd).channel d).fd
    by_cases hdc : d = c
    · rw [hdc, hself]
      exact hfd
    · rw [hother d hdc]
      change Function.update s.alive c true d = true at hd
      rw [Function.update_of_ne hdc] at hd
      exact h.fds d hd
  · have hsame : ∀ d ∈ s.rest, ((s.poller.construct c fd).channel d).revents =
        (s.poller.channel d).revents :=
      fun d hd => congrArg _ (hother d (hne d (h.rest_alive hd)))
    refine Eq.trans ?_ h.order
    congr 1
    refine List.map_congr_left fun d hd => ?_
    rw [State.withRevents, State.withRevents, hsame d hd]
  · intro d hd
    obtain ⟨x, hx⟩ := h.rest d hd
    exact ⟨x, by rw [hch]; exact hx⟩
  · intro hcall
    obtain ⟨hev, d, hcur, hd, hin⟩ := h.calling hcall
    refine ⟨hev, d, hcur, ?_, ?_⟩
    · show Function.update s.alive c true d = true
      rw [Function.update_of_ne (hne d hd)]
      exact hd
    · show Function.update s.inEvent c false d = true
      rw [Function.update_of_ne (hne d hd)]
      exact hin

theorem update (h : Live s) (hc : s.alive c = true) {op : Channel.Op} {p : Poller κ}
    (hp : s.poller.updateChannel c op = .ok p) : Live { s with poller := p } := by
  have hsets := Poller.updateChannel_sets hp
  refine h.setPoller (h.keyed.updateChannel (h.fds c hc) hp) ?_ ?_ ?_ ?_
  · intro fd d hd
    rw [hsets.channels] at hd
    split at hd
    · cases hd
      exact hc
    · exact h.registered fd d hd
  · intro d hd
    rw [hsets.fd]
    exact h.fds d hd
  · intro d _
    exact Poller.updateChannel_revents hp d
  · intro d _ fd hfd
    rw [hsets.channels]
    split
    · next he =>
      subst he
      rw [Poller.updateChannel_before hp hfd]
    · exact hfd

/-- The assert of `removeChannel` keeps the channels that are still to be passed. -/
theorem remove (h : Live s) {p : Poller κ}
    (hassert : ¬ (s.eventHandling = true ∧
      ¬ (s.currentActiveChannel = some c ∨ c ∉ s.activeChannels)))
    (hp : s.poller.removeChannel c = .ok p) : Live { s with poller := p } := by
  obtain ⟨hreg, hsets⟩ := Poller.removeChannel_sets hp
  have hself : s.poller.channels[(s.poller.channel c).fd]? = some c := of_decide_eq_true hreg
  have hnot : c ∉ s.rest := by
    intro hc
    have hev : s.eventHandling = true := by
      cases he : s.eventHandling with
      | true => rfl
      | false =>
        rw [(h.outside he).1] at hc
        cases hc
    refine hassert ⟨hev, ?_⟩
    rintro (hcur | hact)
    · exact h.current c hcur hc
    · exact hact (h.mem_active hc)
  refine h.setPoller (h.keyed.removeChannel hp) ?_ ?_ ?_ ?_
  · intro fd d hd
    rw [hsets.channels] at hd
    split at hd
    · cases hd
    · exact h.registered fd d hd
  · intro d hd
    rw [hsets.fd]
    exact h.fds d hd
  · intro d _
    exact Poller.removeChannel_revents hp d
  · intro d hd fd hfd
    rw [hsets.channels]
    split
    · next he =>
      subst he
      rw [hself] at hfd
      cases hfd
      exact absurd hd hnot
    · exact hfd

theorem destroy (h : Live s) (hin : s.inEvent c = false) (hc : s.poller.hasChannel c = false) :
    Live { s with alive := Function.update s.alive c false } := by
  have hnot : ∀ fd : Int, s.poller.channels[fd]? ≠ some c := by
    intro fd hfd
    have hkey := h.keyed.key hfd
    rw [← hkey] at hfd
    exact of_decide_eq_false hc hfd
  have hkeep : ∀ d, d ≠ c → Function.update s.alive c false d = s.alive d :=
    fun d hd => Function.update_of_ne hd _ _
  refine ⟨h.keyed, ?_, ?_, h.active, h.nodup, h.order, h.rest, h.current, ?_, h.outside⟩
  · intro fd d hd
    show Function.update s.alive c false d = true
    rw [hkeep d (by rintro rfl; exact hnot fd hd)]
    exact h.registered fd d hd
  · intro d hd
    by_cases hdc : d = c
    · change Function.update s.alive c false d = true at hd
      rw [hdc, Function.update_self] at hd
      cases hd
    · exact h.fds d ((hkeep d hdc).symm.trans hd)
  · intro hcall
    obtain ⟨hev, d, hcur, hd, hind⟩ := h.calling hcall
    refine ⟨hev, d, hcur, ?_, hind⟩
    show Function.update s.alive c false d = true
    rw [hkeep d (by rintro rfl; rw [hin] at hind; cases hind)]
    exact hd

omit [DecidableEq κ] in
theorem close (h : Live s) (fd : Int) : Live { s with poller := s.poller.closed fd } := by
  have hch : (s.poller.closed fd).channels = s.poller.channels := by
    cases s.poller <;> rfl
  have hchannel : (s.poller.closed fd).channel = s.poller.channel := by
    cases s.poller <;> rfl
  refine h.setPoller (h.keyed.closed fd) ?_ ?_ ?_ ?_
  · intro x d hd
    rw [hch] at hd
    exact h.registered x d hd
  · intro d hd
    rw [hchannel]
    exact h.fds d hd
  · intro d _
    rw [hchannel]
  · intro d _ x hx
    rw [hch]
    exact hx

/-- What is reported is registered, so it is alive. -/
theorem poll (h : Live s) (hev : s.eventHandling = false) {result : Poller.Result}
    (hr : s.poller.mayReturn result = true) : ∃ t, s.poll result = .ok t ∧ Live t := by
  obtain ⟨hnodup, hreg⟩ := h.keyed.toReport hr
  obtain ⟨p, hp, hkeyed, hrep⟩ := h.keyed.callPoll hr
  have halive : ((s.poller.toReport result).any fun e => !s.alive e.1) = false := by
    rw [List.any_eq_false]
    intro e he
    obtain ⟨fd, hfd⟩ := hreg e.1 (List.mem_map_of_mem he)
    rw [h.registered fd e.1 hfd]
    decide
  refine ⟨{ s with
    poller := p
    activeChannels := p.activeChannels
    rest := p.activeChannels
    eventHandling := true
    reported := s.poller.toReport result
    handled := [] }, ?_, hkeyed, ?_, ?_, hrep.active, ?_, ?_, ?_, ?_, ?_, ?_⟩
  · rw [State.poll, halive, hp]
    rfl
  · intro fd d hd
    rw [hrep.channels] at hd
    exact h.registered fd d hd
  · intro d hd
    show 0 ≤ (p.channel d).fd
    rw [hrep.fd]
    exact h.fds d hd
  · show p.activeChannels.Nodup
    rw [hrep.active]
    exact hnodup
  · show [] ++ p.activeChannels.map (fun c => (c, (p.channel c).revents)) =
      s.poller.toReport result
    rw [List.nil_append, hrep.active, List.map_map]
    conv_rhs => rw [← List.map_id (s.poller.toReport result)]
    refine List.map_congr_left fun e he => ?_
    exact Prod.ext rfl (hrep.revents e he)
  · intro d hd
    change d ∈ p.activeChannels at hd
    rw [hrep.active] at hd
    show ∃ fd : Int, p.channels[fd]? = some d
    rw [hrep.channels]
    exact hreg d hd
  · intro d hcur
    rw [(h.outside hev).2] at hcur
    cases hcur
  · intro hcall
    obtain ⟨hev', -⟩ := h.calling hcall
    rw [hev] at hev'
    cases hev'
  · intro hev'
    cases hev'

omit [DecidableEq κ] in
theorem handleEvent_cons (h : Live s) (hev : s.eventHandling = true) {rest : List κ}
    (hrest : s.rest = c :: rest) (guard : Bool) (inEvent : κ → Bool)
    (hin : guard = true → inEvent c = true) :
    Live { s with
      rest := rest
      currentActiveChannel := some c
      calling := guard
      inEvent := inEvent
      handled := s.handled ++ [(c, (s.poller.channel c).revents)] } := by
  have horder := h.order
  rw [hrest] at horder
  have hnodup : (c :: rest).Nodup := by
    have hn := h.nodup
    rw [h.active, ← horder, List.map_append, List.map_map] at hn
    have hmap : (c :: rest).map (Prod.fst ∘ s.withRevents) = c :: rest := List.map_id _
    rw [hmap] at hn
    exact (List.nodup_append.1 hn).2.1
  refine ⟨h.keyed, h.registered, h.fds, h.active, h.nodup, ?_, ?_, ?_, ?_, ?_⟩
  · show (s.handled ++ [s.withRevents c]) ++ rest.map s.withRevents = s.reported
    rw [List.append_assoc]
    exact horder
  · intro d hd
    refine h.rest d ?_
    rw [hrest]
    exact List.mem_cons_of_mem c hd
  · intro d hd hmem
    cases hd
    exact (List.nodup_cons.1 hnodup).1 hmem
  · intro hg
    refine ⟨hev, c, rfl, h.rest_alive ?_, hin hg⟩
    rw [hrest]
    exact List.mem_cons_self
  · intro hev'
    change s.eventHandling = false at hev'
    rw [hev] at hev'
    cases hev'

theorem handleEvent (h : Live s) (hev : s.eventHandling = true) (guard : Bool) :
    ∃ t, s.handleEvent guard = .ok t ∧ Live t := by
  unfold State.handleEvent
  split
  · exact ⟨s, rfl, h⟩
  · next c rest hrest =>
    have hc : s.alive c = true := h.rest_alive (by rw [hrest]; exact List.mem_cons_self)
    rw [if_neg (by rw [hc]; decide)]
    refine ⟨_, rfl, h.handleEvent_cons hev hrest guard _ ?_⟩
    rintro rfl
    exact Function.update_self c true s.inEvent

theorem eventHandled (h : Live s) (hcall : s.calling = true) :
    ∃ t, s.eventHandled = .ok t ∧ Live t := by
  obtain ⟨hev, c, hcur, hc, -⟩ := h.calling hcall
  refine ⟨{ s with calling := false, inEvent := Function.update s.inEvent c false }, ?_, h.keyed,
    h.registered, h.fds, h.active, h.nodup, h.order, h.rest, h.current, ?_, h.outside⟩
  · unfold State.eventHandled
    rw [hcur]
    exact if_neg (by rw [hc]; decide)
  · intro hcall'
    cases hcall'

omit [DecidableEq κ] in
theorem finish (h : Live s) (hcalling : s.calling = false) (hrest : s.rest = []) :
    Live { s with currentActiveChannel := none, eventHandling := false } := by
  refine ⟨h.keyed, h.registered, h.fds, h.active, h.nodup, h.order, h.rest, ?_, ?_,
    fun _ => ⟨hrest, rfl⟩⟩
  · intro c hc
    cases hc
  · intro hcall
    change s.calling = true at hcall
    rw [hcalling] at hcall
    cases hcall

omit [DecidableEq κ] in
/-- The poller's faults are failed asserts or `LOG_SYSFATAL`. -/
theorem liftPoller {r : Except Poller.Fault (Poller κ)}
    (hp : ∀ p, r = .ok p → Live { s with poller := p }) :
    (∃ t, s.liftPoller r = .ok t ∧ Live t) ∨ ∃ e, s.liftPoller r = .error e ∧ Asserted e := by
  cases r with
  | ok p => exact .inl ⟨_, rfl, hp p rfl⟩
  | error e => exact .inr ⟨_, rfl, by intro h; cases h⟩

theorem removeChannel (h : Live s) (c : κ) :
    (∃ t, s.removeChannel c = .ok t ∧ Live t) ∨
      ∃ e, s.removeChannel c = .error e ∧ Asserted e := by
  unfold State.removeChannel
  split
  · exact .inr ⟨_, rfl, by intro h; cases h⟩
  · next hassert =>
    have hlift := liftPoller (s := s) (r := s.poller.removeChannel c)
      fun p hp => h.remove hassert hp
    have halive : ((s.poller.channelAtEnd c).any fun last => !s.alive last) = false := by
      cases hlast : s.poller.channelAtEnd c with
      | none => rfl
      | some last =>
        obtain ⟨fd, hfd⟩ := Poller.channelAtEnd_registered hlast
        show (!s.alive last) = false
        rw [h.registered fd last hfd]
        rfl
    rcases hlift with ⟨t, ht, hl⟩ | ⟨e, he, ha⟩
    · rw [ht, halive]
      exact .inl ⟨t, rfl, hl⟩
    · rw [he]
      exact .inr ⟨e, rfl, ha⟩

/-- The steps of the loop itself do not even meet a failed assert. -/
theorem step (h : Live s) {a : Action κ} (he : enabled s a = true)
    (hP : ∀ t, EventLoopChannels.step s a = .ok t → RemovedFirst s a t) :
    (∃ t, EventLoopChannels.step s a = .ok t ∧ Live t) ∨
      ∃ e, EventLoopChannels.step s a = .error e ∧ Asserted e ∧ a.ofLoop = false := by
  cases a with
  | construct c fd =>
    simp only [enabled, Bool.and_eq_true, Bool.not_eq_true', decide_eq_true_eq] at he
    exact .inl ⟨_, rfl, h.construct fd he.1.2 he.2⟩
  | update c op =>
    simp only [enabled, Bool.and_eq_true] at he
    rcases liftPoller fun p hp => h.update he.2 hp with ht | ⟨e, hr, ha⟩
    · exact .inl ht
    · exact .inr ⟨e, hr, ha, rfl⟩
  | remove c =>
    rcases h.removeChannel c with ht | ⟨e, hr, ha⟩
    · exact .inl ht
    · exact .inr ⟨e, hr, ha, rfl⟩
  | destroy c =>
    by_cases hin : s.inEvent c = true
    · exact .inr ⟨.assertFailed, if_pos hin, (by intro h; cases h), rfl⟩
    · have hok : s.destroy c = .ok { s with alive := Function.update s.alive c false } :=
        if_neg hin
      exact .inl ⟨_, hok, h.destroy (Bool.eq_false_iff.2 hin) (hP _ hok)⟩
  | close fd => exact .inl ⟨_, rfl, h.close fd⟩
  | poll result =>
    simp only [enabled, Bool.and_eq_true, Bool.not_eq_true'] at he
    exact .inl (h.poll he.1 he.2)
  | handleEvent guard =>
    simp only [enabled, Bool.and_eq_true, Bool.not_eq_true'] at he
    exact .inl (h.handleEvent he.1.1 guard)
  | eventHandled => exact .inl (h.eventHandled he)
  | finish =>
    simp only [enabled, Bool.and_eq_true, Bool.not_eq_true', List.isEmpty_iff] at he
    exact .inl ⟨_, rfl, h.finish he.1.2 he.2⟩

end Live

/-- Whatever the callbacks and functors do with channels, as long as they remove a channel before
they destroy it, the loop uses no destroyed channel.  In every iteration `handleEvent` is called
of the reported channels, each once and in turn, with the `revents_` reported, and none that has
still to be called is destroyed.  The loop's own steps never fail. -/
theorem no_dead_channel (usePoll : Bool) (as : List (Action κ)) (r : Except Fault (State κ))
    (hexec : (machine κ).exec (init usePoll) as = some r)
    (hremoved : (machine κ).StepsMeet RemovedFirst (init usePoll) as) :
    r ≠ .error .dead ∧
      ∀ s, r = .ok s →
        s.activeChannels = s.reported.map Prod.fst ∧
        s.handled ++ s.rest.map s.withRevents = s.reported ∧
        (s.reported.map Prod.fst).Nodup ∧
        (∀ c ∈ s.rest, s.alive c = true) ∧
        ∀ a : Action κ, a.ofLoop = true → enabled s a = true → ∃ t, step s a = .ok t := by
  have hcases := (machine κ).exec_cases (E := Asserted) (I := Live) (P := RemovedFirst)
    (fun s a h he hP => (h.step he hP).imp_right fun ⟨e, hr, ha, _⟩ => ⟨e, hr, ha⟩)
    (Live.init usePoll) hremoved hexec
  rcases hcases with ⟨t, rfl, h⟩ | ⟨e, rfl, ha⟩
  · refine ⟨(by intro h; cases h), ?_⟩
    intro s hs
    obtain rfl : s = t := (Except.ok.inj hs).symm
    refine ⟨h.active, h.order, h.active ▸ h.nodup, fun c hc => h.rest_alive hc, ?_⟩
    intro a hloop he
    have hremoved : ∀ u, step s a = .ok u → RemovedFirst s a u := by
      intro u _
      cases a with
      | destroy c => cases hloop
      | _ => trivial
    rcases h.step he hremoved with ⟨u, hu, -⟩ | ⟨e, -, -, hnot⟩
    · exact ⟨u, hu⟩
    · rw [hloop] at hnot
      cases hnot
  · refine ⟨?_, ?_⟩
    · intro he
      cases he
      exact ha rfl
    · intro s hs
      cases hs

/-- Two channels are active.  The first one's callback removes its channel and constructs a
third; the second one's destroys the first. -/
def removeRun : List (Action Nat) :=
  [.construct 0 7, .update 0 .enableReading, .construct 1 8, .update 1 .enableReading,
    .poll (.poll [1#16, 0x11#16]),
    .handleEvent true, .update 0 .disableAll, .remove 0, .construct 2 9,
    .update 2 .enableWriting, .eventHandled,
    .handleEvent true, .destroy 0, .close 7, .eventHandled]

theorem removeRun_no_dead :
    ∃ s, (machine Nat).exec (init true) removeRun = some (.ok s) ∧
      s.handled = [(0, 1), (1, 0x11)] ∧ s.alive 0 = false ∧
      s.handled ++ s.rest.map s.withRevents = s.reported :=
  ⟨_, rfl, by decide, by decide,
    ((no_dead_channel true removeRun _ rfl (by decide)).2 _ rfl).2.1⟩

/-- A channel that is destroyed without `remove()` is reported nevertheless. -/
example : (machine Nat).exec (init false)
    [.construct 0 7, .update 0 .enableReading, .destroy 0, .poll (.ePoll [(1, 7)])] =
      some (.error .dead) := by
  rfl

end Rawmd.EventLoopChannels
