import Rawmd.Net.Poller.PollKeyed
import Rawmd.Net.Poller.EPollKeyed

/-!
# What either poller reports

`toReport` is what a result of the system call tells about the channels; `Keyed` is the invariant
of either poller's maps, for channels that come and go.

    Keyed p → update, remove, construct, close keep it
    Keyed p → p.mayReturn r → ∃ p', p.callPoll r = .ok p' ∧ p'.Keyed ∧
      Reports p (p.toReport r) p'                                             (Keyed.callPoll)
-/

namespace Rawmd

namespace Poller

variable {κ : Type}

/-- What the system call of `poll` returns; `ePoll` has the descriptors of the events. -/
inductive Result where
  | failed
  | poll (revents : List (BitVec 16))
  | ePoll (ready : List (BitVec 32 × Int))

/-- The promises of poll(2), and of epoll_wait(2): no more events than fit, each of a descriptor
of the interest list, and none twice. -/
def mayReturn : Poller κ → Result → Bool
  | _, .failed => true
  | .poll s, .poll revents => s.kernelWrites revents
  | .ePoll s, .ePoll ready =>
    decide (ready.length ≤ s.eventsSize) && decide (ready.map Prod.snd).Nodup &&
      ready.all fun event => s.interest.contains event.2
  | _, _ => false

/-- The channels that are to be reported, in order, with what is reported. -/
def toReport : Poller κ → Result → List (κ × BitVec 32)
  | .poll s, .poll revents =>
    (s.written revents).filterMap fun pfd =>
      if pfd.revents = 0 then none
      else s.channels[pfd.fd]?.map fun c => (c, pfd.revents.signExtend 32)
  | .ePoll s, .ePoll ready => (s.entries ready).map Prod.swap
  | _, _ => []

def activeChannels : Poller κ → List κ
  | .poll s => s.activeChannels
  | .ePoll s => s.activeChannels

/-- `poll_->poll(kPollTimeMs, &activeChannels_)`, after `activeChannels_.clear()` -/
def callPoll [DecidableEq κ] : Poller κ → Result → Except Fault (Poller κ)
  | .poll s, .poll revents => (s.poll (some revents)).mapError .poll |>.map .poll
  | .poll s, _ => (s.poll none).mapError .poll |>.map .poll
  | .ePoll s, .ePoll ready => (s.poll (some (s.entries ready))).mapError .ePoll |>.map .ePoll
  | .ePoll s, _ => (s.poll none).mapError .ePoll |>.map .ePoll

def Keyed : Poller κ → Prop
  | .poll s => PollPoller.Keyed s
  | .ePoll s => EPollPoller.Keyed s

/-- `poll` has reported `l`, and nothing else that users see is changed. -/
structure Reports (p : Poller κ) (l : List (κ × BitVec 32)) (p' : Poller κ) : Prop where
  active : p'.activeChannels = l.map Prod.fst
  channels : p'.channels = p.channels
  fd : ∀ c, (p'.channel c).fd = (p.channel c).fd
  revents : ∀ e ∈ l, (p'.channel e.1).revents = e.2

/-- The channel whose index `removeChannel` sets. -/
def channelAtEnd : Poller κ → κ → Option κ
  | .poll s, c => s.channelAtEnd c
  | .ePoll _, _ => none

variable {p p' : Poller κ} {c : κ} {r : Result}

theorem Keyed.key (h : p.Keyed) {fd : Int} (hc : p.channels[fd]? = some c) :
    (p.channel c).fd = fd := by
  cases p with
  | poll s => exact (PollPoller.Keyed.key h fd c hc).2
  | ePoll s => exact EPollPoller.Keyed.key h fd c hc

theorem Keyed.newDefaultPoller (usePoll : Bool) : (newDefaultPoller usePoll : Poller κ).Keyed := by
  unfold Poller.newDefaultPoller
  split
  · refine ⟨fun fd c hc => ?_, List.nodup_nil, fun fd hfd => absurd hfd List.not_mem_nil⟩
    simp at hc
  · refine ⟨fun fd c hc => ?_, fun fd mask c hc => ?_⟩
    · simp at hc
    · simp at hc

/-- The kernel drops a descriptor from the interest list. -/
theorem Keyed.closed (h : p.Keyed) (fd : Int) : (p.closed fd).Keyed := by
  cases p with
  | poll s => exact h
  | ePoll s =>
    refine EPollPoller.Keyed.congr h (fun _ _ _ => ⟨rfl, rfl⟩) rfl (fun x entry he => ?_)
    change (s.interest.erase fd)[x]? = some entry at he
    rw [getElem?_erase_key] at he
    split at he
    · cases he
    · exact he

variable [DecidableEq κ]

/-- A channel that no map points to can be constructed anew. -/
theorem Keyed.construct (h : p.Keyed) (fd : Int) (hc : ∀ x : Int, p.channels[x]? ≠ some c) :
    (p.construct c fd).Keyed := by
  have hne : ∀ (x : Int) (d : κ), p.channels[x]? = some d →
      Function.update p.channel c (.make fd) d = p.channel d := by
    intro x d hd
    rw [Function.update_of_ne]
    rintro rfl
    exact hc x hd
  cases p with
  | poll s => exact PollPoller.Keyed.congr h (fun x d hd => congrArg _ (hne x d hd)) rfl rfl
  | ePoll s =>
    exact EPollPoller.Keyed.congr h
      (fun x d hd => ⟨congrArg _ (hne x d hd), congrArg _ (hne x d hd)⟩) rfl (fun _ _ he => he)

theorem Keyed.updateChannel (h : p.Keyed) (hfd : 0 ≤ (p.channel c).fd) {op : Channel.Op}
    (hr : p.updateChannel c op = .ok p') : p'.Keyed := by
  cases p with
  | poll s =>
    obtain ⟨t, ht, rfl⟩ := Except.map_mapError_ok hr
    refine (PollPoller.Keyed.setEvents h c _).updateChannel ?_ ht
    rw [PollPoller.Table.setEvents_fd]
    exact hfd
  | ePoll s =>
    obtain ⟨t, ht, rfl⟩ := Except.map_mapError_ok hr
    exact (EPollPoller.Keyed.setEvents h c _).updateChannel ht

theorem Keyed.removeChannel (h : p.Keyed) (hr : p.removeChannel c = .ok p') : p'.Keyed := by
  cases p with
  | poll s =>
    obtain ⟨t, ht, rfl⟩ := Except.map_mapError_ok hr
    exact PollPoller.Keyed.removeChannel h ht
  | ePoll s =>
    obtain ⟨t, ht, rfl⟩ := Except.map_mapError_ok hr
    exact EPollPoller.Keyed.removeChannel h ht

/-- No other channel is under the descriptor of an updated one. -/
theorem updateChannel_before {op : Channel.Op} (h : p.updateChannel c op = .ok p') {d : κ}
    (hd : p.channels[(p.channel c).fd]? = some d) : d = c := by
  cases p with
  | poll s =>
    obtain ⟨t, ht, rfl⟩ := Except.map_mapError_ok h
    change s.channels[(s.channel c).fd]? = some d at hd
    simp only [PollPoller.State.updateChannel] at ht
    split at ht
    · cases ht
    · next ha =>
      simp only [Bool.not_eq_false, PollPoller.State.updateAsserts, PollPoller.State.slotAsserts,
        PollPoller.Table.setEvents_fd] at ha
      change (if _ then decide (s.channels[(s.channel c).fd]? = none) else
        decide (s.channels[(s.channel c).fd]? = some c) && _ && _) = true at ha
      rw [hd] at ha
      split at ha
      · simp at ha
      · simp only [Bool.and_eq_true, decide_eq_true_eq] at ha
        exact Option.some.inj ha.1.1
  | ePoll s =>
    obtain ⟨t, ht, rfl⟩ := Except.map_mapError_ok h
    change s.channels[(s.channel c).fd]? = some d at hd
    have hfd : ∀ events, ((s.setEvents c events).channel c).fd = (s.channel c).fd :=
      fun events => update_fd s.channel { s.channel c with events := events } rfl c
    simp only [EPollPoller.State.updateChannel] at ht
    split at ht
    · cases ht
    · next ha =>
      simp only [Bool.not_eq_false, EPollPoller.State.updateAsserts, hfd] at ha
      change (if _ then decide (s.channels[(s.channel c).fd]? = none) else
        decide (s.channels[(s.channel c).fd]? = some c) && _) = true at ha
      rw [hd] at ha
      split at ha
      · simp at ha
      · simp only [Bool.and_eq_true, decide_eq_true_eq] at ha
        exact Option.some.inj ha.1

theorem updateChannel_revents {op : Channel.Op} (h : p.updateChannel c op = .ok p') (d : κ) :
    (p'.channel d).revents = (p.channel d).revents := by
  have hevents : ∀ (channel : κ → Channel) (events : BitVec 32),
      (Function.update channel c { channel c with events := events } d).revents =
        (channel d).revents := by
    intro channel events
    rw [Function.update_apply]
    split
    · next hd => rw [hd]
    · rfl
  cases p with
  | poll s =>
    obtain ⟨t, ht, rfl⟩ := Except.map_mapError_ok h
    exact (PollPoller.updateChannel_revents ht d).trans (hevents s.channel _)
  | ePoll s =>
    obtain ⟨t, ht, rfl⟩ := Except.map_mapError_ok h
    exact (EPollPoller.updateChannel_revents ht d).trans (hevents s.channel _)

theorem removeChannel_revents (h : p.removeChannel c = .ok p') (d : κ) :
    (p'.channel d).revents = (p.channel d).revents := by
  cases p with
  | poll s =>
    obtain ⟨t, ht, rfl⟩ := Except.map_mapError_ok h
    exact PollPoller.removeChannel_revents ht d
  | ePoll s =>
    obtain ⟨t, ht, rfl⟩ := Except.map_mapError_ok h
    exact EPollPoller.removeChannel_revents ht d

omit [DecidableEq κ] in
theorem channelAtEnd_registered {last : κ} (hl : p.channelAtEnd c = some last) :
    ∃ fd : Int, p.channels[fd]? = some last := by
  cases p with
  | poll s => exact PollPoller.channelAtEnd_registered hl
  | ePoll s => cases hl

omit [DecidableEq κ] in
/-- What is to be reported are registered channels, each once. -/
theorem Keyed.toReport (h : p.Keyed) (hr : p.mayReturn r = true) :
    ((p.toReport r).map Prod.fst).Nodup ∧
      ∀ c ∈ (p.toReport r).map Prod.fst, ∃ fd : Int, p.channels[fd]? = some c := by
  cases p with
  | poll s =>
    cases r with
    | failed => exact ⟨List.nodup_nil, fun c hc => absurd hc List.not_mem_nil⟩
    | poll revents =>
      have hmap : ((Poller.poll s).toReport (.poll revents)).map Prod.fst =
          s.reported (s.written revents) := by
        simp only [Poller.toReport, PollPoller.State.reported, List.map_filterMap]
        congr 1
        funext pfd
        split
        · rfl
        · cases s.channels[pfd.fd]? <;> rfl
      rw [hmap]
      exact PollPoller.Keyed.reported h hr
    | ePoll ready => cases hr
  | ePoll s =>
    cases r with
    | failed => exact ⟨List.nodup_nil, fun c hc => absurd hc List.not_mem_nil⟩
    | poll revents => cases hr
    | ePoll ready =>
      simp only [mayReturn, Bool.and_eq_true, decide_eq_true_eq] at hr
      have hmap : ((Poller.ePoll s).toReport (.ePoll ready)).map Prod.fst =
          (s.entries ready).map Prod.snd := by
        rw [Poller.toReport, List.map_map]
        rfl
      rw [hmap]
      obtain ⟨hnodup, hreg⟩ := EPollPoller.Keyed.entries h hr.1.2
      exact ⟨hnodup, fun c hc => ⟨_, hreg c hc⟩⟩

/-- `poll` meets no failed assert, and reports just that. -/
theorem Keyed.callPoll (h : p.Keyed) (hr : p.mayReturn r = true) :
    ∃ p', p.callPoll r = .ok p' ∧ p'.Keyed ∧ Reports p (p.toReport r) p' := by
  cases p with
  | poll s =>
    cases r with
    | failed =>
      exact ⟨.poll { s with activeChannels := [] }, rfl,
        PollPoller.Keyed.congr h (fun _ _ _ => rfl) rfl rfl, rfl, rfl, fun _ => rfl,
        fun e he => absurd he List.not_mem_nil⟩
    | poll revents =>
      obtain ⟨s', hs', hp⟩ := PollPoller.Keyed.poll h hr
      refine ⟨.poll s', ?_, PollPoller.Keyed.polled h hr hp, ?_, hp.channels, fun c => ?_,
        fun e he => ?_⟩
      · rw [Poller.callPoll, hs']
        rfl
      · show s'.activeChannels = _
        rw [hp.active, hp.pollfds, PollPoller.State.reported, Poller.toReport, List.map_filterMap]
        congr 1
        funext pfd
        split
        · rfl
        · cases s.channels[pfd.fd]? <;> rfl
      · show (s'.channel c).fd = _
        rw [hp.channel c]
        rfl
      · obtain ⟨pfd, hm, he⟩ := List.mem_filterMap.1 he
        split at he
        · cases he
        · next hne =>
          obtain ⟨d, hd, rfl⟩ := Option.map_eq_some_iff.1 he
          show (s'.channel d).revents = _
          rw [hp.marked pfd (by rw [hp.pollfds]; exact hm) hne d hd]
    | ePoll ready => cases hr
  | ePoll s =>
    cases r with
    | failed =>
      exact ⟨.ePoll { s with activeChannels := [] }, rfl,
        EPollPoller.Keyed.congr h (fun _ _ _ => ⟨rfl, rfl⟩) rfl (fun _ _ he => he), rfl, rfl,
        fun _ => rfl, fun e he => absurd he List.not_mem_nil⟩
    | poll revents => cases hr
    | ePoll ready =>
      simp only [mayReturn, Bool.and_eq_true, decide_eq_true_eq] at hr
      obtain ⟨s', size, hs', hf, hset⟩ := EPollPoller.Keyed.poll h hr.1.1 hr.1.2
      refine ⟨.ePoll { s' with eventsSize := size }, ?_, EPollPoller.Keyed.filled h size hf, ?_,
        hf.channels, fun c => ?_, fun e he => ?_⟩
      · rw [Poller.callPoll, hs']
        rfl
      · show s'.activeChannels = _
        rw [hf.active, Poller.toReport, List.map_map]
        rfl
      · show (s'.channel c).fd = _
        rw [hf.channel c]
        rfl
      · obtain ⟨e', he', rfl⟩ := List.mem_map.1 he
        exact hset e' he'

end Poller

end Rawmd
