import Rawmd.Net.Poller.PollerReports
import Rawmd.Net.Poller.PollServes
import Rawmd.Net.Poller.EPollServes

/-!
# What either poller accepts while channels come and go

A program that constructs channels on descriptors that are open, lets each first ask for something,
removes it when it asks for nothing, and closes its descriptor after that, meets no failed assert
and no `LOG_SYSFATAL` in either poller, whatever descriptors and addresses are used again; and it
is told only of channels that ask for something, and only what they ask for.

    Serves p → construct, updateChannel, removeChannel, closed and callPoll keep it
-/

namespace Rawmd.Poller

variable {κ : Type}

def Serves : Poller κ → Prop
  | .poll s => PollPoller.Serves s
  | .ePoll s => EPollPoller.Serves s

/-- The kernel reports what it is asked for, and the unasked bits. -/
def within : Poller κ → Result → Bool
  | .poll s, .poll revents => s.within revents
  | .ePoll s, .ePoll ready => s.within ready
  | _, _ => true

variable {p : Poller κ} {c : κ} {r : Result}

theorem Serves.keyed (h : p.Serves) : p.Keyed := by
  cases p with
  | poll s => exact PollPoller.Serves.keyed h
  | ePoll s => exact EPollPoller.Serves.keyed h

theorem Serves.newDefaultPoller (usePoll : Bool) :
    (newDefaultPoller usePoll : Poller κ).Serves := by
  have hkeyed := Keyed.newDefaultPoller (κ := κ) usePoll
  cases usePoll with
  | true =>
    refine ⟨hkeyed, fun c hc => ?_⟩
    simp [PollPoller.State.Registered] at hc
  | false =>
    refine ⟨hkeyed, fun fd c hc => ?_⟩
    simp at hc

/-- A descriptor that is not registered is closed. -/
theorem Serves.closed (h : p.Serves) {fd : Int} (hfd : p.channels[fd]? = none) :
    (p.closed fd).Serves := by
  have hkeyed := h.keyed.closed fd
  cases p with
  | poll s => exact h
  | ePoll s =>
    refine EPollPoller.Serves.congr h hkeyed (fun _ _ _ => ⟨rfl, rfl⟩) rfl (fun x d hd => ?_)
    refine EPollPoller.erase_ne _ ?_
    rintro rfl
    exact absurd (hd.symm.trans hfd) (by simp)

variable [DecidableEq κ]

/-- A channel that no map points to can be constructed anew. -/
theorem Serves.construct (h : p.Serves) (fd : Int) (hc : ∀ x : Int, p.channels[x]? ≠ some c) :
    (p.construct c fd).Serves := by
  have hkeyed := h.keyed.construct fd hc
  have hne : ∀ (x : Int) (d : κ), p.channels[x]? = some d →
      Function.update p.channel c (.make fd) d = p.channel d := by
    intro x d hd
    rw [Function.update_of_ne]
    rintro rfl
    exact hc x hd
  cases p with
  | poll s =>
    refine PollPoller.Serves.congr h hkeyed (fun x d hd => ?_) rfl
      (fun i pfd hi => ⟨pfd.revents, hi⟩)
    have heq : (s.setChannel c (.make fd)).channel d = s.channel d := hne x d hd
    rw [heq]
    exact ⟨rfl, rfl, rfl⟩
  | ePoll s =>
    refine EPollPoller.Serves.congr h hkeyed (fun x d hd => ?_) rfl (fun _ _ _ => rfl)
    have heq : (s.setChannel c (.make fd)).channel d = s.channel d := hne x d hd
    rw [heq]
    exact ⟨rfl, rfl⟩

/-- The events of channel `c` are set, and the other channels ask for what they asked for. -/
def SetsEvents (p : Poller κ) (c : κ) (events : BitVec 32) (p' : Poller κ) : Prop :=
  ∀ d, (p'.channel d).events = if d = c then events else (p.channel d).events

theorem updateChannel_poll {s s' : PollPoller.State κ} {op : Channel.Op}
    (h : (s.setEvents c (op.events (s.channel c).events)).updateChannel c = .ok s') :
    (Poller.poll s).updateChannel c op = .ok (.poll s') := by
  simp only [Poller.updateChannel, h]
  rfl

theorem updateChannel_ePoll {s s' : EPollPoller.State κ} {op : Channel.Op}
    (h : (s.setEvents c (op.events (s.channel c).events)).updateChannel c = .ok s') :
    (Poller.ePoll s).updateChannel c op = .ok (.ePoll s') := by
  simp only [Poller.updateChannel, h]
  rfl

/-- The first update of a channel, which asks for something. -/
theorem Serves.updateChannel_new (h : p.Serves) {fd : Int} (hc : p.channel c = .make fd)
    (hfd : 0 ≤ fd) (hnone : p.channels[fd]? = none) {op : Channel.Op}
    (h0 : op.events Channel.kNoneEvent ≠ 0) :
    ∃ p', p.updateChannel c op = .ok p' ∧ p'.Serves ∧
      p.SetsEvents c (op.events Channel.kNoneEvent) p' := by
  have hfd' : (p.channel c).fd = fd := by rw [hc]; rfl
  have hev : (p.channel c).events = Channel.kNoneEvent := by rw [hc]; rfl
  have hidx : (p.channel c).index = -1 := by rw [hc]; rfl
  rw [← hev] at h0
  rw [← hfd'] at hfd hnone
  cases p with
  | poll s =>
    obtain ⟨s', hs', hserves, hset⟩ := PollPoller.Serves.updateChannel_new h
      (show (s.channel c).index < 0 from hidx ▸ (by decide)) hnone hfd h0
      (op.events_lt (show (s.channel c).events.toNat < 2 ^ 3 from hev ▸ (by decide)))
    exact ⟨.poll s', updateChannel_poll hs', hserves, hev ▸ hset⟩
  | ePoll s =>
    obtain ⟨s', hs', hserves, hset⟩ := EPollPoller.Serves.updateChannel_new h hidx hnone h0
    exact ⟨.ePoll s', updateChannel_ePoll hs', hserves, hev ▸ hset⟩

/-- A later update, unless it tells a channel that asks for nothing to do so. -/
theorem Serves.updateChannel (h : p.Serves) (hc : p.hasChannel c = true) {op : Channel.Op}
    (hsome : (p.channel c).events ≠ 0 ∨ op.events (p.channel c).events ≠ 0) :
    ∃ p', p.updateChannel c op = .ok p' ∧ p'.Serves ∧
      p.SetsEvents c (op.events (p.channel c).events) p' := by
  have hreg := of_decide_eq_true hc
  cases p with
  | poll s =>
    obtain ⟨i, pfd, hs⟩ := PollPoller.Serves.served h c hreg
    obtain ⟨s', hs', hserves, hset⟩ := PollPoller.Serves.updateChannel h hreg
      (op.events_lt hs.small)
    exact ⟨.poll s', updateChannel_poll hs', hserves, hset⟩
  | ePoll s =>
    obtain ⟨s', hs', hserves, hset⟩ := EPollPoller.Serves.updateChannel h hreg hsome
    exact ⟨.ePoll s', updateChannel_ePoll hs', hserves, hset⟩

/-- The removal of a channel that asks for nothing. -/
theorem Serves.removeChannel (h : p.Serves) (hc : p.hasChannel c = true)
    (h0 : (p.channel c).events = 0) :
    ∃ p', p.removeChannel c = .ok p' ∧ p'.Serves ∧
      ∀ d, (p'.channel d).events = (p.channel d).events := by
  have hreg := of_decide_eq_true hc
  cases p with
  | poll s =>
    obtain ⟨s', hs', hserves, hset⟩ := PollPoller.Serves.removeChannel h hreg h0
    refine ⟨.poll s', ?_, hserves, hset⟩
    simp only [Poller.removeChannel, hs']
    rfl
  | ePoll s =>
    obtain ⟨s', hs', hserves, hset⟩ := EPollPoller.Serves.removeChannel h hreg h0
    refine ⟨.ePoll s', ?_, hserves, hset⟩
    simp only [Poller.removeChannel, hs']
    rfl

omit [DecidableEq κ] in
/-- A channel that is reported asks for something, and what is reported was asked for. -/
theorem Serves.reported (h : p.Serves) (hw : p.within r = true) {e : κ × BitVec 32}
    (he : e ∈ p.toReport r) :
    (p.channel e.1).events ≠ 0 ∧ e.2 &&& ~~~((p.channel e.1).events ||| unasked) = 0 := by
  cases p with
  | poll s =>
    cases r with
    | failed => cases he
    | poll revents =>
      obtain ⟨pfd, hm, he⟩ := List.mem_filterMap.1 he
      split at he
      · cases he
      · next hne =>
        obtain ⟨c, hc, rfl⟩ := Option.map_eq_some_iff.1 he
        exact PollPoller.Serves.reported h hw hm hne hc
    | ePoll ready => cases he
  | ePoll s =>
    cases r with
    | failed => cases he
    | poll revents => cases he
    | ePoll ready =>
      obtain ⟨⟨events, c⟩, hm, rfl⟩ := List.mem_map.1 he
      exact EPollPoller.Serves.reported h hw hm

/-- `poll` reports what it should, and what the channels ask for is as before. -/
theorem Serves.callPoll (h : p.Serves) (hr : p.mayReturn r = true) :
    ∃ p', p.callPoll r = .ok p' ∧ p'.Serves ∧ Reports p (p.toReport r) p' ∧
      ∀ d, (p'.channel d).events = (p.channel d).events := by
  obtain ⟨p', hp', -, hreports⟩ := h.keyed.callPoll hr
  refine ⟨p', hp', ?_⟩
  cases p with
  | poll s =>
    cases r with
    | failed =>
      cases hp'
      exact ⟨PollPoller.Serves.congr h (PollPoller.Keyed.congr h.keyed (fun _ _ _ => rfl) rfl rfl)
        (fun _ _ _ => ⟨rfl, rfl, rfl⟩) rfl (fun i pfd hi => ⟨pfd.revents, hi⟩), hreports,
        fun _ => rfl⟩
    | poll revents =>
      obtain ⟨s', hs', hp⟩ := PollPoller.Keyed.poll h.keyed hr
      simp only [Poller.callPoll, hs'] at hp'
      cases hp'
      refine ⟨PollPoller.Serves.polled h hr hp, hreports, fun d => ?_⟩
      show (s'.channel d).events = _
      rw [hp.channel d]
      rfl
    | ePoll ready => cases hr
  | ePoll s =>
    cases r with
    | failed =>
      cases hp'
      exact ⟨EPollPoller.Serves.congr h
        (EPollPoller.Keyed.congr h.keyed (fun _ _ _ => ⟨rfl, rfl⟩) rfl (fun _ _ he => he))
        (fun _ _ _ => ⟨rfl, rfl⟩) rfl (fun _ _ _ => rfl), hreports, fun _ => rfl⟩
    | poll revents => cases hr
    | ePoll ready =>
      simp only [mayReturn, Bool.and_eq_true, decide_eq_true_eq] at hr
      obtain ⟨s', size, hs', hf, -⟩ := EPollPoller.Keyed.poll h.keyed hr.1.1 hr.1.2
      simp only [Poller.callPoll, hs'] at hp'
      cases hp'
      refine ⟨EPollPoller.Serves.filled h size hf, hreports, fun d => ?_⟩
      show (s'.channel d).events = _
      rw [hf.channel d]
      rfl

end Rawmd.Poller
