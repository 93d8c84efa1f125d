import Rawmd.Net.Poller.PollerReports
import Rawmd.Net.Poller.Protocol
import Mathlib.Data.List.Perm.Subperm

/-!
# When the two pollers report the same

A program calls the same functions of its channels over either poller, and the kernel below is
the same: `ready fd` are the conditions that hold of a descriptor, of which poll(2) and
epoll_wait(2) give what is asked for, and `POLLERR` and `POLLHUP` always.  `epoll_wait` gives no
more events than `events_` has room for, in any order; what it leaves is given by later calls.

Both pollers stop watching a channel that asks for nothing.  From then on an update brings it
back in `EPollPoller` but not in `PollPoller`, which leaves the hidden descriptor hidden.

    Both F s → (SameWatched s ↔ SameReports s)                   (Both.sameReports_iff)
    all reports of a run are the same iff no channel that is no longer watched is updated
                                                                 (pollers_report_alike_iff)
-/

namespace Rawmd

/-- Reported whether asked for or not; `POLLNVAL` is not, as descriptors stay open. -/
def pollAlways : BitVec 32 := POLLERR ||| POLLHUP

/-- What `::poll` writes. -/
def PollPoller.State.kernelPoll {κ : Type} (s : State κ) (ready : Int → BitVec 16) :
    List (BitVec 16) :=
  s.pollfds.map fun pfd =>
    if pfd.fd < 0 then 0 else ready pfd.fd &&& (pfd.events ||| pollAlways.setWidth 16)

/-- The events that the kernel has for `epoll_wait`. -/
def EPollPoller.State.kernelReady {κ : Type} (s : State κ) (ready : Int → BitVec 16) :
    List (BitVec 32 × Int) :=
  s.interest.toList.filterMap fun entry =>
    let events := (ready entry.1).setWidth 32 &&& (entry.2.1 ||| pollAlways)
    if events = 0 then none else some (events, entry.1)

/-- What `epoll_wait` returns: some of them, as many as there is room for. -/
def EPollPoller.State.kernelWaits {κ : Type} (s : State κ) (ready : Int → BitVec 16)
    (events : List (BitVec 32 × Int)) : Bool :=
  decide (events.Subperm (s.kernelReady ready)) &&
    decide (events.length = min s.eventsSize (s.kernelReady ready).length)

/-- The active channels, with their `revents_`. -/
def Poller.reports {κ : Type} (p : Poller κ) : List (κ × BitVec 32) :=
  p.activeChannels.map fun c => (c, (p.channel c).revents)

namespace Pollers

open Channel (Use Call)

structure State (κ : Type) where
  use : κ → Use
  poll : PollPoller.State κ
  ePoll : EPollPoller.State κ

inductive Action (κ : Type) where
  | call (a : Call κ)
  /-- both poll, and `epoll_wait` returns `events` -/
  | poll (ready : Int → BitVec 16) (events : List (BitVec 32 × Int))

variable {κ : Type}

def init (F : Fds κ) : State κ :=
  ⟨fun _ => .fresh, PollPoller.init F, EPollPoller.init F⟩

variable [DecidableEq κ]

/-- Legal calls that no assert of either poller refuses. -/
def enabled (s : State κ) : Action κ → Bool
  | .call a => Channel.legal s.use a && (PollPoller.channelMachine κ).enabled s.poll a &&
    (EPollPoller.channelMachine κ).enabled s.ePoll a
  | .poll ready events => s.ePoll.kernelWaits ready events

def step (s : State κ) : Action κ → Except Poller.Fault (State κ)
  | .call a => do
    let poll ← ((PollPoller.channelMachine κ).step s.poll a).mapError .poll
    let ePoll ← ((EPollPoller.channelMachine κ).step s.ePoll a).mapError .ePoll
    return ⟨Channel.track s.use a, poll, ePoll⟩
  | .poll ready events => do
    let poll ← (s.poll.poll (some (s.poll.kernelPoll ready))).mapError .poll
    let ePoll ← (s.ePoll.poll (some (s.ePoll.entries events))).mapError .ePoll
    return ⟨s.use, poll, ePoll⟩

def machine (κ : Type) [DecidableEq κ] : Machine (State κ) (Action κ) Poller.Fault :=
  ⟨enabled, step⟩

/-- Whatever holds of the descriptors, the next `poll` of either reports the same, as far as
`events_` has room. -/
def SameReports (s : State κ) : Prop :=
  ∀ ready events, s.ePoll.kernelWaits ready events = true →
    ∃ p q, (Poller.poll s.poll).callPoll (.poll (s.poll.kernelPoll ready)) = .ok p ∧
      (Poller.ePoll s.ePoll).callPoll (.ePoll events) = .ok q ∧
      q.reports.Subperm p.reports ∧
      q.reports.length = min s.ePoll.eventsSize p.reports.length

/-- A channel that asks for nothing after two updates is not updated: neither poller watches
it any longer. -/
def Alike (s : State κ) (a : Action κ) (_ : State κ) : Prop :=
  match a with
  | .call (.update c _) => ¬ (2 ≤ (s.use c).updates ∧ (s.use c).events = 0)
  | _ => True

instance decidableAlike (s : State κ) (a : Action κ) (t : State κ) : Decidable (Alike s a t) :=
  match a with
  | .call (.update c _) => inferInstanceAs
    (Decidable (¬ (2 ≤ (s.use c).updates ∧ (s.use c).events = 0)))
  | .call (.remove _) | .poll _ _ => isTrue trivial

end Pollers

/-! ## Which channels `PollPoller` watches -/

namespace PollPoller

open Channel (Use)

variable {κ : Type}

/-- The slot of the channel holds its plain descriptor. -/
def State.Watches (s : State κ) (c : κ) : Prop := ∃ pfd ∈ s.pollfds, pfd.fd = (s.channel c).fd

namespace Table

variable {F : Fds κ} {s s' : State κ} {c d : κ} {i : Nat} {pfd qfd : PollFd}

/-- The slot with the plain descriptor of a channel is that channel's. -/
theorem slot_of_fd (h : Table F s) (hm : pfd ∈ s.pollfds) (hfd : pfd.fd = (s.channel c).fd) :
    s.Registered c ∧ ∃ i, s.Slot c i pfd := by
  obtain ⟨i, hi⟩ := List.mem_iff_getElem?.1 hm
  obtain ⟨d, hd, hs⟩ := h.owner i pfd hi
  have hdc : d = c := by
    apply F.inj
    rw [← h.fd, ← h.fd, ← hs.fd, hfd, slotFd, if_neg (not_lt.2 (h.fd_nonneg c))]
  subst hdc
  exact ⟨hd, i, hs⟩

theorem watches_iff (h : Table F s) :
    s.Watches c ↔ ∃ i pfd, s.Registered c ∧ s.Slot c i pfd ∧ pfd.fd = (s.channel c).fd := by
  constructor
  · rintro ⟨pfd, hm, hfd⟩
    obtain ⟨hreg, i, hs⟩ := h.slot_of_fd hm hfd
    exact ⟨i, pfd, hreg, hs, hfd⟩
  · rintro ⟨i, pfd, -, hs, hfd⟩
    exact ⟨pfd, List.mem_of_getElem? hs.at_index, hfd⟩

theorem watches_slot (h : Table F s) (hreg : s.Registered c) (hs : s.Slot c i pfd) :
    s.Watches c ↔ pfd.fd = (s.channel c).fd := by
  rw [h.watches_iff]
  constructor
  · rintro ⟨j, qfd, -, hq, hfd⟩
    rw [slot_unique hs hq]
    exact hfd
  · intro hfd
    exact ⟨i, pfd, hreg, hs, hfd⟩

theorem not_watches (h : Table F s) (hreg : ¬ s.Registered c) : ¬ s.Watches c := by
  rw [h.watches_iff]
  rintro ⟨-, -, hr, -, -⟩
  exact hreg hr

/-- A channel whose slot, if any, holds what it held. -/
theorem watches_congr (h : Table F s) (h' : Table F s')
    (hreg : s'.Registered d ↔ s.Registered d)
    (hslot : ∀ i pfd, s.Registered d → s.Slot d i pfd → ∃ j, s'.Slot d j pfd) :
    s'.Watches d ↔ s.Watches d := by
  by_cases hd : s.Registered d
  · obtain ⟨i, pfd, hs⟩ := h.slot d hd
    obtain ⟨j, hs'⟩ := hslot i pfd hd hs
    rw [h.watches_slot hd hs, h'.watches_slot (hreg.2 hd) hs', h.fd, h'.fd]
  · exact iff_of_false (h'.not_watches (fun hr => hd (hreg.1 hr))) (h.not_watches hd)

variable [DecidableEq κ]

theorem watches_added (h : Table F s) (events : BitVec 32)
    (hnone : s.channels[(s.channel c).fd]? = none) :
    (s.added c events).Watches d ↔ d = c ∨ s.Watches d := by
  have h' := h.added events hnone
  by_cases hdc : d = c
  · subst hdc
    refine iff_of_true ?_ (.inl rfl)
    rw [h'.watches_slot ((h.registered_added events).2 (.inl rfl)) (h.slot_added events),
      added_fd]
  · rw [or_iff_right hdc]
    refine h.watches_congr h' ?_ fun i pfd _ hs => ⟨i, slot_added_ne events hs hdc⟩
    rw [h.registered_added]
    exact or_iff_right hdc

theorem watches_modified (h : Table F s) (events : BitVec 32) (hreg : s.Registered c)
    (hs : s.Slot c i pfd) :
    (s.modified c events i pfd).Watches d ↔
      if d = c then events ≠ 0 ∧ s.Watches c else s.Watches d := by
  have h' := h.modified events hs
  split
  · next hdc =>
    subst hdc
    rw [h'.watches_slot ((registered_modified _ _ _ _ _ _).2 hreg) (h.slot_modified events hs),
      h.watches_slot hreg hs, modified_self]
    have hpos := h.fd_nonneg d
    dsimp only
    split
    · next h0 =>
      refine iff_of_false (fun he => ?_) (fun hne => hne.1 h0)
      omega
    · next h0 => exact (and_iff_right h0).symm
  · next hdc =>
    exact h.watches_congr h' (registered_modified _ _ _ _ _ _)
      fun j qfd _ hd => ⟨j, h.slot_modified_ne events hs hd hdc⟩

theorem watches_removed (h : Table F s) {last : κ} (hreg : s.Registered c) (hs : s.Slot c i pfd)
    (hlast : s.Registered last) (hsl : s.Slot last (s.pollfds.length - 1) qfd) :
    (s.removed c i last).Watches d ↔ d ≠ c ∧ s.Watches d := by
  have h' := h.removed hreg hs hlast hsl
  by_cases hdc : d = c
  · refine iff_of_false (h'.not_watches fun hr => ?_) (fun hw => hw.1 hdc)
    exact (h.registered_removed.1 hr).1 hdc
  · rw [and_iff_right hdc]
    refine h.watches_congr h' ?_ fun j qfd _ hd => ⟨_, h.slot_removed hs hsl hd hdc⟩
    rw [h.registered_removed]
    exact and_iff_right hdc

end Table

theorem Table.keyed {F : Fds κ} {s : State κ} (h : Table F s) : Keyed s := by
  refine ⟨fun fd c hc => ?_, ?_, fun fd hfd => ?_⟩
  · rw [h.channels_fd hc, h.key fd c hc]
    exact ⟨F.nonneg c, rfl⟩
  · rw [State.slotFds, List.Nodup, List.pairwise_map, List.pairwise_iff_getElem]
    intro i j hi hj hij he
    obtain ⟨c, -, hc⟩ := h.owner i _ (List.getElem?_eq_getElem hi)
    obtain ⟨d, -, hd⟩ := h.owner j _ (List.getElem?_eq_getElem hj)
    have hcd : c = d := by
      apply F.inj
      rw [← h.fd, ← h.fd, ← hc.fd, ← hd.fd, he]
    subst hcd
    have := hc.index.symm.trans hd.index
    omega
  · obtain ⟨pfd, hm, rfl⟩ := List.mem_map.1 hfd
    obtain ⟨i, hi⟩ := List.mem_iff_getElem?.1 hm
    obtain ⟨c, hc, hs⟩ := h.owner i pfd hi
    exact ⟨c, by rw [hs.fd]; exact hc⟩

/-- What `poll` leaves alone: all but the `revents`. -/
theorem Follows.polled {F : Fds κ} {s s' : State κ} {u : κ → Use} (h : Follows F s u)
    (ht : Table F s') {revents : List (BitVec 16)} (hp : Polled s revents s') :
    Follows F s' u := by
  have hreg : ∀ c, s'.Registered c ↔ s.Registered c := by
    intro c
    rw [State.Registered, State.Registered, hp.channels, hp.channel c]
  refine ⟨⟨ht, fun c => ?_⟩, fun c => ?_, fun c => ?_, fun c => ?_, h.removed,
    fun c i pfd hc hs => ?_⟩
  · rw [hp.channel c]
    exact h.served.small c
  · rw [hp.channel c]
    exact h.events c
  · rw [hreg]
    exact h.registered c
  · rw [hp.channel c]
    exact h.index c
  · have hat := hs.at_index
    rw [hp.pollfds] at hat
    obtain ⟨qfd, r, hq, -, rfl⟩ := getElem?_written.1 hat
    have hs' : s.Slot c i qfd := by
      refine ⟨?_, hq, ?_⟩
      · rw [← hs.index, hp.channel c]
      · rw [← show (s'.channel c).fd = (s.channel c).fd from by rw [hp.channel c]]
        exact hs.fd
    rw [hp.channel c]
    exact h.slot c i qfd ((hreg c).1 hc) hs'

end PollPoller

namespace EPollPoller

open Channel (Use)

variable {κ : Type} {s s' : State κ}

theorem Follows.filled {F : Fds κ} {u : κ → Use} (h : Follows F s u)
    {ready : List (BitVec 32 × κ)} (size : Nat)
    (hf : Filled { s with activeChannels := [] } ready s') :
    Follows F { s' with eventsSize := size } u := by
  refine ⟨h.mirror.congr hf.channel hf.channels hf.interest hf.refused, fun c => ?_, fun c => ?_⟩
  · show (s'.channel c).events = _
    rw [hf.channel c]
    exact h.events c
  · show (s'.channel c).index ≠ kNew ↔ _
    rw [hf.channel c]
    exact h.registered c

theorem Mirror.keyed {F : Fds κ} (h : Mirror F s) : Keyed s := by
  refine ⟨fun fd c hc => ?_, fun fd mask c hc => ?_⟩
  · rw [h.fd, h.channels_key fd c hc]
  · obtain ⟨hfd, hi, -⟩ := (h.interest fd mask c).1 hc
    refine ⟨(h.registered fd c).2 ⟨hfd, ?_⟩, hi⟩
    rw [hi]
    decide

/-- An added channel is in the interest list, with its events. -/
theorem Mirror.mem_interest {F : Fds κ} (h : Mirror F s) {entry : Int × BitVec 32 × κ} :
    entry ∈ s.interest.toList ↔ ∃ c, (s.channel c).index = kAdded ∧
      entry = ((s.channel c).fd, (s.channel c).events, c) := by
  obtain ⟨fd, mask, c⟩ := entry
  rw [Std.TreeMap.mem_toList_iff_getElem?_eq_some, h.interest]
  constructor
  · rintro ⟨rfl, hi, rfl⟩
    exact ⟨c, hi, by rw [h.fd]⟩
  · rintro ⟨d, hi, he⟩
    simp only [Prod.mk.injEq] at he
    obtain ⟨rfl, rfl, rfl⟩ := he
    exact ⟨h.fd c, hi, rfl⟩

theorem poll_eventsSize [DecidableEq κ] {ready : List (BitVec 32 × κ)}
    (h : s.poll (some ready) = .ok s') : s.eventsSize ≤ s'.eventsSize := by
  have hloop : ∀ (l : List (BitVec 32 × κ)) (t t' : State κ), t.fillLoop l = .ok t' →
      t'.eventsSize = t.eventsSize := by
    intro l
    induction l with
    | nil =>
      intro t t' ht
      cases ht
      rfl
    | cons e l ih =>
      intro t t' ht
      rw [State.fillLoop] at ht
      split at ht
      · exact ih (t.report e.2 e.1) t' ht
      · cases ht
  simp only [State.poll] at h
  split at h
  · cases hf : State.fillActiveChannels { s with activeChannels := [] } ready with
    | error e =>
      rw [hf] at h
      cases h
    | ok t =>
      rw [hf] at h
      cases h
      unfold State.fillActiveChannels at hf
      split at hf
      · have ht := hloop _ _ _ hf
        dsimp only at ht
        split
        · show s.eventsSize ≤ t.eventsSize * 2
          omega
        · show s.eventsSize ≤ t.eventsSize
          omega
      · cases hf
  · cases h
    exact le_rfl

end EPollPoller

namespace Pollers

open Channel (Use Call)

variable {κ : Type} {F : Fds κ} {s s' : State κ} {c : κ}

structure Both (F : Fds κ) (s : State κ) : Prop where
  poll : PollPoller.Follows F s.poll s.use
  ePoll : EPollPoller.Follows F s.ePoll s.use
  deleted : ∀ c, (s.ePoll.channel c).index = EPollPoller.kDeleted →
    (s.use c).events = 0 ∧ 2 ≤ (s.use c).updates
  size : 0 < s.ePoll.eventsSize

def SameWatched (s : State κ) : Prop :=
  ∀ c, s.poll.Watches c ↔ (s.ePoll.channel c).index = EPollPoller.kAdded

/-! ## What is reported -/

/-- What the kernel has for a channel that is watched. -/
def State.kernelEvents (s : State κ) (F : Fds κ) (ready : Int → BitVec 16) (c : κ) : BitVec 32 :=
  (ready (F.fd c)).setWidth 32 &&& ((s.use c).events ||| pollAlways)

theorem toNat_of_signExtend {events : BitVec 16} (h : (events.signExtend 32).toNat < 2 ^ 3) :
    events.toNat < 2 ^ 3 := by
  have hint := BitVec.toInt_signExtend_of_le (x := events) (show 16 ≤ 32 by decide)
  rw [BitVec.toInt_eq_toNat_of_lt (by omega), BitVec.toInt_eq_toNat_cond] at hint
  split at hint <;> omega

/-- The conversions to `short` and back. -/
theorem signExtend_kernel (r events : BitVec 16) (h : (events.signExtend 32).toNat < 2 ^ 3) :
    (r &&& (events ||| pollAlways.setWidth 16)).signExtend 32 =
      r.setWidth 32 &&& (events.signExtend 32 ||| pollAlways) := by
  have hlt := toNat_of_signExtend h
  have hmask : (events ||| pollAlways.setWidth 16).toNat < 2 ^ 5 := by
    rw [BitVec.toNat_or]
    exact Nat.or_lt_two_pow (by omega) (by decide)
  have hand : (r &&& (events ||| pollAlways.setWidth 16)).toNat < 2 ^ 5 := by
    rw [BitVec.toNat_and]
    exact Nat.and_lt_two_pow _ hmask
  rw [BitVec.signExtend_eq_setWidth_of_msb_false, BitVec.signExtend_eq_setWidth_of_msb_false,
    BitVec.setWidth_and, BitVec.setWidth_or]
  · rfl
  · rw [BitVec.msb_eq_false_iff_two_mul_lt]
    omega
  · rw [BitVec.msb_eq_false_iff_two_mul_lt]
    omega

/-- Nothing but the bits of poll(2) is written. -/
theorem and_not_pollBits (r : BitVec 16) {events : BitVec 16} (h : events.toNat < 2 ^ 3) :
    (r &&& (events ||| pollAlways.setWidth 16)) &&& ~~~pollBits = 0 := by
  have hmask : (events ||| pollAlways.setWidth 16) &&& ~~~pollBits = 0 := by
    obtain ⟨n, hn⟩ : ∃ n, events.toNat = n := ⟨_, rfl⟩
    rw [hn] at h
    obtain rfl : events = BitVec.ofNat 16 n := BitVec.eq_of_toNat_eq (by simp; omega)
    interval_cases n <;> rfl
  rw [BitVec.and_assoc, hmask]
  exact BitVec.and_zero

/-- The slots ask for what operations set. -/
theorem slot_small (h : Both F s) {pfd : PollFd} (hm : pfd ∈ s.poll.pollfds) :
    (pfd.events.signExtend 32).toNat < 2 ^ 3 := by
  obtain ⟨i, hi⟩ := List.mem_iff_getElem?.1 hm
  obtain ⟨d, hd, hs⟩ := h.poll.served.table.owner i pfd hi
  rw [(h.poll.slot d i pfd hd hs).1]
  exact h.poll.served.small d

/-- What the kernel writes into the slot of a channel that is watched. -/
theorem slot_kernel (h : Both F s) (ready : Int → BitVec 16) {pfd : PollFd}
    (hm : pfd ∈ s.poll.pollfds) (hfd : pfd.fd = (s.poll.channel c).fd) :
    (ready pfd.fd &&& (pfd.events ||| pollAlways.setWidth 16)).signExtend 32 =
      s.kernelEvents F ready c := by
  obtain ⟨hreg, i, hs⟩ := h.poll.served.table.slot_of_fd hm hfd
  obtain ⟨hev, -⟩ := h.poll.slot c i pfd hreg hs
  rw [signExtend_kernel _ _ (slot_small h hm), hev, h.poll.events, State.kernelEvents, hfd,
    h.poll.served.table.fd]

theorem signExtend_ne_zero {r : BitVec 16} : r ≠ 0 ↔ r.signExtend 32 ≠ 0 := by
  rw [not_iff_not]
  constructor
  · rintro rfl
    rfl
  · intro h
    have hint := BitVec.toInt_signExtend_of_le (x := r) (show 16 ≤ 32 by decide)
    rw [h] at hint
    exact BitVec.eq_of_toInt_eq hint.symm

theorem written_kernelPoll (s : PollPoller.State κ) (ready : Int → BitVec 16) :
    s.written (s.kernelPoll ready) = s.pollfds.map fun pfd =>
      { pfd with revents := if pfd.fd < 0 then 0
        else ready pfd.fd &&& (pfd.events ||| pollAlways.setWidth 16) } := by
  rw [PollPoller.State.written, PollPoller.State.kernelPoll, List.zipWith_map_right,
    List.zipWith_self]

theorem mem_toReport_poll (h : Both F s) {ready : Int → BitVec 16} {x : BitVec 32} :
    (c, x) ∈ (Poller.poll s.poll).toReport (.poll (s.poll.kernelPoll ready)) ↔
      s.poll.Watches c ∧ x = s.kernelEvents F ready c ∧ x ≠ 0 := by
  have ht := h.poll.served.table
  rw [Poller.toReport, written_kernelPoll, List.filterMap_map, List.mem_filterMap]
  constructor
  · rintro ⟨pfd, hm, he⟩
    dsimp only [Function.comp_apply] at he
    by_cases hpos : pfd.fd < 0
    · rw [if_pos hpos, if_pos rfl] at he
      cases he
    · rw [if_neg hpos] at he
      split at he
      · cases he
      · next hne =>
        obtain ⟨d, hd, he⟩ := Option.map_eq_some_iff.1 he
        cases he
        have hfd : pfd.fd = (s.poll.channel c).fd := (ht.channels_fd hd).symm
        exact ⟨⟨pfd, hm, hfd⟩, slot_kernel h ready hm hfd, signExtend_ne_zero.1 hne⟩
  · rintro ⟨⟨pfd, hm, hfd⟩, rfl, hne⟩
    have hkernel := slot_kernel h ready hm hfd
    have hpos : ¬ pfd.fd < 0 := by
      rw [hfd]
      exact not_lt.2 (ht.fd_nonneg c)
    refine ⟨pfd, hm, ?_⟩
    dsimp only [Function.comp_apply]
    rw [if_neg hpos, if_neg, hfd, (ht.slot_of_fd hm hfd).1]
    · rw [← hfd, hkernel]
      rfl
    · rw [← ne_eq, signExtend_ne_zero, hkernel]
      exact hne

/-- The kernel has events for channels of its list, each once. -/
theorem mem_kernelReady (h : Both F s) {ready : Int → BitVec 16} {events : BitVec 32} {fd : Int} :
    (events, fd) ∈ s.ePoll.kernelReady ready ↔
      ∃ d, (s.ePoll.channel d).index = EPollPoller.kAdded ∧ fd = F.fd d ∧
        events = s.kernelEvents F ready d ∧ events ≠ 0 := by
  have hm := h.ePoll.mirror
  rw [EPollPoller.State.kernelReady, List.mem_filterMap]
  constructor
  · rintro ⟨entry, hentry, he⟩
    obtain ⟨d, hi, rfl⟩ := hm.mem_interest.1 hentry
    dsimp only at he
    split at he
    · cases he
    · next hne =>
      cases he
      refine ⟨d, hi, hm.fd d, ?_, hne⟩
      rw [State.kernelEvents, hm.fd, h.ePoll.events]
  · rintro ⟨d, hi, rfl, rfl, hne⟩
    refine ⟨_, hm.mem_interest.2 ⟨d, hi, rfl⟩, ?_⟩
    dsimp only
    rw [hm.fd, h.ePoll.events]
    exact if_neg hne

theorem nodup_kernelReady (s : EPollPoller.State κ) (ready : Int → BitVec 16) :
    ((s.kernelReady ready).map Prod.snd).Nodup := by
  rw [EPollPoller.State.kernelReady, List.map_filterMap, List.Nodup, List.pairwise_filterMap]
  refine Std.TreeMap.distinct_keys_toList.imp ?_
  rintro a b hab fd hfd fd' hfd' rfl
  obtain ⟨⟨_, x⟩, hx, rfl⟩ := Option.map_eq_some_iff.1 hfd
  obtain ⟨⟨_, y⟩, hy, hxy⟩ := Option.map_eq_some_iff.1 hfd'
  dsimp only at hx hy hxy
  split at hx
  · cases hx
  · split at hy
    · cases hy
    · cases hx
      cases hy
      rw [hxy] at hab
      exact hab Std.ReflCmp.compare_self

theorem mem_toReport_ePoll (h : Both F s) {ready : Int → BitVec 16} {x : BitVec 32} :
    (c, x) ∈ (Poller.ePoll s.ePoll).toReport (.ePoll (s.ePoll.kernelReady ready)) ↔
      (s.ePoll.channel c).index = EPollPoller.kAdded ∧ x = s.kernelEvents F ready c ∧ x ≠ 0 := by
  have hm := h.ePoll.mirror
  have hswap : (c, x) ∈ (Poller.ePoll s.ePoll).toReport (.ePoll (s.ePoll.kernelReady ready)) ↔
      (x, c) ∈ s.ePoll.entries (s.ePoll.kernelReady ready) := by
    rw [Poller.toReport, List.mem_map]
    constructor
    · rintro ⟨e, he, hs⟩
      cases hs
      exact he
    · intro he
      exact ⟨(x, c), he, rfl⟩
  rw [hswap, EPollPoller.mem_entries]
  constructor
  · rintro ⟨fd, mask, hr, hi⟩
    obtain ⟨d, -, rfl, rfl, hne⟩ := (mem_kernelReady h).1 hr
    obtain ⟨hfd, hi, -⟩ := (hm.interest _ _ _).1 hi
    obtain rfl := F.inj hfd
    exact ⟨hi, rfl, hne⟩
  · rintro ⟨hi, rfl, hne⟩
    exact ⟨F.fd c, _, (mem_kernelReady h).2 ⟨c, hi, rfl, rfl, hne⟩,
      (hm.interest _ _ c).2 ⟨rfl, hi, rfl⟩⟩

theorem kernelPoll_writes (h : Both F s) (ready : Int → BitVec 16) :
    s.poll.kernelWrites (s.poll.kernelPoll ready) = true := by
  simp only [PollPoller.State.kernelWrites, PollPoller.State.kernelPoll, List.length_map,
    decide_true, Bool.true_and, List.all_eq_true]
  rintro ⟨pfd, r⟩ hm
  rw [List.mem_iff_getElem?] at hm
  obtain ⟨i, hi⟩ := hm
  obtain ⟨hp, hr⟩ := List.getElem?_zip_eq_some.1 hi
  dsimp only at hp hr
  rw [List.getElem?_map, hp] at hr
  cases hr
  rw [Bool.and_eq_true, Bool.or_eq_true, decide_eq_true_eq, decide_eq_true_eq, decide_eq_true_eq]
  dsimp only
  split
  · exact ⟨BitVec.zero_and, .inr rfl⟩
  · next hpos =>
    exact ⟨and_not_pollBits _ (toNat_of_signExtend (slot_small h (List.mem_of_getElem? hp))),
      .inl (not_lt.1 hpos)⟩

/-- Every event that `epoll_wait` returns is reported. -/
theorem length_entries (h : Both F s) {ready : Int → BitVec 16} {events : List (BitVec 32 × Int)}
    (hsub : events ⊆ s.ePoll.kernelReady ready) :
    (s.ePoll.entries events).length = events.length := by
  rw [EPollPoller.State.entries, List.length_filterMap_eq_countP, List.countP_eq_length]
  intro e he
  obtain ⟨d, hi, hfd, -, -⟩ := (mem_kernelReady h).1 (hsub he)
  rw [hfd, (h.ePoll.mirror.interest _ _ d).2 ⟨rfl, hi, rfl⟩]
  rfl

/-- Where the same channels are watched, the same is to be reported. -/
theorem toReport_perm (h : Both F s) (hw : SameWatched s) (ready : Int → BitVec 16) :
    ((Poller.ePoll s.ePoll).toReport (.ePoll (s.ePoll.kernelReady ready))).Perm
      ((Poller.poll s.poll).toReport (.poll (s.poll.kernelPoll ready))) := by
  have hpoll : ((Poller.poll s.poll).toReport (.poll (s.poll.kernelPoll ready))).Nodup := by
    have hk : (Poller.poll s.poll).Keyed := h.poll.served.table.keyed
    have hr : (Poller.poll s.poll).mayReturn (.poll (s.poll.kernelPoll ready)) = true :=
      kernelPoll_writes h ready
    exact .of_map _ (hk.toReport hr).1
  have hePoll :
      ((Poller.ePoll s.ePoll).toReport (.ePoll (s.ePoll.kernelReady ready))).Nodup := by
    have hk := h.ePoll.mirror.keyed.entries (nodup_kernelReady s.ePoll ready)
    exact (List.Nodup.of_map _ hk.1).map Prod.swap_injective
  refine (List.perm_ext_iff_of_nodup hePoll hpoll).2 ?_
  rintro ⟨c, x⟩
  rw [mem_toReport_ePoll h, mem_toReport_poll h, hw c]

/-- Keyed by the descriptors of the channels. -/
theorem mayReturn_of_kernelWaits {ready : Int → BitVec 16} {events : List (BitVec 32 × Int)}
    (h : Both F s) (hk : s.ePoll.kernelWaits ready events = true) :
    (Poller.ePoll s.ePoll).mayReturn (.ePoll events) = true := by
  simp only [EPollPoller.State.kernelWaits, Bool.and_eq_true, decide_eq_true_eq] at hk
  simp only [Poller.mayReturn, Bool.and_eq_true, decide_eq_true_eq, List.all_eq_true]
  refine ⟨⟨?_, ?_⟩, ?_⟩
  · rw [hk.2]
    exact Nat.min_le_left _ _
  · obtain ⟨l, hperm, hsub⟩ := hk.1
    have hn := (hsub.map Prod.snd).nodup (nodup_kernelReady s.ePoll ready)
    exact (hperm.map Prod.snd).nodup_iff.1 hn
  · intro e he
    obtain ⟨d, hi, hfd, -, -⟩ := (mem_kernelReady h).1 (hk.1.subset he)
    rw [hfd, Std.TreeMap.contains_eq_isSome_getElem?,
      (h.ePoll.mirror.interest _ _ d).2 ⟨rfl, hi, rfl⟩]
    rfl

theorem reports_of {p p' : Poller κ} {l : List (κ × BitVec 32)} (h : p.Reports l p') :
    p'.reports = l := by
  rw [Poller.reports, h.active, List.map_map]
  conv_rhs => rw [← List.map_id l]
  exact List.map_congr_left fun e he => Prod.ext rfl (h.revents e he)

/-- What the two polls report, for events that `epoll_wait` may return. -/
theorem polls [DecidableEq κ] (h : Both F s) {ready : Int → BitVec 16}
    {events : List (BitVec 32 × Int)} (hk : s.ePoll.kernelWaits ready events = true) :
    ∃ p q, (Poller.poll s.poll).callPoll (.poll (s.poll.kernelPoll ready)) = .ok p ∧
      (Poller.ePoll s.ePoll).callPoll (.ePoll events) = .ok q ∧
      p.reports = (Poller.poll s.poll).toReport (.poll (s.poll.kernelPoll ready)) ∧
      q.reports = (Poller.ePoll s.ePoll).toReport (.ePoll events) := by
  have hp : (Poller.poll s.poll).Keyed := h.poll.served.table.keyed
  have hq : (Poller.ePoll s.ePoll).Keyed := h.ePoll.mirror.keyed
  have hr : (Poller.poll s.poll).mayReturn (.poll (s.poll.kernelPoll ready)) = true :=
    kernelPoll_writes h ready
  obtain ⟨p, hcall, -, hrep⟩ := hp.callPoll hr
  obtain ⟨q, hcall', -, hrep'⟩ := hq.callPoll (mayReturn_of_kernelWaits h hk)
  exact ⟨p, q, hcall, hcall', reports_of hrep, reports_of hrep'⟩

/-- Only one condition holds: there is an error on one channel's descriptor. -/
def errorOn (F : Fds κ) (c : κ) (fd : Int) : BitVec 16 :=
  if fd = F.fd c then POLLERR.setWidth 16 else 0

theorem kernelEvents_errorOn (s : State κ) (c d : κ) :
    s.kernelEvents F (errorOn F c) d ≠ 0 ↔ d = c := by
  rw [State.kernelEvents, errorOn]
  by_cases hdc : d = c
  · refine iff_of_true (fun h0 => ?_) hdc
    rw [hdc, if_pos rfl, BitVec.and_or_distrib_left] at h0
    exact absurd (BitVec.or_eq_zero_iff.1 h0).2 (by decide)
  · rw [if_neg fun he => hdc (F.inj he)]
    exact iff_of_false (fun hne => hne BitVec.zero_and) hdc

/-- Something is reported of a descriptor with an error exactly if its channel is watched. -/
theorem toReport_errorOn_poll (h : Both F s) (c : κ) :
    0 < ((Poller.poll s.poll).toReport (.poll (s.poll.kernelPoll (errorOn F c)))).length ↔
      s.poll.Watches c := by
  rw [List.length_pos_iff_exists_mem]
  constructor
  · rintro ⟨⟨d, x⟩, hm⟩
    obtain ⟨hw, rfl, hne⟩ := (mem_toReport_poll h).1 hm
    obtain rfl := (kernelEvents_errorOn s c d).1 hne
    exact hw
  · intro hw
    exact ⟨(c, _), (mem_toReport_poll h).2 ⟨hw, rfl, (kernelEvents_errorOn s c c).2 rfl⟩⟩

theorem kernelReady_errorOn (h : Both F s) (c : κ) :
    0 < (s.ePoll.kernelReady (errorOn F c)).length ↔
      (s.ePoll.channel c).index = EPollPoller.kAdded := by
  rw [List.length_pos_iff_exists_mem]
  constructor
  · rintro ⟨⟨x, fd⟩, hm⟩
    obtain ⟨d, hi, -, rfl, hne⟩ := (mem_kernelReady h).1 hm
    obtain rfl := (kernelEvents_errorOn s c d).1 hne
    exact hi
  · intro hi
    exact ⟨_, (mem_kernelReady h).2 ⟨c, hi, rfl, rfl, (kernelEvents_errorOn s c c).2 rfl⟩⟩

theorem length_toReport (h : Both F s) {ready : Int → BitVec 16} {events : List (BitVec 32 × Int)}
    (hsub : events ⊆ s.ePoll.kernelReady ready) :
    ((Poller.ePoll s.ePoll).toReport (.ePoll events)).length = events.length := by
  rw [Poller.toReport, List.length_map, length_entries h hsub]

theorem Both.sameReports_iff [DecidableEq κ] (h : Both F s) : SameReports s ↔ SameWatched s := by
  constructor
  · intro hs c
    have hk : s.ePoll.kernelWaits (errorOn F c)
        ((s.ePoll.kernelReady (errorOn F c)).take s.ePoll.eventsSize) = true := by
      rw [EPollPoller.State.kernelWaits, Bool.and_eq_true, decide_eq_true_eq, decide_eq_true_eq]
      exact ⟨(List.take_sublist _ _).subperm, List.length_take⟩
    obtain ⟨p, q, hp, hq, hrp, hrq⟩ := polls h hk
    obtain ⟨p', q', hp', hq', -, hlen⟩ := hs _ _ hk
    rw [hp] at hp'
    rw [hq] at hq'
    cases hp'
    cases hq'
    rw [hrp, hrq, length_toReport h (List.take_subset _ _), List.length_take] at hlen
    have hsize := h.size
    rw [← toReport_errorOn_poll h, ← kernelReady_errorOn h]
    omega
  · intro hw ready events hk
    obtain ⟨p, q, hp, hq, hrp, hrq⟩ := polls h hk
    simp only [EPollPoller.State.kernelWaits, Bool.and_eq_true, decide_eq_true_eq] at hk
    have hperm := toReport_perm h hw ready
    refine ⟨p, q, hp, hq, ?_, ?_⟩
    · rw [hrp, hrq]
      refine List.Subperm.trans ?_ hperm.subperm
      obtain ⟨l, hl, hsub⟩ := hk.1
      exact ⟨_, (hl.filterMap _).map Prod.swap, (hsub.filterMap _).map Prod.swap⟩
    · rw [hrp, hrq, length_toReport h hk.1.subset, hk.2, ← hperm.length_eq,
        length_toReport h (List.Subset.refl _)]

/-! ## What a step changes -/

variable [DecidableEq κ]

/-- Both pollers have done what they do for a call. -/
theorem Both.call_cases (h : Both F s) {a : Call κ} {t : State κ}
    (he : enabled s (.call a) = true) (ht : step s (.call a) = .ok t) :
    Channel.Kept s.use a (Channel.track s.use a) ∧ ∃ p q, t = ⟨Channel.track s.use a, p, q⟩ ∧
      PollPoller.Effect s.poll (PollPoller.channelAction s.poll a) p ∧
      EPollPoller.Effect s.ePoll (EPollPoller.channelAction s.ePoll a) q := by
  simp only [enabled, Bool.and_eq_true] at he
  obtain ⟨⟨hl, hep⟩, heq⟩ := he
  obtain ⟨p, hp, hpe⟩ := h.poll.served.table.step_effect hep
  obtain ⟨q, hq, hqe⟩ := h.ePoll.mirror.step_effect heq
  refine ⟨(h.poll.accepts_iff hl).1 hep, p, q, ?_, hpe, hqe⟩
  change (PollPoller.channelMachine κ).step s.poll a = .ok p at hp
  change (EPollPoller.channelMachine κ).step s.ePoll a = .ok q at hq
  rw [step, hp, hq] at ht
  cases ht
  rfl

theorem Both.poll_cases (h : Both F s) {ready : Int → BitVec 16}
    {events : List (BitVec 32 × Int)} {t : State κ}
    (he : enabled s (.poll ready events) = true) (ht : step s (.poll ready events) = .ok t) :
    ∃ p q size, t = ⟨s.use, p, { q with eventsSize := size }⟩ ∧ s.ePoll.eventsSize ≤ size ∧
      PollPoller.Table F p ∧ PollPoller.Polled s.poll (s.poll.kernelPoll ready) p ∧
      EPollPoller.Filled { s.ePoll with activeChannels := [] } (s.ePoll.entries events) q := by
  have htable := h.poll.served.table
  obtain ⟨p, hp, hpe⟩ := htable.poll_effect (kernelPoll_writes h ready)
  have hpt := htable.effect hpe
  have hr := mayReturn_of_kernelWaits h he
  simp only [Poller.mayReturn, Bool.and_eq_true, decide_eq_true_eq] at hr
  obtain ⟨q, size, hq, hf, -⟩ := h.ePoll.mirror.keyed.poll hr.1.1 hr.1.2
  rw [step, hp, hq] at ht
  cases ht
  cases hpe with
  | poll hp => exact ⟨p, q, size, rfl, EPollPoller.poll_eventsSize hq, hpt, hp, hf⟩

theorem effect_eventsSize {t t' : EPollPoller.State κ} {a : Call κ}
    (h : EPollPoller.Effect t (EPollPoller.channelAction t a) t') :
    t'.eventsSize = t.eventsSize := by
  cases a with
  | update c op => cases h <;> rfl
  | remove c => cases h <;> rfl

/-- An update adds the channel, unless it was added and now asks for nothing. -/
theorem index_update {t t' : EPollPoller.State κ} {op : Channel.Op}
    (h : EPollPoller.Effect t (EPollPoller.channelAction t (.update c op)) t') (d : κ) :
    (t'.channel d).index =
      if d = c then
        if (t.channel c).index = EPollPoller.kAdded ∧ op.events (t.channel c).events = 0 then
          EPollPoller.kDeleted
        else EPollPoller.kAdded
      else (t.channel d).index := by
  split
  · next hdc =>
    subst hdc
    cases h with
    | add hi =>
      rw [EPollPoller.put_self, hi, if_neg fun hd => absurd hd.1 (by decide)]
    | readd hi =>
      rw [EPollPoller.put_self, hi, if_neg fun hd => absurd hd.1 (by decide)]
    | modify _ hne => rw [EPollPoller.put_self, if_neg fun hd => hne hd.2]
    | disable hi h0 => rw [EPollPoller.put_self, if_pos ⟨hi, h0⟩]
  · next hdc =>
    cases h <;> rw [EPollPoller.put_ne _ _ _ _ _ hdc]

theorem index_remove {t t' : EPollPoller.State κ}
    (h : EPollPoller.Effect t (EPollPoller.channelAction t (.remove c)) t') (d : κ) :
    (t'.channel d).index = if d = c then EPollPoller.kNew else (t.channel d).index := by
  split
  · next hdc =>
    subst hdc
    cases h <;> rw [EPollPoller.put_self]
  · next hdc =>
    cases h <;> rw [EPollPoller.put_ne _ _ _ _ _ hdc]

/-- `PollPoller` watches a new channel, and of the others those that it watched and that still
ask for something. -/
theorem watches_update {t t' : PollPoller.State κ} {op : Channel.Op} (ht : PollPoller.Table F t)
    (h : PollPoller.Effect t (PollPoller.channelAction t (.update c op)) t') (d : κ) :
    t'.Watches d ↔
      if d = c then ¬ t.Registered c ∨ (op.events (t.channel c).events ≠ 0 ∧ t.Watches c)
      else t.Watches d := by
  cases h with
  | add _ hnot hnone =>
    rw [ht.watches_added _ hnone]
    split
    · next hdc => exact iff_of_true (.inl hdc) (.inl hnot)
    · next hdc => exact or_iff_right hdc
  | modify hreg hs =>
    rw [ht.watches_modified _ hreg hs]
    split
    · exact (or_iff_right (not_not_intro hreg)).symm
    · exact Iff.rfl

theorem watches_remove {t t' : PollPoller.State κ} (ht : PollPoller.Table F t)
    (h : PollPoller.Effect t (PollPoller.channelAction t (.remove c)) t') (d : κ) :
    t'.Watches d ↔ d ≠ c ∧ t.Watches d := by
  cases h with
  | remove hreg hs _ hlast hsl => exact ht.watches_removed hreg hs hlast hsl

theorem Both.deleted_update (h : Both F s) {op : Channel.Op} {q : EPollPoller.State κ}
    (hq : EPollPoller.Effect s.ePoll (EPollPoller.channelAction s.ePoll (.update c op)) q) (d : κ)
    (hd : (q.channel d).index = EPollPoller.kDeleted) :
    (Channel.track s.use (.update c op) d).events = 0 ∧
      2 ≤ (Channel.track s.use (.update c op) d).updates := by
  rw [index_update hq] at hd
  rw [Channel.track, Function.update_apply]
  split at hd
  · next hdc =>
    rw [if_pos hdc]
    split at hd
    · next hi =>
      have hpos := (h.ePoll.registered c).1 (by rw [hi.1]; decide)
      rw [← h.ePoll.events]
      exact ⟨hi.2, Nat.succ_le_succ hpos⟩
    · exact absurd hd (by decide)
  · next hdc =>
    rw [if_neg hdc]
    exact h.deleted d hd

theorem Both.deleted_remove (h : Both F s) {q : EPollPoller.State κ}
    (hq : EPollPoller.Effect s.ePoll (EPollPoller.channelAction s.ePoll (.remove c)) q) (d : κ)
    (hd : (q.channel d).index = EPollPoller.kDeleted) :
    (Channel.track s.use (.remove c) d).events = 0 ∧
      2 ≤ (Channel.track s.use (.remove c) d).updates := by
  rw [index_remove hq] at hd
  rw [Channel.track, Function.update_apply]
  split at hd
  · exact absurd hd (by decide)
  · next hdc =>
    rw [if_neg hdc]
    exact h.deleted d hd

theorem Both.step (h : Both F s) {a : Action κ} {t : State κ} (he : enabled s a = true)
    (ht : Pollers.step s a = .ok t) : Both F t := by
  cases a with
  | call a =>
    obtain ⟨hk, p, q, rfl, hpe, hqe⟩ := h.call_cases he ht
    refine ⟨h.poll.effect hk hpe, h.ePoll.effect hqe, fun d hd => ?_, ?_⟩
    · cases a with
      | update c op => exact h.deleted_update hqe d hd
      | remove c => exact h.deleted_remove hqe d hd
    · show 0 < q.eventsSize
      rw [effect_eventsSize hqe]
      exact h.size
  | poll ready events =>
    obtain ⟨p, q, size, rfl, hsize, hpt, hp, hf⟩ := h.poll_cases he ht
    refine ⟨h.poll.polled hpt hp, h.ePoll.filled size hf, fun d hd => ?_, ?_⟩
    · refine h.deleted d ?_
      change (q.channel d).index = _ at hd
      rw [hf.channel d] at hd
      exact hd
    · exact lt_of_lt_of_le h.size hsize

omit [DecidableEq κ] in
/-- `PollPoller` has hidden a channel that asks for nothing after two updates. -/
theorem Both.hidden (h : Both F s) (hw : s.poll.Watches c) :
    ¬ (2 ≤ (s.use c).updates ∧ (s.use c).events = 0) := by
  rintro ⟨h2, h0⟩
  have ht := h.poll.served.table
  obtain ⟨i, pfd, hreg, hs, hfd⟩ := ht.watches_iff.1 hw
  have hhidden := ((h.poll.slot c i pfd hreg hs).2 h0).2 h2
  have hpos := ht.fd_nonneg c
  omega

/-- An update of a channel that is watched, or not registered, keeps the two alike. -/
theorem Both.sameWatched_update (h : Both F s) (hw : SameWatched s) {op : Channel.Op}
    {p : PollPoller.State κ} {q : EPollPoller.State κ}
    (hp : PollPoller.Effect s.poll (PollPoller.channelAction s.poll (.update c op)) p)
    (hq : EPollPoller.Effect s.ePoll (EPollPoller.channelAction s.ePoll (.update c op)) q) :
    SameWatched ⟨Channel.track s.use (.update c op), p, q⟩ ↔
      ¬ (2 ≤ (s.use c).updates ∧ (s.use c).events = 0) := by
  have hwatch := watches_update h.poll.served.table hp
  have hindex := index_update hq
  have hcase : SameWatched ⟨Channel.track s.use (.update c op), p, q⟩ ↔
      (p.Watches c ↔ (q.channel c).index = EPollPoller.kAdded) := by
    refine ⟨fun hs => hs c, fun hs d => ?_⟩
    by_cases hdc : d = c
    · rw [hdc]
      exact hs
    · show p.Watches d ↔ (q.channel d).index = _
      rw [hwatch, hindex, if_neg hdc, if_neg hdc]
      exact hw d
  rw [hcase, hwatch, hindex, if_pos rfl, if_pos rfl, h.poll.events, h.ePoll.events,
    h.poll.registered]
  by_cases hadded : (s.ePoll.channel c).index = EPollPoller.kAdded
  · -- watched by both
    have hwc := (hw c).2 hadded
    have hpos := (h.ePoll.registered c).1 (by rw [hadded]; decide)
    refine iff_of_true ?_ (h.hidden hwc)
    by_cases h0 : op.events (s.use c).events = 0
    · rw [if_pos ⟨hadded, h0⟩]
      refine iff_of_false ?_ (by decide)
      rintro (hn | hn)
      · exact hn hpos
      · exact hn.1 h0
    · rw [if_neg fun hn => h0 hn.2]
      exact iff_of_true (.inr ⟨h0, hwc⟩) rfl
  · rw [if_neg fun hn => hadded hn.1]
    by_cases hnew : (s.ePoll.channel c).index = EPollPoller.kNew
    · have hzero : ¬ 0 < (s.use c).updates := fun hpos => (h.ePoll.registered c).2 hpos hnew
      refine iff_of_true (iff_of_true (.inl hzero) rfl) fun hn => hzero ?_
      exact lt_of_lt_of_le Nat.zero_lt_two hn.1
    · -- deleted: it comes back in one of them only
      have hdel := ((h.ePoll.mirror.index c).resolve_left hnew).resolve_left hadded
      have hpos := (h.ePoll.registered c).1 hnew
      obtain ⟨h0, h2⟩ := h.deleted c hdel
      refine iff_of_false (fun hn => ?_) (not_not_intro ⟨h2, h0⟩)
      rcases hn.2 rfl with hn | hn
      · exact hn hpos
      · exact hadded ((hw c).1 hn.2)

theorem Both.sameWatched_step (h : Both F s) (hw : SameWatched s) {a : Action κ} {t : State κ}
    (he : enabled s a = true) (ht : Pollers.step s a = .ok t) :
    SameWatched t ↔ Alike s a t := by
  cases a with
  | call a =>
    obtain ⟨-, p, q, rfl, hpe, hqe⟩ := h.call_cases he ht
    cases a with
    | update c op => exact h.sameWatched_update hw hpe hqe
    | remove c =>
      refine iff_of_true (fun d => ?_) trivial
      show p.Watches d ↔ (q.channel d).index = _
      rw [watches_remove h.poll.served.table hpe, index_remove hqe]
      by_cases hdc : d = c
      · rw [if_pos hdc]
        exact iff_of_false (fun hn => hn.1 hdc) (by decide)
      · rw [if_neg hdc, and_iff_right hdc]
        exact hw d
  | poll ready events =>
    obtain ⟨p, q, size, rfl, -, hpt, hp, hf⟩ := h.poll_cases he ht
    refine iff_of_true (fun d => ?_) trivial
    show p.Watches d ↔ (q.channel d).index = _
    have hfd : (p.channel d).fd = (s.poll.channel d).fd := by
      rw [hp.channel d]
    have hwatch : p.Watches d ↔ s.poll.Watches d := by
      rw [PollPoller.State.Watches, hp.pollfds, written_kernelPoll, hfd]
      constructor
      · rintro ⟨pfd, hm, he⟩
        obtain ⟨old, hold, rfl⟩ := List.mem_map.1 hm
        exact ⟨old, hold, he⟩
      · rintro ⟨pfd, hm, he⟩
        exact ⟨_, List.mem_map_of_mem hm, he⟩
    rw [hf.channel d, hwatch]
    exact hw d

/-- **When a program may run over either poller**: whatever holds of the descriptors at any
point of the run, both report the same channels with the same `revents_` (`epoll_wait` as many of
them as fit), exactly if no channel is updated that asks for nothing after two updates. -/
theorem pollers_report_alike_iff (F : Fds κ) (as : List (Action κ)) (s : State κ)
    (hr : (machine κ).run (init F) as = some s) :
    (machine κ).StatesMeet SameReports (init F) as ↔
      (machine κ).StepsMeet Alike (init F) as := by
  have hinit : Both F (init F) := by
    refine ⟨.init F, .init F, fun c hd => ?_, show 0 < 16 by decide⟩
    change EPollPoller.kNew = EPollPoller.kDeleted at hd
    exact absurd hd (by decide)
  refine Machine.statesMeet_iff_stepsMeet (I := Both F) ?_ ?_ hinit ?_ hr
  · intro s a t h _ _ he ht
    exact h.step he ht
  · intro s a t h hs he ht
    rw [(h.step he ht).sameReports_iff]
    exact h.sameWatched_step (h.sameReports_iff.1 hs) he ht
  · rw [hinit.sameReports_iff]
    intro c
    refine iff_of_false ?_ (show EPollPoller.kNew ≠ EPollPoller.kAdded by decide)
    rintro ⟨pfd, hm, -⟩
    cases hm

/-- Two channels are enabled, the kernel reports one of them to both, and both are removed. -/
def alikeRun : List (Action Nat) :=
  [.call (.update 5 .enableReading), .call (.update 6 .enableWriting),
    .poll (fun fd => if fd = 6 then 0x14#16 else 0) [(0x14, 6)],
    .call (.update 5 .disableAll), .call (.update 6 .disableAll), .call (.remove 5),
    .call (.remove 6)]

theorem alikeRun_alike :
    ∃ s, (machine Nat).run (init .plain) alikeRun = some s ∧
      (machine Nat).StatesMeet SameReports (init .plain) alikeRun :=
  ⟨_, rfl, (pollers_report_alike_iff .plain alikeRun _ rfl).2 (by decide)⟩

end Pollers

end Rawmd
