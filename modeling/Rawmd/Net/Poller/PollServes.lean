import Rawmd.Net.Poller.PollKeyed

/-!
# What `PollPoller` accepts while channels come and go

`Serves` adds to `Keyed` that the slot of every registered channel is found through its index, asks
for what the channel asks for, and is hidden where that is nothing.  Channels that first ask for
something, and are removed when they ask for nothing, never meet a failed assert.

    a new channel, a registered one, a removal are accepted
                                     (Serves.updateChannel_new, .updateChannel, .removeChannel)
-/

namespace Rawmd

/-- What the kernel reports although it was not asked for. -/
def Poller.unasked : BitVec 32 := POLLERR ||| POLLHUP ||| POLLNVAL

namespace PollPoller

open Poller (unasked)

variable {κ : Type} {s s' : State κ} {c d last : κ} {i j : Nat} {pfd qfd : PollFd}
  {events : BitVec 32}

/-- The slot of channel `c`, in which the kernel finds what the channel asks for. -/
structure State.Served (s : State κ) (c : κ) (i : Nat) (pfd : PollFd) : Prop where
  slot : s.Slot c i pfd
  events : pfd.events = (s.channel c).events.setWidth 16
  small : (s.channel c).events.toNat < 2 ^ 3
  hidden : (s.channel c).events = 0 → pfd.fd = -(s.channel c).fd - 1

structure Serves (s : State κ) : Prop where
  keyed : Keyed s
  served : ∀ c, s.Registered c → ∃ i pfd, s.Served c i pfd

/-! ## Slots -/

theorem Keyed.registered (h : Keyed s) {fd : Int} (hc : s.channels[fd]? = some c) :
    s.Registered c := by
  rw [State.Registered, (h.key fd c hc).2]
  exact hc

theorem Keyed.fd_nonneg (h : Keyed s) (hc : s.Registered c) : 0 ≤ (s.channel c).fd :=
  (h.key _ c hc).1

theorem State.Slot.slotFds (hs : s.Slot c i pfd) : s.slotFds[i]? = some (s.channel c).fd := by
  rw [State.slotFds, List.getElem?_map, hs.at_index, Option.map_some, hs.fd]

/-- Two registered channels do not share a slot. -/
theorem slot_inj (hc : s.Registered c) (hd : s.Registered d) (hs : s.Slot c i pfd)
    (hs' : s.Slot d i qfd) : c = d := by
  have hfd : (s.channel c).fd = (s.channel d).fd :=
    Option.some.inj (hs.slotFds.symm.trans hs'.slotFds)
  have hc' : s.channels[(s.channel c).fd]? = some c := hc
  have hd' : s.channels[(s.channel d).fd]? = some d := hd
  rw [hfd, hd'] at hc'
  exact (Option.some.inj hc').symm

/-- The last slot is that of a registered channel. -/
theorem Serves.lastSlot (h : Serves s) (hlen : 0 < s.pollfds.length) :
    ∃ last qfd, s.Registered last ∧ s.Slot last (s.pollfds.length - 1) qfd := by
  have hback := List.getElem?_eq_getElem (l := s.pollfds) (i := s.pollfds.length - 1) (by omega)
  generalize s.pollfds[s.pollfds.length - 1] = back at hback
  have hat : s.slotFds[s.pollfds.length - 1]? = some (slotFd back.fd) := by
    rw [State.slotFds, List.getElem?_map, hback, Option.map_some]
  obtain ⟨last, hlast⟩ := h.keyed.found _ (List.mem_of_getElem? hat)
  have hreg := h.keyed.registered hlast
  obtain ⟨j, qfd, hs⟩ := h.served last hreg
  refine ⟨last, qfd, hreg, ?_⟩
  -- no other slot stands for its descriptor
  have hj : j = s.pollfds.length - 1 := by
    have hlt := (List.getElem?_eq_some_iff.1 hat).1
    refine ((List.getElem?_inj hlt h.keyed.distinct).1 ?_).symm
    rw [hat, hs.slot.slotFds, (h.keyed.key _ last hlast).2]
  rw [← hj]
  exact hs.slot

theorem getElem?_pollfds_lt (hs : s.Slot c i pfd) : i < s.pollfds.length :=
  (List.getElem?_eq_some_iff.1 hs.at_index).1

/-! ## What is left alone -/

/-- Changes of what is not looked at, in the slots and in the channels. -/
theorem Serves.congr (h : Serves s) (hkeyed : Keyed s')
    (hch : ∀ (fd : Int) (d : κ), s.channels[fd]? = some d →
      (s'.channel d).fd = (s.channel d).fd ∧ (s'.channel d).index = (s.channel d).index ∧
        (s'.channel d).events = (s.channel d).events)
    (hchs : s'.channels = s.channels)
    (hslots : ∀ (i : Nat) (pfd : PollFd), s.pollfds[i]? = some pfd →
      ∃ r, s'.pollfds[i]? = some { pfd with revents := r }) : Serves s' := by
  refine ⟨hkeyed, fun d hd => ?_⟩
  have hd' : s.channels[(s'.channel d).fd]? = some d := by
    rw [← hchs]
    exact hd
  obtain ⟨hfd, hidx, hev⟩ := hch _ d hd'
  rw [hfd] at hd'
  obtain ⟨i, pfd, hs⟩ := h.served d hd'
  obtain ⟨r, hr⟩ := hslots i pfd hs.slot.at_index
  refine ⟨i, _, ⟨?_, hr, ?_⟩, ?_, ?_, ?_⟩
  · rw [hidx]
    exact hs.slot.index
  · rw [hfd]
    exact hs.slot.fd
  · rw [hev]
    exact hs.events
  · rw [hev]
    exact hs.small
  · rw [hev, hfd]
    exact hs.hidden

/-! ## `poll` -/

/-- Each slot gets what it asks for, and what is reported unasked. -/
def State.within (s : State κ) (revents : List (BitVec 16)) : Bool :=
  (s.pollfds.zip revents).all fun (pfd, r) =>
    decide (r &&& ~~~(pfd.events ||| unasked.setWidth 16) = 0)

/-- The conversions to `short` and back lose nothing. -/
theorem signExtend_within {r : BitVec 16} (hsmall : events.toNat < 2 ^ 3)
    (h : r &&& ~~~(events.setWidth 16 ||| unasked.setWidth 16) = 0) :
    r.signExtend 32 &&& ~~~(events ||| unasked) = 0 := by
  obtain ⟨n, hn⟩ : ∃ n, events.toNat = n := ⟨_, rfl⟩
  rw [hn] at hsmall
  obtain rfl : events = BitVec.ofNat 32 n := BitVec.eq_of_toNat_eq (by simp; omega)
  -- the bits of `r` are bits of a mask that is a short
  have hr : r = r &&& ((BitVec.ofNat 32 n).setWidth 16 ||| unasked.setWidth 16) := by
    ext i hi
    have hbit := congrArg (fun x => x[i]) h
    simp only [BitVec.getElem_and, BitVec.getElem_not] at hbit ⊢
    cases hm : ((BitVec.ofNat 32 n).setWidth 16 ||| unasked.setWidth 16)[i]
    · rw [hm] at hbit
      simpa using hbit
    · rw [Bool.and_true]
  have hmsb : r.msb = false := by
    rw [hr, BitVec.msb_and]
    interval_cases n <;> exact Bool.and_false _
  rw [BitVec.signExtend_eq_setWidth_of_msb_false hmsb, hr, BitVec.setWidth_and, BitVec.and_assoc]
  have hmask : ((BitVec.ofNat 32 n).setWidth 16 ||| unasked.setWidth 16).setWidth 32 &&&
      ~~~(BitVec.ofNat 32 n ||| unasked) = 0 := by
    interval_cases n <;> rfl
  rw [hmask]
  exact BitVec.and_zero

/-- A channel that is reported asks for something, and what is reported was asked for. -/
theorem Serves.reported (h : Serves s) {revents : List (BitVec 16)} (hw : s.within revents = true)
    (hm : pfd ∈ s.written revents) (hr : pfd.revents ≠ 0) (hc : s.channels[pfd.fd]? = some c) :
    (s.channel c).events ≠ 0 ∧
      pfd.revents.signExtend 32 &&& ~~~((s.channel c).events ||| unasked) = 0 := by
  obtain ⟨hpos, hfd⟩ := h.keyed.key _ c hc
  obtain ⟨i, pfd', hs⟩ := h.served c (h.keyed.registered hc)
  obtain ⟨j, hj⟩ := List.mem_iff_getElem?.1 hm
  obtain ⟨qfd, r, hq, hr', rfl⟩ := getElem?_written.1 hj
  -- the slot that is written is the channel's
  have hat : s.slotFds[j]? = some (s.channel c).fd := by
    rw [State.slotFds, List.getElem?_map, hq, Option.map_some, hfd]
    exact congrArg some ((slotFd_eq_iff hpos).2 (.inl rfl))
  have hij : i = j := by
    have hlt := (List.getElem?_eq_some_iff.1 hat).1
    refine ((List.getElem?_inj hlt h.keyed.distinct).1 ?_).symm
    rw [hat, hs.slot.slotFds]
  subst hij
  obtain rfl : pfd' = qfd := Option.some.inj (hs.slot.at_index.symm.trans hq)
  constructor
  · intro h0
    have hhid := hs.hidden h0
    rw [hfd] at hhid
    change 0 ≤ pfd'.fd at hpos
    change pfd'.fd = -pfd'.fd - 1 at hhid
    omega
  · have hz : (s.pollfds.zip revents)[i]? = some (pfd', r) := by
      rw [List.getElem?_zip_eq_some]
      exact ⟨hq, hr'⟩
    have hmask := of_decide_eq_true (List.all_eq_true.1 hw _ (List.mem_of_getElem? hz))
    dsimp only at hmask
    rw [hs.events] at hmask
    exact signExtend_within hs.small hmask

theorem Serves.polled (h : Serves s) {revents : List (BitVec 16)}
    (hk : s.kernelWrites revents = true) (hp : Polled s revents s') : Serves s' := by
  obtain ⟨hlen, -⟩ := kernelWrites_slot hk
  refine h.congr (h.keyed.polled hk hp) (fun fd d _ => ?_) hp.channels (fun i pfd hi => ?_)
  · rw [hp.channel d]
    exact ⟨rfl, rfl, rfl⟩
  · have hlt := (List.getElem?_eq_some_iff.1 hi).1
    rw [← hlen] at hlt
    refine ⟨revents[i], ?_⟩
    rw [hp.pollfds]
    exact getElem?_written.2 ⟨pfd, _, hi, List.getElem?_eq_getElem hlt, rfl⟩

variable [DecidableEq κ]

/-! ## Calls -/

theorem setEvents_channel (s : State κ) (c : κ) (events : BitVec 32) :
    (s.setEvents c events).channel c = { s.channel c with events := events } :=
  Function.update_self _ _ _

theorem updateChannel_added (hi : (s.channel c).index < 0)
    (hnone : s.channels[(s.channel c).fd]? = none) :
    (s.setEvents c events).updateChannel c = .ok (s.added c events) := by
  have ha : (s.setEvents c events).updateAsserts c = true := by
    rw [State.updateAsserts, setEvents_channel]
    simp only [hi, if_true, decide_eq_true_eq]
    exact hnone
  simp only [State.updateChannel, ha, setEvents_channel, hi, if_true]
  simp [State.added, State.setEvents, State.setChannel]

theorem updateChannel_modified (hreg : s.Registered c) (hfd : 0 ≤ (s.channel c).fd)
    (hs : s.Slot c i pfd) :
    (s.setEvents c events).updateChannel c = .ok (s.modified c events i pfd) := by
  have hneg : ¬ (s.channel c).index < 0 := by
    rw [hs.index]
    omega
  have hp : (s.setEvents c events).pollfds[i]? = some pfd := hs.at_index
  have ha : (s.setEvents c events).updateAsserts c = true := by
    rw [State.updateAsserts, setEvents_channel]
    simp only [hneg, if_false, State.slotAsserts, Bool.and_eq_true, decide_eq_true_eq,
      setEvents_channel]
    refine ⟨⟨hreg, by omega⟩, ?_⟩
    rw [hs.index, Int.toNat_natCast, hp]
    exact decide_eq_true ((slotFd_eq_iff hfd).1 hs.fd)
  simp only [State.updateChannel, ha, setEvents_channel, hs.index, Int.toNat_natCast, hp]
  simp [State.modified, Channel.isNoneEvent, Channel.kNoneEvent, State.setEvents,
    State.setChannel]

theorem removeChannel_removed (hreg : s.Registered c)
    (hs : s.Served c i pfd) (h0 : (s.channel c).events = 0) (hlast : s.Registered last)
    (hsl : s.Slot last (s.pollfds.length - 1) qfd) :
    s.removeChannel c = .ok (s.removed c i last) := by
  have ha : s.removeAsserts c = true := by
    simp only [State.removeAsserts, State.slotAsserts, Bool.and_eq_true, decide_eq_true_eq,
      Channel.isNoneEvent_iff]
    refine ⟨h0, ⟨hreg, by rw [hs.slot.index]; omega⟩, ?_⟩
    rw [hs.slot.index, Int.toNat_natCast, hs.slot.at_index]
    refine decide_eq_true ⟨hs.hidden h0, ?_⟩
    rw [hs.events, Channel.signExtend_setWidth hs.small]
  have hn : s.channels.contains (s.channel c).fd = true := contains_of_some hreg
  have hlt := getElem?_pollfds_lt hs.slot
  simp only [State.removeChannel, ha, hs.slot.index, hn, Int.toNat_natCast]
  by_cases hi : i = s.pollfds.length - 1
  · obtain rfl : c = last := slot_inj hreg hlast (hi ▸ hs.slot) hsl
    rw [if_neg (by simp), if_neg (by simp), if_pos hi, State.removed,
      Table.setChannel_index_self hs.slot.index, hi, ← List.dropLast_eq_swapRemove]
  · have hne : (s.channel last).fd ≠ (s.channel c).fd := by
      intro hfd
      have hlast' : s.channels[(s.channel last).fd]? = some last := hlast
      have hreg' : s.channels[(s.channel c).fd]? = some c := hreg
      rw [hfd, hreg'] at hlast'
      cases hlast'
      have := hs.slot.index.symm.trans hsl.index
      omega
    have hend : (s.channels.erase (s.channel c).fd)[(s.channel last).fd]? = some last := by
      rw [getElem?_erase_key, if_neg hne]
      exact hlast
    have hslot := hsl.fd
    rw [slotFd] at hslot
    rw [if_neg (by simp), if_neg (by simp), if_neg hi, hs.slot.at_index, hsl.at_index]
    simp only [hslot, hend]
    rw [State.removed, List.swap_dropLast_eq_swapRemove _ hsl.at_index]
    rfl

/-! ## What they keep -/

theorem Serves.added (h : Serves s) (hi : (s.channel c).index < 0)
    (hnone : s.channels[(s.channel c).fd]? = none) (hfd : 0 ≤ (s.channel c).fd)
    (h0 : events ≠ 0) (hsmall : events.toNat < 2 ^ 3) : Serves (s.added c events) := by
  have hkeyed : Keyed (s.added c events) := by
    refine (h.keyed.setEvents c events).updateChannel ?_ (updateChannel_added hi hnone)
    rw [Table.setEvents_fd]
    exact hfd
  refine ⟨hkeyed, fun d hd => ?_⟩
  by_cases hdc : d = c
  · subst hdc
    refine ⟨s.pollfds.length, ⟨(s.channel d).fd, events.setWidth 16, 0⟩, ⟨?_, ?_, ?_⟩, ?_, ?_, ?_⟩
    · rw [Table.added_self]
    · simp [State.added]
    · rw [Table.added_fd, slotFd, if_neg (not_lt.2 hfd)]
    · rw [Table.added_self]
    · rw [Table.added_self]
      exact hsmall
    · rw [Table.added_self]
      exact fun he => absurd he h0
  · have hreg : s.Registered d := by
      have hd' : (s.channels.insert (s.channel c).fd c)[((s.added c events).channel d).fd]? =
        some d := hd
      rw [Table.added_ne s events hdc, getElem?_insert_key] at hd'
      split at hd'
      · exact absurd (Option.some.inj hd').symm hdc
      · exact hd'
    obtain ⟨j, q, hs⟩ := h.served d hreg
    refine ⟨j, q, Table.slot_added_ne events hs.slot hdc, ?_, ?_, ?_⟩
    · rw [Table.added_ne s events hdc]
      exact hs.events
    · rw [Table.added_ne s events hdc]
      exact hs.small
    · rw [Table.added_ne s events hdc]
      exact hs.hidden

theorem Serves.modified (h : Serves s) (hreg : s.Registered c) (hs : s.Slot c i pfd)
    (hsmall : events.toNat < 2 ^ 3) : Serves (s.modified c events i pfd) := by
  have hfd := h.keyed.fd_nonneg hreg
  have hkeyed : Keyed (s.modified c events i pfd) := by
    refine (h.keyed.setEvents c events).updateChannel ?_ (updateChannel_modified hreg hfd hs)
    rw [Table.setEvents_fd]
    exact hfd
  refine ⟨hkeyed, fun d hd => ?_⟩
  by_cases hdc : d = c
  · subst hdc
    have hself := Table.modified_self s d events i pfd
    refine ⟨i, ⟨if events = 0 then -(s.channel d).fd - 1 else pfd.fd, events.setWidth 16, 0⟩,
      ⟨?_, ?_, ?_⟩, ?_, ?_, ?_⟩
    · rw [hself]
      exact hs.index
    · exact List.getElem?_set_self (getElem?_pollfds_lt hs)
    · rw [hself, slotFd_eq_iff hfd]
      dsimp only
      split
      · exact .inr rfl
      · exact (slotFd_eq_iff hfd).1 hs.fd
    · rw [hself]
    · rw [hself]
      exact hsmall
    · rw [hself]
      exact fun h0 => if_pos h0
  · have hreg' := (Table.registered_modified s c d events i pfd).1 hd
    obtain ⟨j, q, hsd⟩ := h.served d hreg'
    have hne := Table.modified_ne s events i pfd hdc
    have hij : i ≠ j := by
      rintro rfl
      exact hdc (slot_inj hreg' hreg hsd.slot hs)
    refine ⟨j, q, ⟨?_, ?_, ?_⟩, ?_, ?_, ?_⟩
    · rw [hne]
      exact hsd.slot.index
    · show (s.pollfds.set i _)[j]? = some q
      rw [List.getElem?_set_ne hij]
      exact hsd.slot.at_index
    · rw [hne]
      exact hsd.slot.fd
    · rw [hne]
      exact hsd.events
    · rw [hne]
      exact hsd.small
    · rw [hne]
      exact hsd.hidden

/-- The other channels keep their slots, but the one in the last slot moves to slot `i`. -/
theorem slot_removed (hreg : s.Registered c) (hs : s.Slot c i pfd) (hlast : s.Registered last)
    (hsl : s.Slot last (s.pollfds.length - 1) qfd) (hd : s.Registered d) {rfd : PollFd}
    (hsd : s.Slot d j rfd) (hdc : d ≠ c) :
    (s.removed c i last).Slot d (if d = last then i else j) rfd := by
  have hi := getElem?_pollfds_lt hs
  have hj := getElem?_pollfds_lt hsd
  have hji : j ≠ i := by
    rintro rfl
    exact hdc (slot_inj hd hreg hsd hs)
  by_cases hdl : d = last
  · subst hdl
    have hjl := hsd.index.symm.trans hsl.index
    refine ⟨by rw [Table.removed_self, if_pos rfl], ?_, ?_⟩
    · rw [if_pos rfl, Table.getElem?_removed, if_pos (by omega), if_pos rfl,
        show s.pollfds.length - 1 = j by omega]
      exact hsd.at_index
    · rw [Table.removed_fd]
      exact hsd.fd
  · have hjl : j ≠ s.pollfds.length - 1 := by
      rintro rfl
      exact hdl (slot_inj hd hlast hsd hsl)
    refine ⟨by rw [Table.removed_ne s i hdl, if_neg hdl]; exact hsd.index, ?_, ?_⟩
    · rw [if_neg hdl, Table.getElem?_removed, if_pos (by omega), if_neg hji]
      exact hsd.at_index
    · rw [Table.removed_fd]
      exact hsd.fd

theorem removed_events (s : State κ) (c last d : κ) (i : Nat) :
    ((s.removed c i last).channel d).events = (s.channel d).events := by
  by_cases hdl : d = last
  · rw [hdl, Table.removed_self]
  · rw [Table.removed_ne s i hdl]

theorem Serves.removed (h : Serves s) (hreg : s.Registered c) (hs : s.Served c i pfd)
    (h0 : (s.channel c).events = 0) (hlast : s.Registered last)
    (hsl : s.Slot last (s.pollfds.length - 1) qfd) : Serves (s.removed c i last) := by
  refine ⟨h.keyed.removeChannel (removeChannel_removed hreg hs h0 hlast hsl), fun d hd => ?_⟩
  have hd' : (s.channels.erase (s.channel c).fd)[((s.removed c i last).channel d).fd]? =
    some d := hd
  rw [Table.removed_fd, getElem?_erase_key] at hd'
  split at hd'
  · cases hd'
  · next hne =>
    have hdc : d ≠ c := by
      rintro rfl
      exact hne rfl
    obtain ⟨j, q, hsd⟩ := h.served d hd'
    refine ⟨_, q, slot_removed hreg hs.slot hlast hsl hd' hsd.slot hdc, ?_, ?_, ?_⟩
    · rw [removed_events]
      exact hsd.events
    · rw [removed_events]
      exact hsd.small
    · rw [removed_events, Table.removed_fd]
      exact hsd.hidden

/-! ## What the calls do -/

theorem Serves.updateChannel_new (h : Serves s) (hi : (s.channel c).index < 0)
    (hnone : s.channels[(s.channel c).fd]? = none) (hfd : 0 ≤ (s.channel c).fd)
    (h0 : events ≠ 0) (hsmall : events.toNat < 2 ^ 3) :
    ∃ s', (s.setEvents c events).updateChannel c = .ok s' ∧ Serves s' ∧
      ∀ d, (s'.channel d).events = if d = c then events else (s.channel d).events := by
  refine ⟨_, updateChannel_added hi hnone, h.added hi hnone hfd h0 hsmall, fun d => ?_⟩
  by_cases hdc : d = c
  · rw [if_pos hdc, hdc, Table.added_self]
  · rw [if_neg hdc, Table.added_ne s events hdc]

theorem Serves.updateChannel (h : Serves s) (hreg : s.Registered c)
    (hsmall : events.toNat < 2 ^ 3) :
    ∃ s', (s.setEvents c events).updateChannel c = .ok s' ∧ Serves s' ∧
      ∀ d, (s'.channel d).events = if d = c then events else (s.channel d).events := by
  obtain ⟨i, pfd, hs⟩ := h.served c hreg
  refine ⟨_, updateChannel_modified hreg (h.keyed.fd_nonneg hreg) hs.slot,
    h.modified hreg hs.slot hsmall, fun d => ?_⟩
  by_cases hdc : d = c
  · rw [if_pos hdc, hdc, Table.modified_self]
  · rw [if_neg hdc, Table.modified_ne s events i pfd hdc]

theorem Serves.removeChannel (h : Serves s) (hreg : s.Registered c)
    (h0 : (s.channel c).events = 0) :
    ∃ s', s.removeChannel c = .ok s' ∧ Serves s' ∧
      ∀ d, (s'.channel d).events = (s.channel d).events := by
  obtain ⟨i, pfd, hs⟩ := h.served c hreg
  obtain ⟨last, qfd, hlast, hsl⟩ := h.lastSlot (Nat.zero_lt_of_lt (getElem?_pollfds_lt hs.slot))
  exact ⟨_, removeChannel_removed hreg hs h0 hlast hsl, h.removed hreg hs h0 hlast hsl,
    fun d => removed_events s c last d i⟩

end PollPoller

end Rawmd
