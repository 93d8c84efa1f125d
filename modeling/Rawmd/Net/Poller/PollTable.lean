import Rawmd.Lib.SwapRemove
import Rawmd.Net.Poller.PollPoller
import Mathlib.Data.List.Nodup

/-!
# The two tables of `PollPoller` agree

A slot of `pollfds_` belongs to the channel whose descriptor it holds, plain or as `-fd - 1`
(`slotFd`).  `Table` says that the registered channels and the slots are in bijection through
`index_`.  `Effect` is what each action does in such a state; `removeChannel` is `swapRemove`
on the slots, with the index of the channel in the last slot set to the free one.

    slots of the other channels after an update or a removal
                                (slot_added_ne, slot_modified_ne, slot_removed)
    Table (s.added c events), Table (s.modified c events i pfd), Table (s.removed c i last)
-/

namespace Rawmd.PollPoller

variable {κ : Type}

/-! ## Tables -/

/-- The descriptor that a slot stands for. -/
def slotFd (fd : Int) : Int := if fd < 0 then -fd - 1 else fd

theorem slotFd_eq_iff {fd x : Int} (h : 0 ≤ fd) : slotFd x = fd ↔ x = fd ∨ x = -fd - 1 := by
  unfold slotFd
  split <;> omega

/-- `channels_[channel->fd()] == channel` -/
def State.Registered (s : State κ) (c : κ) : Prop := s.channels[(s.channel c).fd]? = some c

instance [DecidableEq κ] (s : State κ) (c : κ) : Decidable (s.Registered c) :=
  inferInstanceAs (Decidable (_ = _))

/-- Channel `c` has slot `i`, with `pfd` in it. -/
structure State.Slot (s : State κ) (c : κ) (i : Nat) (pfd : PollFd) : Prop where
  index : (s.channel c).index = i
  at_index : s.pollfds[i]? = some pfd
  fd : slotFd pfd.fd = (s.channel c).fd

structure Table (F : Fds κ) (s : State κ) : Prop where
  fd : ∀ c, (s.channel c).fd = F.fd c
  key : ∀ fd c, s.channels[fd]? = some c → fd = F.fd c
  slot : ∀ c, s.Registered c → ∃ i pfd, s.Slot c i pfd
  owner : ∀ i pfd, s.pollfds[i]? = some pfd → ∃ c, s.Registered c ∧ s.Slot c i pfd
  size : s.channels.size = s.pollfds.length

namespace Table

variable {F : Fds κ} {s s' : State κ} {c d : κ} {i j : Nat} {pfd qfd : PollFd}

theorem init (F : Fds κ) : Table F (init F) where
  fd _ := rfl
  key := by simp [PollPoller.init]
  slot := by simp [PollPoller.init, State.Registered]
  owner := by simp [PollPoller.init]
  size := by simp [PollPoller.init]

/-- Two channels do not share a slot. -/
theorem slot_inj (h : Table F s) (hc : s.Slot c i pfd) (hd : s.Slot d i qfd) : c = d := by
  have hp : pfd = qfd := by
    have := hc.at_index.symm.trans hd.at_index
    simpa using this
  apply F.inj
  rw [← h.fd, ← h.fd, ← hc.fd, ← hd.fd, hp]

theorem slot_lt (hc : s.Slot c i pfd) : i < s.pollfds.length := by
  obtain ⟨hlt, -⟩ := List.getElem?_eq_some_iff.1 hc.at_index
  exact hlt

theorem slot_unique (hs : s.Slot c i pfd) (hs' : s.Slot c j qfd) : pfd = qfd := by
  obtain rfl : i = j := by exact_mod_cast hs.index.symm.trans hs'.index
  simpa using hs.at_index.symm.trans hs'.at_index

theorem registered_iff (h : Table F s) : s.Registered c ↔ s.channels[F.fd c]? = some c := by
  rw [State.Registered, h.fd]

theorem fd_nonneg (h : Table F s) (c : κ) : 0 ≤ (s.channel c).fd := by
  rw [h.fd]
  exact F.nonneg c

/-- No two slots hold the same descriptor. -/
theorem pollfds_pairwise (h : Table F s) : s.pollfds.Pairwise fun a b => a.fd ≠ b.fd := by
  rw [List.pairwise_iff_getElem]
  intro i j hi hj hij heq
  obtain ⟨c, -, hc⟩ := h.owner i _ (List.getElem?_eq_getElem hi)
  obtain ⟨d, -, hd⟩ := h.owner j _ (List.getElem?_eq_getElem hj)
  have hcd : c = d := by
    apply F.inj
    rw [← h.fd, ← h.fd, ← hc.fd, ← hd.fd, heq]
  subst hcd
  have := hc.index.symm.trans hd.index
  omega

theorem channels_fd (h : Table F s) {fd : Int} (hc : s.channels[fd]? = some c) :
    (s.channel c).fd = fd := by
  rw [h.fd, h.key fd c hc]

/-- A slot that is polled holds the descriptor of its channel. -/
theorem owner_of_nonneg (h : Table F s) {i : Nat} {pfd : PollFd} (hp : s.pollfds[i]? = some pfd)
    (hfd : 0 ≤ pfd.fd) : ∃ c, s.channels[pfd.fd]? = some c ∧ (s.channel c).index = i := by
  obtain ⟨c, hreg, hs⟩ := h.owner i pfd hp
  refine ⟨c, ?_, hs.index⟩
  have hfd' : pfd.fd = (s.channel c).fd := by
    have := hs.fd
    unfold slotFd at this
    split at this <;> omega
  rw [hfd']
  exact hreg

/-- Changes that keep every descriptor and index, and what each slot stands for. -/
theorem congr (h : Table F s) (hfd : ∀ d, (s'.channel d).fd = (s.channel d).fd)
    (hidx : ∀ d, (s'.channel d).index = (s.channel d).index) (hch : s'.channels = s.channels)
    (hlen : s'.pollfds.length = s.pollfds.length)
    (hslot : ∀ (i : Nat) (pfd : PollFd), s'.pollfds[i]? = some pfd →
      ∃ qfd : PollFd, s.pollfds[i]? = some qfd ∧ slotFd pfd.fd = slotFd qfd.fd) : Table F s' := by
  have hreg : ∀ d, s'.Registered d ↔ s.Registered d := by
    intro d
    rw [State.Registered, State.Registered, hfd, hch]
  refine ⟨fun d => (hfd d).trans (h.fd d), by rw [hch]; exact h.key, ?_, ?_, ?_⟩
  · intro d hd
    obtain ⟨i, qfd, hs⟩ := h.slot d ((hreg d).1 hd)
    have hlt : i < s'.pollfds.length := by
      rw [hlen]
      exact slot_lt hs
    have hp := List.getElem?_eq_getElem hlt
    obtain ⟨qfd', hq, he⟩ := hslot i _ hp
    obtain rfl : qfd = qfd' := by simpa using hs.at_index.symm.trans hq
    exact ⟨i, _, (hidx d).trans hs.index, hp, he.trans (hs.fd.trans (hfd d).symm)⟩
  · intro i pfd hp
    obtain ⟨qfd, hq, he⟩ := hslot i pfd hp
    obtain ⟨d, hd, hs⟩ := h.owner i qfd hq
    exact ⟨d, (hreg d).2 hd, (hidx d).trans hs.index, hp, he.trans (hs.fd.trans (hfd d).symm)⟩
  · rw [hch, hlen]
    exact h.size

end Table

/-! ## What each action does -/

namespace State

variable [DecidableEq κ] (s : State κ)

/-- `updateChannel` on a new channel. -/
def added (c : κ) (events : BitVec 32) : State κ :=
  { s.setChannel c { s.channel c with events := events, index := s.pollfds.length } with
    pollfds := s.pollfds ++ [⟨(s.channel c).fd, events.setWidth 16, 0⟩]
    channels := s.channels.insert (s.channel c).fd c }

/-- `updateChannel` on the channel in slot `i`. -/
def modified (c : κ) (events : BitVec 32) (i : Nat) (pfd : PollFd) : State κ :=
  { s.setEvents c events with
    pollfds := s.pollfds.set i
      ⟨if events = 0 then -(s.channel c).fd - 1 else pfd.fd, events.setWidth 16, 0⟩ }

/-- `removeChannel` on the channel in slot `i`, with `last` in the last slot. -/
def removed (c : κ) (i : Nat) (last : κ) : State κ :=
  { s.setChannel last { s.channel last with index := i } with
    pollfds := s.pollfds.swapRemove i
    channels := s.channels.erase (s.channel c).fd }

/-- The channels that `fillActiveChannels` appends for the slots `pfds`. -/
def reported (pfds : List PollFd) : List κ :=
  pfds.filterMap fun pfd => if pfd.revents = 0 then none else s.channels[pfd.fd]?

end State

/-- `poll` changes the `revents` only, of the slots and of the channels it reports. -/
structure Polled (s : State κ) (revents : List (BitVec 16)) (s' : State κ) : Prop where
  pollfds : s'.pollfds = s.written revents
  length : s'.pollfds.length = s.pollfds.length
  channels : s'.channels = s.channels
  active : s'.activeChannels = s.reported s'.pollfds
  marked : ∀ pfd ∈ s'.pollfds, pfd.revents ≠ 0 → ∀ c, s.channels[pfd.fd]? = some c →
    s'.channel c = { s.channel c with revents := pfd.revents.signExtend 32 }
  others : ∀ c, c ∉ s'.activeChannels → s'.channel c = s.channel c

inductive Effect [DecidableEq κ] (s : State κ) : Action κ → State κ → Prop where
  | add {c : κ} {events : BitVec 32} : (s.channel c).index < 0 → ¬ s.Registered c →
      s.channels[(s.channel c).fd]? = none →
      Effect s (.updateChannel c events) (s.added c events)
  | modify {c : κ} {events : BitVec 32} {i : Nat} {pfd : PollFd} : s.Registered c →
      s.Slot c i pfd → Effect s (.updateChannel c events) (s.modified c events i pfd)
  | remove {c last : κ} {i : Nat} {pfd qfd : PollFd} : s.Registered c → s.Slot c i pfd →
      (s.channel c).events = 0 → s.Registered last → s.Slot last (s.pollfds.length - 1) qfd →
      Effect s (.removeChannel c) (s.removed c i last)
  | pollFails : Effect s (.poll none) { s with activeChannels := [] }
  | poll {revents : List (BitVec 16)} {s' : State κ} : Polled s revents s' →
      Effect s (.poll (some revents)) s'

namespace Table

variable [DecidableEq κ] {F : Fds κ} {s s' : State κ} {c : κ}

theorem slotAsserts_slot (h : Table F s) {ok : PollFd → Bool} (ha : s.slotAsserts c ok = true) :
    s.Registered c ∧ ∃ i pfd, s.Slot c i pfd ∧ ok pfd = true := by
  simp only [State.slotAsserts, Bool.and_eq_true, decide_eq_true_eq] at ha
  obtain ⟨⟨hreg, hpos⟩, hm⟩ := ha
  obtain ⟨i, pfd, hs⟩ := h.slot c hreg
  refine ⟨hreg, i, pfd, hs, ?_⟩
  rw [hs.index, Int.toNat_natCast, hs.at_index] at hm
  exact hm

theorem setEvents_fd (s : State κ) (c d : κ) (events : BitVec 32) :
    ((s.setEvents c events).channel d).fd = (s.channel d).fd := by
  simp only [State.setEvents, State.setChannel, Function.update_apply]
  split
  · next hd => rw [hd]
  · rfl

theorem setEvents_index (s : State κ) (c d : κ) (events : BitVec 32) :
    ((s.setEvents c events).channel d).index = (s.channel d).index := by
  simp only [State.setEvents, State.setChannel, Function.update_apply]
  split
  · next hd => rw [hd]
  · rfl

theorem setEvents (h : Table F s) (c : κ) (events : BitVec 32) : Table F (s.setEvents c events) :=
  h.congr (setEvents_fd s c · events) (setEvents_index s c · events) rfl rfl
    fun _ pfd hp => ⟨pfd, hp, rfl⟩

theorem updateChannel_effect (h : Table F s) {events : BitVec 32}
    (he : (s.setEvents c events).updateAsserts c = true) :
    ∃ s', (s.setEvents c events).updateChannel c = .ok s' ∧
      Effect s (.updateChannel c events) s' := by
  have hself : (s.setEvents c events).channel c = { s.channel c with events := events } := by
    simp [State.setEvents, State.setChannel]
  by_cases hneg : (s.channel c).index < 0
  · have hnone : s.channels[(s.channel c).fd]? = none := by
      simp only [State.updateAsserts, hself, hneg, if_true] at he
      exact of_decide_eq_true he
    refine ⟨s.added c events, ?_, .add hneg (by simp [State.Registered, hnone]) hnone⟩
    simp only [State.updateChannel, he, hself, hneg, if_true]
    simp [State.added, State.setEvents, State.setChannel]
  · have ha := he
    simp only [State.updateAsserts, hself, hneg, if_false] at ha
    obtain ⟨hreg, i, pfd, hs, -⟩ := (h.setEvents c events).slotAsserts_slot ha
    have hreg' : s.Registered c := by
      rw [State.Registered, setEvents_fd] at hreg
      exact hreg
    have hs' : s.Slot c i pfd := by
      refine ⟨(setEvents_index s c c events).symm.trans hs.index, hs.at_index, ?_⟩
      exact hs.fd.trans (setEvents_fd s c c events)
    refine ⟨s.modified c events i pfd, ?_, .modify hreg' hs'⟩
    have hp : (s.setEvents c events).pollfds[i]? = some pfd := hs.at_index
    simp only [State.updateChannel, he, hself, hs'.index, Int.toNat_natCast, hp]
    simp [State.modified, Channel.isNoneEvent, Channel.kNoneEvent, State.setEvents,
      State.setChannel]

/-- Setting the index that is there. -/
theorem setChannel_index_self {i : Nat} (hi : (s.channel c).index = i) :
    s.setChannel c { s.channel c with index := i } = s := by
  have hch : { s.channel c with index := (i : Int) } = s.channel c := by rw [← hi]
  rw [State.setChannel, hch, Function.update_eq_self]

theorem removeChannel_effect (h : Table F s) (he : s.removeAsserts c = true) :
    ∃ s', s.removeChannel c = .ok s' ∧ Effect s (.removeChannel c) s' := by
  have ha := he
  simp only [State.removeAsserts, Bool.and_eq_true] at ha
  obtain ⟨hnone, ha⟩ := ha
  obtain ⟨hreg, i, pfd, hs, -⟩ := h.slotAsserts_slot ha
  have hevents := (Channel.isNoneEvent_iff _).1 hnone
  have hlt := slot_lt hs
  -- the last slot has an owner
  have hback := List.getElem?_eq_getElem (l := s.pollfds) (i := s.pollfds.length - 1) (by omega)
  obtain ⟨last, hlast, hsl⟩ := h.owner _ _ hback
  refine ⟨s.removed c i last, ?_, .remove hreg hs hevents hlast hsl⟩
  have hn : s.channels.contains (s.channel c).fd = true := contains_of_some hreg
  simp only [State.removeChannel, he, hs.index, hn, Int.toNat_natCast]
  by_cases hi : i = s.pollfds.length - 1
  · obtain rfl : c = last := h.slot_inj (hi ▸ hs) hsl
    rw [if_neg (by simp), if_neg (by simp), if_pos hi, State.removed,
      setChannel_index_self hs.index, hi, ← List.dropLast_eq_swapRemove]
  · have hne : last ≠ c := by
      rintro rfl
      have := hs.index.symm.trans hsl.index
      omega
    have hfd : (s.channel c).fd ≠ (s.channel last).fd := by
      rw [h.fd, h.fd]
      exact fun e => hne (F.inj e).symm
    have hend : (s.channels.erase (s.channel c).fd)[(s.channel last).fd]? = some last := by
      simp only [Std.TreeMap.getElem?_erase, Std.LawfulEqCmp.compare_eq_iff_eq, hfd, if_false]
      exact hlast
    have hslot := hsl.fd
    rw [slotFd] at hslot
    rw [if_neg (by simp), if_neg (by simp), if_neg hi, hs.at_index, hback]
    simp only [hslot, hend]
    rw [State.removed, List.swap_dropLast_eq_swapRemove _ hback]
    rfl

end Table

/-! ## The invariant -/

namespace Table

variable [DecidableEq κ] {F : Fds κ} {s s' : State κ} {c last : κ} {i : Nat} {pfd qfd : PollFd}

theorem added_fd (s : State κ) (c d : κ) (events : BitVec 32) :
    ((s.added c events).channel d).fd = (s.channel d).fd := by
  simp only [State.added, State.setChannel, Function.update_apply]
  split
  · next hd => rw [hd]
  · rfl

/-- `updateChannel` registers a new channel. -/
theorem registered_added (h : Table F s) {d : κ} (events : BitVec 32) :
    (s.added c events).Registered d ↔ d = c ∨ s.Registered d := by
  rw [State.Registered, added_fd]
  simp only [State.added, Std.TreeMap.getElem?_insert, Std.LawfulEqCmp.compare_eq_iff_eq]
  rw [h.fd, h.fd, State.Registered, h.fd]
  by_cases hd : d = c
  · simp [hd]
  · rw [if_neg fun e => hd (F.inj e).symm]
    simp [hd]

theorem added_self (s : State κ) (c : κ) (events : BitVec 32) :
    (s.added c events).channel c =
      { s.channel c with events := events, index := s.pollfds.length } :=
  Function.update_self _ _ _

theorem added_ne (s : State κ) {c d : κ} (events : BitVec 32) (h : d ≠ c) :
    (s.added c events).channel d = s.channel d :=
  Function.update_of_ne h _ _

theorem slot_added (h : Table F s) (events : BitVec 32) :
    (s.added c events).Slot c s.pollfds.length ⟨(s.channel c).fd, events.setWidth 16, 0⟩ := by
  refine ⟨by rw [added_self], by simp [State.added], ?_⟩
  rw [added_fd, slotFd, if_neg]
  exact not_lt.2 (h.fd_nonneg c)

/-- The other channels keep their slots. -/
theorem slot_added_ne {d : κ} (events : BitVec 32) (hs : s.Slot d i pfd) (hd : d ≠ c) :
    (s.added c events).Slot d i pfd := by
  refine ⟨by rw [added_ne s events hd]; exact hs.index, ?_, by rw [added_fd]; exact hs.fd⟩
  show (s.pollfds ++ _)[i]? = some pfd
  rw [List.getElem?_append_left (slot_lt hs)]
  exact hs.at_index

theorem added (h : Table F s) (events : BitVec 32)
    (hnone : s.channels[(s.channel c).fd]? = none) : Table F (s.added c events) := by
  refine ⟨fun d => (added_fd s c d events).trans (h.fd d), ?_, ?_, ?_, ?_⟩
  · intro fd d hd
    simp only [State.added, Std.TreeMap.getElem?_insert, Std.LawfulEqCmp.compare_eq_iff_eq] at hd
    split at hd
    · next e =>
      cases hd
      rw [← e, h.fd]
    · exact h.key fd d hd
  · intro d hd
    by_cases hdc : d = c
    · subst hdc
      exact ⟨_, _, h.slot_added events⟩
    · obtain ⟨j, q, hs⟩ := h.slot d (((h.registered_added events).1 hd).resolve_left hdc)
      exact ⟨j, q, slot_added_ne events hs hdc⟩
  · intro j q hq
    change (s.pollfds ++ [_])[j]? = some q at hq
    by_cases hj : j < s.pollfds.length
    · rw [List.getElem?_append_left hj] at hq
      obtain ⟨d, hd, hs⟩ := h.owner j q hq
      have hdc : d ≠ c := by
        rintro rfl
        rw [State.Registered, hnone] at hd
        cases hd
      exact ⟨d, (h.registered_added events).2 (.inr hd), slot_added_ne events hs hdc⟩
    · obtain rfl : j = s.pollfds.length := by
        have := (List.getElem?_eq_some_iff.1 hq).1
        rw [List.length_append, List.length_singleton] at this
        omega
      have hnew := h.slot_added (c := c) events
      have hq' := hnew.at_index.symm.trans hq
      exact ⟨c, (h.registered_added events).2 (.inl rfl), (Option.some.inj hq') ▸ hnew⟩
  · show (s.channels.insert _ c).size = (s.pollfds ++ [_]).length
    have hcontains : s.channels.contains (s.channel c).fd = false := by
      rw [Std.TreeMap.contains_eq_isSome_getElem?, hnone]
      rfl
    rw [Std.TreeMap.size_insert, hcontains, h.size, List.length_append]
    rfl

theorem modified_self (s : State κ) (c : κ) (events : BitVec 32) (i : Nat) (pfd : PollFd) :
    (s.modified c events i pfd).channel c = { s.channel c with events := events } :=
  Function.update_self _ _ _

theorem modified_ne (s : State κ) {c d : κ} (events : BitVec 32) (i : Nat) (pfd : PollFd)
    (h : d ≠ c) : (s.modified c events i pfd).channel d = s.channel d :=
  Function.update_of_ne h _ _

theorem registered_modified (s : State κ) (c d : κ) (events : BitVec 32) (i : Nat) (pfd : PollFd) :
    (s.modified c events i pfd).Registered d ↔ s.Registered d := by
  rw [State.Registered, State.modified, setEvents_fd]
  rfl

theorem slot_modified (h : Table F s) (events : BitVec 32) (hs : s.Slot c i pfd) :
    (s.modified c events i pfd).Slot c i
      ⟨if events = 0 then -(s.channel c).fd - 1 else pfd.fd, events.setWidth 16, 0⟩ := by
  refine ⟨(setEvents_index s c c events).trans hs.index, List.getElem?_set_self (slot_lt hs), ?_⟩
  rw [State.modified, setEvents_fd, slotFd_eq_iff (h.fd_nonneg c)]
  dsimp only
  split
  · exact .inr rfl
  · rw [← slotFd_eq_iff (h.fd_nonneg c)]
    exact hs.fd

theorem slot_modified_ne (h : Table F s) {d : κ} {j : Nat} (events : BitVec 32)
    (hs : s.Slot c i pfd) (hd : s.Slot d j qfd) (hdc : d ≠ c) :
    (s.modified c events i pfd).Slot d j qfd := by
  have hij : i ≠ j := by
    rintro rfl
    exact hdc (h.slot_inj hd hs)
  refine ⟨(setEvents_index s c d events).trans hd.index, ?_, ?_⟩
  · show (s.pollfds.set i _)[j]? = some qfd
    rw [List.getElem?_set_ne hij]
    exact hd.at_index
  · exact hd.fd.trans (setEvents_fd s c d events).symm

theorem modified (h : Table F s) (events : BitVec 32) (hs : s.Slot c i pfd) :
    Table F (s.modified c events i pfd) := by
  refine h.congr (setEvents_fd s c · events) (setEvents_index s c · events) rfl
    (List.length_set) fun j q hq => ?_
  change (s.pollfds.set i _)[j]? = some q at hq
  by_cases hj : i = j
  · subst hj
    rw [List.getElem?_set_self (slot_lt hs)] at hq
    cases hq
    refine ⟨pfd, hs.at_index, ?_⟩
    dsimp only
    split
    · rw [hs.fd, slotFd_eq_iff (h.fd_nonneg c)]
      exact .inr rfl
    · rfl
  · rw [List.getElem?_set_ne hj] at hq
    exact ⟨q, hq, rfl⟩

theorem removed_fd (s : State κ) (c last d : κ) (i : Nat) :
    ((s.removed c i last).channel d).fd = (s.channel d).fd := by
  simp only [State.removed, State.setChannel, Function.update_apply]
  split
  · next hd => rw [hd]
  · rfl

theorem registered_removed (h : Table F s) {d : κ} :
    (s.removed c i last).Registered d ↔ d ≠ c ∧ s.Registered d := by
  rw [State.Registered, removed_fd]
  simp only [State.removed, Std.TreeMap.getElem?_erase, Std.LawfulEqCmp.compare_eq_iff_eq]
  rw [h.fd, h.fd, State.Registered, h.fd]
  by_cases hd : d = c
  · simp [hd]
  · rw [if_neg fun e => hd (F.inj e).symm]
    simp [hd]

theorem removed_self (s : State κ) (c last : κ) (i : Nat) :
    (s.removed c i last).channel last = { s.channel last with index := i } :=
  Function.update_self _ _ _

theorem removed_ne (s : State κ) {c last d : κ} (i : Nat) (h : d ≠ last) :
    (s.removed c i last).channel d = s.channel d :=
  Function.update_of_ne h _ _

theorem getElem?_removed (s : State κ) (c last : κ) (i j : Nat) :
    (s.removed c i last).pollfds[j]? =
      if j + 1 < s.pollfds.length then
        if j = i then s.pollfds[s.pollfds.length - 1]? else s.pollfds[j]?
      else none :=
  List.getElem?_swapRemove s.pollfds i j

/-- The other channels keep their slots, but the one in the last slot moves to slot `i`. -/
theorem slot_removed (h : Table F s) {d : κ} {j : Nat} {rfd : PollFd} (hs : s.Slot c i pfd)
    (hsl : s.Slot last (s.pollfds.length - 1) qfd) (hsd : s.Slot d j rfd) (hdc : d ≠ c) :
    (s.removed c i last).Slot d (if d = last then i else j) rfd := by
  have hi := slot_lt hs
  have hj := slot_lt hsd
  have hji : j ≠ i := by
    rintro rfl
    exact hdc (h.slot_inj hsd hs)
  by_cases hdl : d = last
  · subst hdl
    have hjl := hsd.index.symm.trans hsl.index
    refine ⟨by rw [removed_self, if_pos rfl], ?_, by rw [removed_fd]; exact hsd.fd⟩
    rw [if_pos rfl, getElem?_removed, if_pos (by omega), if_pos rfl,
      show s.pollfds.length - 1 = j by omega]
    exact hsd.at_index
  · have hjl : j ≠ s.pollfds.length - 1 := by
      rintro rfl
      exact hdl (h.slot_inj hsd hsl)
    refine ⟨by rw [removed_ne s i hdl, if_neg hdl]; exact hsd.index, ?_,
      by rw [removed_fd]; exact hsd.fd⟩
    rw [if_neg hdl, getElem?_removed, if_pos (by omega), if_neg hji]
    exact hsd.at_index

theorem removed (h : Table F s) (hreg : s.Registered c) (hs : s.Slot c i pfd)
    (hlast : s.Registered last) (hsl : s.Slot last (s.pollfds.length - 1) qfd) :
    Table F (s.removed c i last) := by
  refine ⟨fun d => (removed_fd s c last d i).trans (h.fd d), ?_, ?_, ?_, ?_⟩
  · intro fd d hd
    simp only [State.removed, Std.TreeMap.getElem?_erase, Std.LawfulEqCmp.compare_eq_iff_eq] at hd
    split at hd
    · cases hd
    · exact h.key fd d hd
  · intro d hd
    obtain ⟨hdc, hd⟩ := h.registered_removed.1 hd
    obtain ⟨j, q, hsd⟩ := h.slot d hd
    exact ⟨_, q, h.slot_removed hs hsl hsd hdc⟩
  · intro j q hq
    rw [getElem?_removed] at hq
    split at hq
    · next hj =>
      split at hq
      · next hji =>
        subst hji
        have hlc : last ≠ c := by
          rintro rfl
          have := hs.index.symm.trans hsl.index
          omega
        obtain rfl : qfd = q := by simpa using hsl.at_index.symm.trans hq
        have hmoved := h.slot_removed hs hsl hsl hlc
        rw [if_pos rfl] at hmoved
        exact ⟨last, h.registered_removed.2 ⟨hlc, hlast⟩, hmoved⟩
      · next hji =>
        obtain ⟨d, hd, hsd⟩ := h.owner j q hq
        have hdc : d ≠ c := by
          rintro rfl
          have := hs.index.symm.trans hsd.index
          omega
        have hdl : d ≠ last := by
          rintro rfl
          have := hsl.index.symm.trans hsd.index
          omega
        have hkept := h.slot_removed hs hsl hsd hdc
        rw [if_neg hdl] at hkept
        exact ⟨d, h.registered_removed.2 ⟨hdc, hd⟩, hkept⟩
    · cases hq
  · show (s.channels.erase (s.channel c).fd).size = (s.pollfds.swapRemove i).length
    have hcontains : s.channels.contains (s.channel c).fd = true := contains_of_some hreg
    rw [Std.TreeMap.size_erase, hcontains, h.size, List.length_swapRemove]
    rfl

end Table

end Rawmd.PollPoller
