import Rawmd.Net.Poller.EPollKeyed
import Rawmd.Net.Poller.PollServes

/-!
# What `EPollPoller` accepts while channels come and go

As for `PollPoller`: a registered channel that asks for something is in the interest list with just
that, and one that asks for nothing is marked as deleted.  No call meets a failed assert, and no
`epoll_ctl` fails but an `EPOLL_CTL_DEL`, whose failure is only logged.
-/

namespace Rawmd.EPollPoller

open Poller (unasked)

variable {κ : Type} {s s' : State κ} {c d : κ} {events : BitVec 32}

/-- What the interest list has for a registered channel. -/
inductive State.Served (s : State κ) (fd : Int) (c : κ) : Prop where
  | watched (index : (s.channel c).index = kAdded)
      (interest : s.interest[fd]? = some ((s.channel c).events, c))
      (events : (s.channel c).events ≠ 0)
  | idle (index : (s.channel c).index = kDeleted) (events : (s.channel c).events = 0)

structure Serves (s : State κ) : Prop where
  keyed : Keyed s
  served : ∀ (fd : Int) (c : κ), s.channels[fd]? = some c → s.Served fd c

/-- Nothing is watched under a descriptor that is not registered. -/
theorem Keyed.not_contains (h : Keyed s) {fd : Int} (hfd : s.channels[fd]? = none) :
    s.interest.contains fd = false := by
  rw [Std.TreeMap.contains_eq_isSome_getElem?]
  cases he : s.interest[fd]? with
  | none => rfl
  | some entry =>
    rw [(h.interest fd entry.1 entry.2 he).1] at hfd
    cases hfd

theorem Keyed.not_contains_deleted (h : Keyed s) {fd : Int} (hc : s.channels[fd]? = some c)
    (hi : (s.channel c).index = kDeleted) : s.interest.contains fd = false := by
  rw [Std.TreeMap.contains_eq_isSome_getElem?]
  cases he : s.interest[fd]? with
  | none => rfl
  | some entry =>
    obtain ⟨hreg, hadded⟩ := h.interest fd entry.1 entry.2 he
    rw [hc] at hreg
    cases hreg
    rw [hi] at hadded
    cases hadded

theorem contains_interest {fd : Int} {entry : BitVec 32 × κ} (h : s.interest[fd]? = some entry) :
    s.interest.contains fd = true := by
  rw [Std.TreeMap.contains_eq_isSome_getElem?, h]
  rfl

/-- Changes of what is not looked at. -/
theorem Serves.congr (h : Serves s) (hkeyed : Keyed s')
    (hch : ∀ (fd : Int) (d : κ), s.channels[fd]? = some d →
      (s'.channel d).index = (s.channel d).index ∧ (s'.channel d).events = (s.channel d).events)
    (hchs : s'.channels = s.channels)
    (hint : ∀ (fd : Int) (d : κ), s.channels[fd]? = some d →
      s'.interest[fd]? = s.interest[fd]?) : Serves s' := by
  refine ⟨hkeyed, fun fd d hd => ?_⟩
  rw [hchs] at hd
  obtain ⟨hidx, hev⟩ := hch fd d hd
  cases h.served fd d hd with
  | watched hi he h0 =>
    refine .watched (hidx.trans hi) ?_ ?_
    · rw [hint fd d hd, hev]
      exact he
    · rw [hev]
      exact h0
  | idle hi h0 => exact .idle (hidx.trans hi) (hev.trans h0)

/-! ## `poll` -/

/-- Each event has what its entry asks for, and what is reported unasked. -/
def State.within (s : State κ) (ready : List (BitVec 32 × Int)) : Bool :=
  ready.all fun (events, fd) =>
    (s.interest[fd]?).all fun entry => decide (events &&& ~~~(entry.1 ||| unasked) = 0)

/-- A channel that is reported asks for something, and what is reported was asked for. -/
theorem Serves.reported (h : Serves s) {ready : List (BitVec 32 × Int)}
    (hw : s.within ready = true) (hm : (events, c) ∈ s.entries ready) :
    (s.channel c).events ≠ 0 ∧ events &&& ~~~((s.channel c).events ||| unasked) = 0 := by
  obtain ⟨fd, mask, hm, he⟩ := mem_entries.1 hm
  obtain ⟨hreg, hadded⟩ := h.keyed.interest fd mask c he
  have hall := List.all_eq_true.1 hw _ hm
  simp only [he, Option.all_some, decide_eq_true_eq] at hall
  cases h.served fd c hreg with
  | watched _ he' h0 =>
    rw [he'] at he
    cases he
    exact ⟨h0, hall⟩
  | idle hi _ =>
    rw [hadded] at hi
    cases hi

theorem Serves.filled (h : Serves s) {ready : List (BitVec 32 × κ)} (size : Nat)
    (hf : Filled { s with activeChannels := [] } ready s') :
    Serves { s' with eventsSize := size } := by
  refine h.congr (h.keyed.filled size hf) (fun _ d _ => ?_) hf.channels (fun fd d _ => ?_)
  · show (s'.channel d).index = _ ∧ (s'.channel d).events = _
    rw [hf.channel d]
    exact ⟨rfl, rfl⟩
  · show s'.interest[fd]? = _
    rw [hf.interest]

variable [DecidableEq κ]

/-! ## Calls -/

theorem setEvents_channel (s : State κ) (c : κ) (events : BitVec 32) :
    (s.setEvents c events).channel c = { s.channel c with events := events } :=
  Function.update_self _ _ _

theorem updateAsserts_new (hi : (s.channel c).index = kNew)
    (hnone : s.channels[(s.channel c).fd]? = none) :
    (s.setEvents c events).updateAsserts c = true := by
  rw [State.updateAsserts, setEvents_channel]
  simp only [hi, if_true, decide_eq_true_eq]
  exact hnone

theorem updateAsserts_registered (hreg : s.channels[(s.channel c).fd]? = some c)
    (hi : (s.channel c).index = kDeleted ∨ (s.channel c).index = kAdded) :
    (s.setEvents c events).updateAsserts c = true := by
  have hnew : (s.channel c).index ≠ kNew := by
    rcases hi with hi | hi
    · rw [hi]
      decide
    · rw [hi]
      decide
  rw [State.updateAsserts, setEvents_channel]
  simp only [hnew, if_false, Bool.and_eq_true, Bool.or_eq_true, decide_eq_true_eq]
  exact ⟨hreg, hi⟩

theorem updateChannel_added (hi : (s.channel c).index = kNew)
    (hnone : s.channels[(s.channel c).fd]? = none)
    (hin : s.interest.contains (s.channel c).fd = false) :
    (s.setEvents c events).updateChannel c =
      .ok (s.put c events kAdded (s.channels.insert (s.channel c).fd c)
        (s.interest.insert (s.channel c).fd (events, c))) := by
  have hself := setEvents_channel s c events
  rw [State.updateChannel, if_neg (by simp [updateAsserts_new hi hnone]),
    if_pos (by rw [hself]; exact .inl hi), if_pos (by rw [hself]; exact hi), update_add]
  · simp [State.put, State.setIndex, State.setEvents, State.setChannel]
  · simp [State.setIndex, State.setEvents, State.setChannel, hin]

theorem updateChannel_readded (hreg : s.channels[(s.channel c).fd]? = some c)
    (hi : (s.channel c).index = kDeleted)
    (hin : s.interest.contains (s.channel c).fd = false) :
    (s.setEvents c events).updateChannel c =
      .ok (s.put c events kAdded s.channels
        (s.interest.insert (s.channel c).fd (events, c))) := by
  have hself := setEvents_channel s c events
  rw [State.updateChannel, if_neg (by simp [updateAsserts_registered hreg (.inl hi)]),
    if_pos (by rw [hself]; exact .inr hi),
    if_neg (by rw [hself]; simp [hi, kDeleted, kNew]), update_add]
  · simp [State.put, State.setIndex, State.setEvents, State.setChannel]
  · simp [State.setIndex, State.setEvents, State.setChannel, hin]

theorem updateChannel_disabled (hreg : s.channels[(s.channel c).fd]? = some c)
    (hi : (s.channel c).index = kAdded) (hin : s.interest.contains (s.channel c).fd = true) :
    (s.setEvents c 0).updateChannel c =
      .ok (s.put c 0 kDeleted s.channels (s.interest.erase (s.channel c).fd)) := by
  have hself := setEvents_channel s c 0
  rw [State.updateChannel, if_neg (by simp [updateAsserts_registered hreg (.inr hi)]),
    if_neg (by rw [hself]; simp [hi, kAdded, kNew, kDeleted]),
    if_pos (by rw [hself]; exact (Channel.isNoneEvent_iff _).2 rfl), update_del]
  · simp [State.put, State.setIndex, State.setEvents, State.setChannel, Bind.bind, Except.bind,
      pure, Except.pure]
  · simp [State.setEvents, State.setChannel, hin]

theorem updateChannel_modified (hreg : s.channels[(s.channel c).fd]? = some c)
    (hi : (s.channel c).index = kAdded) (hin : s.interest.contains (s.channel c).fd = true)
    (h0 : events ≠ 0) :
    (s.setEvents c events).updateChannel c =
      .ok (s.put c events kAdded s.channels
        (s.interest.insert (s.channel c).fd (events, c))) := by
  have hself := setEvents_channel s c events
  rw [State.updateChannel, if_neg (by simp [updateAsserts_registered hreg (.inr hi)]),
    if_neg (by rw [hself]; simp [hi, kAdded, kNew, kDeleted]),
    if_neg (by rw [hself, Channel.isNoneEvent_iff]; exact h0), update_mod]
  · simp [State.put, State.setEvents, State.setChannel, hi]
  · simp [State.setEvents, State.setChannel, hin]

theorem removeChannel_deleted (hreg : s.channels[(s.channel c).fd]? = some c)
    (hi : (s.channel c).index = kDeleted) (h0 : (s.channel c).events = 0) :
    s.removeChannel c =
      .ok (s.put c (s.channel c).events kNew (s.channels.erase (s.channel c).fd) s.interest) := by
  have ha : s.removeAsserts c = true := by
    simp only [State.removeAsserts, Bool.and_eq_true, Bool.or_eq_true, decide_eq_true_eq,
      Channel.isNoneEvent_iff]
    exact ⟨⟨hreg, h0⟩, .inr hi⟩
  have hn : s.channels.contains (s.channel c).fd = true := contains_of_some hreg
  rw [State.removeChannel, if_neg (by simp [ha])]
  simp only [hn, hi, if_true, ne_eq, not_true_eq_false, if_false]
  rw [if_neg (by decide)]
  simp [State.put, State.setIndex, State.setChannel, Bind.bind, Except.bind, pure, Except.pure]

/-! ## What they keep -/

/-- A call on channel `c` changes what is under its descriptor. -/
theorem Serves.put (h : Serves s) {index : Int} {channels : Std.TreeMap Int κ}
    {interest : Std.TreeMap Int (BitVec 32 × κ)}
    (hkeyed : Keyed (s.put c events index channels interest))
    (hch : ∀ fd : Int, fd ≠ (s.channel c).fd → channels[fd]? = s.channels[fd]?)
    (hint : ∀ fd : Int, fd ≠ (s.channel c).fd → interest[fd]? = s.interest[fd]?)
    (hself : channels[(s.channel c).fd]? = none ∨
      (channels[(s.channel c).fd]? = some c ∧
        (s.put c events index channels interest).Served (s.channel c).fd c)) :
    Serves (s.put c events index channels interest) := by
  refine ⟨hkeyed, fun fd d hd => ?_⟩
  change channels[fd]? = some d at hd
  by_cases hfd : fd = (s.channel c).fd
  · subst hfd
    rcases hself with hnone | ⟨hsome, hs⟩
    · rw [hnone] at hd
      cases hd
    · rw [hsome] at hd
      cases hd
      exact hs
  · rw [hch fd hfd] at hd
    have hdc : d ≠ c := by
      rintro rfl
      exact hfd (h.keyed.key fd d hd).symm
    have hne := put_ne s events index channels interest hdc
    cases h.served fd d hd with
    | watched hi he h0 =>
      refine .watched (by rw [hne]; exact hi) ?_ (by rw [hne]; exact h0)
      show interest[fd]? = _
      rw [hint fd hfd, hne]
      exact he
    | idle hi h0 => exact .idle (by rw [hne]; exact hi) (by rw [hne]; exact h0)

theorem put_watched (s : State κ) (c : κ) {channels : Std.TreeMap Int κ} (h0 : events ≠ 0) :
    (s.put c events kAdded channels (s.interest.insert (s.channel c).fd (events, c))).Served
      (s.channel c).fd c := by
  have hself := put_self s c events kAdded channels
    (s.interest.insert (s.channel c).fd (events, c))
  refine .watched (by rw [hself]) ?_ (by rw [hself]; exact h0)
  rw [hself]
  exact (getElem?_insert_key _ _ _ _).trans (if_pos rfl)

theorem put_events (s : State κ) (c d : κ) (events : BitVec 32) (index : Int)
    (channels : Std.TreeMap Int κ) (interest : Std.TreeMap Int (BitVec 32 × κ)) :
    ((s.put c events index channels interest).channel d).events =
      if d = c then events else (s.channel d).events := by
  by_cases hdc : d = c
  · rw [if_pos hdc, hdc, put_self]
  · rw [if_neg hdc, put_ne s events index channels interest hdc]

theorem insert_ne {β : Type} (m : Std.TreeMap Int β) {x fd : Int} (v : β) (h : fd ≠ x) :
    (m.insert x v)[fd]? = m[fd]? :=
  (getElem?_insert_key _ _ _ _).trans (if_neg h)

theorem erase_ne {β : Type} (m : Std.TreeMap Int β) {x fd : Int} (h : fd ≠ x) :
    (m.erase x)[fd]? = m[fd]? :=
  (getElem?_erase_key _ _ _).trans (if_neg h)

theorem Serves.updateChannel_new (h : Serves s) (hi : (s.channel c).index = kNew)
    (hnone : s.channels[(s.channel c).fd]? = none) (h0 : events ≠ 0) :
    ∃ s', (s.setEvents c events).updateChannel c = .ok s' ∧ Serves s' ∧
      ∀ d, (s'.channel d).events = if d = c then events else (s.channel d).events := by
  have hs' : (s.setEvents c events).updateChannel c = _ :=
    updateChannel_added hi hnone (h.keyed.not_contains hnone)
  refine ⟨_, hs', h.put ((h.keyed.setEvents c events).updateChannel hs') ?_ ?_ (.inr ⟨?_, ?_⟩),
    fun d => put_events s c d events _ _ _⟩
  · exact fun fd hfd => insert_ne _ _ hfd
  · exact fun fd hfd => insert_ne _ _ hfd
  · exact (getElem?_insert_key _ _ _ _).trans (if_pos rfl)
  · exact put_watched s c h0

/-- A channel that asks for nothing is not told so again. -/
theorem Serves.updateChannel (h : Serves s) (hreg : s.channels[(s.channel c).fd]? = some c)
    (hsome : (s.channel c).events ≠ 0 ∨ events ≠ 0) :
    ∃ s', (s.setEvents c events).updateChannel c = .ok s' ∧ Serves s' ∧
      ∀ d, (s'.channel d).events = if d = c then events else (s.channel d).events := by
  cases h.served _ c hreg with
  | watched hi he _ =>
    have hin := contains_interest he
    by_cases h0 : events = 0
    · subst h0
      have hs' := updateChannel_disabled hreg hi hin
      refine ⟨_, hs', h.put ((h.keyed.setEvents c 0).updateChannel hs') (fun _ _ => rfl)
        (fun fd hfd => erase_ne _ hfd) (.inr ⟨hreg, .idle ?_ ?_⟩),
        fun d => put_events s c d 0 _ _ _⟩
      · rw [put_self]
      · rw [put_self]
    · have hs' := updateChannel_modified hreg hi hin h0
      exact ⟨_, hs', h.put ((h.keyed.setEvents c events).updateChannel hs') (fun _ _ => rfl)
        (fun fd hfd => insert_ne _ _ hfd) (.inr ⟨hreg, put_watched s c h0⟩),
        fun d => put_events s c d events _ _ _⟩
  | idle hi hev =>
    have h0 : events ≠ 0 := hsome.resolve_left (not_not.2 hev)
    have hs' : (s.setEvents c events).updateChannel c = _ :=
      updateChannel_readded hreg hi (h.keyed.not_contains_deleted hreg hi)
    exact ⟨_, hs', h.put ((h.keyed.setEvents c events).updateChannel hs') (fun _ _ => rfl)
      (fun fd hfd => insert_ne _ _ hfd) (.inr ⟨hreg, put_watched s c h0⟩),
      fun d => put_events s c d events _ _ _⟩

theorem Serves.removeChannel (h : Serves s) (hreg : s.channels[(s.channel c).fd]? = some c)
    (h0 : (s.channel c).events = 0) :
    ∃ s', s.removeChannel c = .ok s' ∧ Serves s' ∧
      ∀ d, (s'.channel d).events = (s.channel d).events := by
  cases h.served _ c hreg with
  | watched _ _ hev => exact absurd h0 hev
  | idle hi _ =>
    have hs' := removeChannel_deleted hreg hi h0
    refine ⟨_, hs', h.put (h.keyed.removeChannel hs') (fun fd hfd => erase_ne _ hfd)
      (fun _ _ => rfl) (.inl ?_), fun d => ?_⟩
    · exact (getElem?_erase_key _ _ _).trans (if_pos rfl)
    · rw [put_events]
      split
      · next hdc => rw [hdc]
      · rfl

end Rawmd.EPollPoller
