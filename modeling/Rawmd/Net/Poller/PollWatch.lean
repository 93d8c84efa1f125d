import Rawmd.Net.Poller.PollActive

/-!
# What `PollPoller` watches

A registered channel is watched if its slot holds its events, and its descriptor if there are
any, `-fd - 1` if there are none.  `updateChannel` hides the descriptor of a channel whose
events become empty but never brings it back, and it registers a new channel with its plain
descriptor even if it asks for nothing.  So along a run of channel operations the channels
are watched exactly as long as no operation does one of these (`KeepsWatch`).
-/

namespace Rawmd.PollPoller

variable {κ : Type}

/-- A channel's operation, then `updateChannel`. -/
def channelAction (s : State κ) : Channel.Call κ → Action κ
  | .update c op => .updateChannel c (op.events (s.channel c).events)
  | .remove c => .removeChannel c

/-- Runs of channel operations, as far as the asserts of `PollPoller` accept them. -/
def channelMachine (κ : Type) [DecidableEq κ] : Machine (State κ) (Channel.Call κ) Fault :=
  (machine κ).via channelAction

/-- The slot of a channel asks for its events, and is ignored exactly if there are none. -/
def SlotWatches (pfd : PollFd) (ch : Channel) : Prop :=
  pfd.events.signExtend 32 = ch.events ∧
    pfd.fd = if ch.events = 0 then -ch.fd - 1 else ch.fd

/-- Every registered channel's slot watches it. -/
def Watched (s : State κ) : Prop :=
  ∀ c, s.Registered c → ∃ pfd, s.pollfds[(s.channel c).index.toNat]? = some pfd ∧
    SlotWatches pfd (s.channel c)

/-- A channel is registered with some interest, and not given one again after it was left with
none. -/
def KeepsWatch (s : State κ) (a : Channel.Call κ) (_ : State κ) : Prop :=
  match a with
  | .update c op =>
    if (s.channel c).index < 0 then op.events (s.channel c).events ≠ 0
    else (s.channel c).events = 0 → op.events (s.channel c).events = 0
  | .remove _ => True

instance decidableKeepsWatch (s : State κ) (a : Channel.Call κ) (t : State κ) :
    Decidable (KeepsWatch s a t) :=
  match a with
  | .update c op => inferInstanceAs (Decidable (if (s.channel c).index < 0 then
      op.events (s.channel c).events ≠ 0
    else (s.channel c).events = 0 → op.events (s.channel c).events = 0))
  | .remove _ => inferInstanceAs (Decidable True)

/-- The tables agree, and the events are those that operations set. -/
structure Served (F : Fds κ) (s : State κ) : Prop where
  table : Table F s
  small : ∀ c, (s.channel c).events.toNat < 2 ^ 3

theorem Served.init (F : Fds κ) : Served F (init F) where
  table := .init F
  small c := by simp [PollPoller.init, Channel.make]

theorem Table.watched_iff {F : Fds κ} {s : State κ} (h : Table F s) :
    Watched s ↔ ∀ c, s.Registered c → ∃ i pfd, s.Slot c i pfd ∧ SlotWatches pfd (s.channel c) := by
  refine forall_congr' fun c => imp_congr_right fun hreg => ?_
  obtain ⟨i, pfd, hs⟩ := h.slot c hreg
  constructor
  · rintro ⟨q, hq, hwq⟩
    rw [hs.index, Int.toNat_natCast, hs.at_index] at hq
    cases hq
    exact ⟨i, pfd, hs, hwq⟩
  · rintro ⟨j, q, hsq, hwq⟩
    refine ⟨q, ?_, hwq⟩
    rw [hsq.index, Int.toNat_natCast]
    exact hsq.at_index

variable [DecidableEq κ] {F : Fds κ} {s s' : State κ} {c : κ} {op : Channel.Op}

namespace Served

/-- The first operation on a channel. -/
theorem watched_added (h : Served F s) (hw : Watched s)
    (hnone : s.channels[(s.channel c).fd]? = none) :
    Watched (s.added c (op.events (s.channel c).events)) ↔ op.events (s.channel c).events ≠ 0 := by
  have ht := h.table
  have hpos := ht.fd_nonneg c
  have hself := Table.added_self s c (op.events (s.channel c).events)
  rw [(ht.added _ hnone).watched_iff]
  rw [ht.watched_iff] at hw
  constructor
  · intro hw' h0
    obtain ⟨i, pfd, hs, -, hfd⟩ := hw' c ((ht.registered_added _).2 (.inl rfl))
    rw [hself, if_pos h0, Table.slot_unique hs (ht.slot_added _)] at hfd
    dsimp only at hfd
    omega
  · intro h0 d hd
    by_cases hdc : d = c
    · subst hdc
      refine ⟨_, _, ht.slot_added _, ?_⟩
      rw [SlotWatches, hself]
      exact ⟨Channel.signExtend_setWidth (op.events_lt (h.small d)), (if_neg h0).symm⟩
    · obtain ⟨i, pfd, hs, hwd⟩ := hw d (((ht.registered_added _).1 hd).resolve_left hdc)
      refine ⟨i, pfd, Table.slot_added_ne _ hs hdc, ?_⟩
      rw [Table.added_ne s _ hdc]
      exact hwd

/-- A later operation: the slot's descriptor is as the channel's events were. -/
theorem watched_modified (h : Served F s) (hw : Watched s) (hreg : s.Registered c) {i : Nat}
    {pfd : PollFd} (hs : s.Slot c i pfd) :
    Watched (s.modified c (op.events (s.channel c).events) i pfd) ↔
      ((s.channel c).events = 0 → op.events (s.channel c).events = 0) := by
  have ht := h.table
  have hpos := ht.fd_nonneg c
  have hself := Table.modified_self s c (op.events (s.channel c).events) i pfd
  have hslot := ht.slot_modified (op.events (s.channel c).events) hs
  rw [(ht.modified _ hs).watched_iff]
  rw [ht.watched_iff] at hw
  obtain ⟨j, q, hsq, -, hfd⟩ := hw c hreg
  rw [← Table.slot_unique hs hsq] at hfd
  constructor
  · intro hw' h0
    by_contra hne
    obtain ⟨k, p, hsp, -, hpfd⟩ := hw' c ((Table.registered_modified _ _ _ _ _ _).2 hreg)
    rw [hself, if_neg hne, Table.slot_unique hsp hslot] at hpfd
    rw [if_pos h0] at hfd
    dsimp only at hpfd
    rw [if_neg hne] at hpfd
    omega
  · intro h0 d hd
    rw [Table.registered_modified] at hd
    by_cases hdc : d = c
    · subst hdc
      refine ⟨_, _, hslot, ?_⟩
      rw [SlotWatches, hself]
      refine ⟨Channel.signExtend_setWidth (op.events_lt (h.small d)), ?_⟩
      dsimp only
      split
      · rfl
      · next hne => rw [hfd, if_neg fun e => hne (h0 e)]
    · obtain ⟨k, p, hsp, hwd⟩ := hw d hd
      refine ⟨k, p, ht.slot_modified_ne _ hs hsp hdc, ?_⟩
      rw [Table.modified_ne s _ _ _ hdc]
      exact hwd

/-- Removing a channel moves a slot with what is in it. -/
theorem watched_removed (h : Served F s) (hw : Watched s) {last : κ} {i : Nat} {pfd qfd : PollFd}
    (hreg : s.Registered c) (hs : s.Slot c i pfd) (hlast : s.Registered last)
    (hsl : s.Slot last (s.pollfds.length - 1) qfd) : Watched (s.removed c i last) := by
  have ht := h.table
  rw [(ht.removed hreg hs hlast hsl).watched_iff]
  rw [ht.watched_iff] at hw
  intro d hd
  obtain ⟨hdc, hd⟩ := ht.registered_removed.1 hd
  obtain ⟨j, q, hsq, hwd⟩ := hw d hd
  refine ⟨_, q, ht.slot_removed hs hsl hsq hdc, ?_⟩
  by_cases hdl : d = last
  · rw [hdl, Table.removed_self]
    exact hdl ▸ hwd
  · rw [Table.removed_ne s i hdl]
    exact hwd

theorem effect {a : Channel.Call κ} (h : Served F s) (he : Effect s (channelAction s a) s') :
    Served F s' := by
  refine ⟨h.table.effect he, fun d => ?_⟩
  cases a with
  | update c op =>
    cases he with
    | add _ _ _ =>
      by_cases hd : d = c
      · rw [hd, Table.added_self]
        exact op.events_lt (h.small c)
      · rw [Table.added_ne s _ hd]
        exact h.small d
    | modify _ _ =>
      by_cases hd : d = c
      · rw [hd, Table.modified_self]
        exact op.events_lt (h.small c)
      · rw [Table.modified_ne s _ _ _ hd]
        exact h.small d
  | remove c =>
    cases he with
    | @remove _ last i _ _ _ _ _ _ _ =>
      by_cases hd : d = last
      · rw [hd, Table.removed_self]
        exact h.small last
      · rw [Table.removed_ne s i hd]
        exact h.small d

/-- Where the channels are watched, exactly the steps that meet `KeepsWatch` keep them so. -/
theorem watched_effect {a : Channel.Call κ} (h : Served F s) (hw : Watched s)
    (he : Effect s (channelAction s a) s') : Watched s' ↔ KeepsWatch s a s' := by
  cases a with
  | update c op =>
    cases he with
    | add hneg _ hnone =>
      rw [KeepsWatch, if_pos hneg]
      exact h.watched_added hw hnone
    | modify hreg hs =>
      rw [KeepsWatch, if_neg (by rw [hs.index]; omega)]
      exact h.watched_modified hw hreg hs
  | remove c =>
    cases he with
    | remove hreg hs _ hlast hsl =>
      exact iff_of_true (h.watched_removed hw hreg hs hlast hsl) trivial

theorem safe (F : Fds κ) : (channelMachine κ).Safe (Served F) := by
  intro s a h he
  obtain ⟨s', hs', hef⟩ := h.table.step_effect he
  exact ⟨s', hs', h.effect hef⟩

end Served

/-- **When `PollPoller` watches what the channels ask for**: in a run of channel operations,
after every one of them, exactly if all of them meet `KeepsWatch`. -/
theorem pollPoller_watches_iff (F : Fds κ) (as : List (Channel.Call κ)) (s : State κ)
    (hr : (channelMachine κ).run (init F) as = some s) :
    (channelMachine κ).StatesMeet Watched (init F) as ↔
      (channelMachine κ).StepsMeet KeepsWatch (init F) as := by
  refine (Served.safe F).statesMeet_iff_stepsMeet ?_ (.init F) ?_ hr
  · intro s a t h hw he ht
    obtain ⟨s', hs', hef⟩ := h.table.step_effect he
    have : (channelMachine κ).step s a = .ok s' := hs'
    rw [ht] at this
    cases this
    exact h.watched_effect hw hef
  · intro c hc
    simp [init, State.Registered] at hc

/-- Channel 5 is enabled, disabled and removed. -/
def watchRun : List (Channel.Call Nat) :=
  [.update 5 .enableReading, .update 5 .enableWriting, .update 5 .disableAll, .remove 5]

theorem watchRun_watches :
    ∃ s, (channelMachine Nat).run (init .plain) watchRun = some s ∧
      (channelMachine Nat).StatesMeet Watched (init .plain) watchRun := by
  refine ⟨_, rfl, (pollPoller_watches_iff .plain watchRun _ rfl).2 ?_⟩
  decide

/-- A channel that is disabled and enabled again asks for events, but its slot is ignored. -/
theorem reenabled_not_watched :
    ∃ s, (channelMachine Nat).run (init .plain)
        [.update 5 .enableReading, .update 5 .disableAll, .update 5 .enableReading] = some s ∧
      s.Registered 5 ∧ (s.channel 5).events = 3 ∧ s.pollfds = [⟨-6, 3, 0⟩] ∧ ¬ Watched s := by
  refine ⟨_, rfl, by decide, by decide, by decide, fun hw => ?_⟩
  obtain ⟨pfd, hp, -, hfd⟩ := hw 5 (by decide)
  cases hp
  exact absurd hfd (by decide)

end Rawmd.PollPoller
