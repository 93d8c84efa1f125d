import Rawmd.Net.Poller.PollWatch
import Rawmd.Net.Poller.EPollWatch

/-!
# Which channel operations the two pollers accept

`protocol` is what programs may do with their channels, whatever the poller: any operation at
any time, and `remove()` on a channel that has been updated since its last `remove()` and asks
for nothing.  `EPollPoller` accepts every such run.  `PollPoller` does not set the index of a
removed channel back, and hides a descriptor only from the second update on; so it accepts
exactly the runs in which no channel is updated after a `remove()`, and none is removed after a
single update (`Kept`).

    EPollPoller takes every legal run                                   (ePollPoller_accepts)
    PollPoller takes a legal run iff every call of it is `Kept`         (pollPoller_accepts_iff)
-/

namespace Rawmd

namespace Channel

/-- What has been done with a channel: the events it asks for, the number of updates since its
construction or its last `remove()`, and whether there was a `remove()`. -/
structure Use where
  events : BitVec 32
  updates : Nat
  removed : Bool

def Use.fresh : Use := ⟨kNoneEvent, 0, false⟩

variable {κ : Type} [DecidableEq κ]

/-- A call is legal unless it is a `remove()` of a channel that is not registered or that asks
for events. -/
def legal (u : κ → Use) : Call κ → Bool
  | .update _ _ => true
  | .remove c => decide (0 < (u c).updates) && decide ((u c).events = 0)

def track (u : κ → Use) : Call κ → κ → Use
  | .update c op => Function.update u c
    { u c with events := op.events (u c).events, updates := (u c).updates + 1 }
  | .remove c => Function.update u c { u c with updates := 0, removed := true }

def protocol (κ : Type) [DecidableEq κ] : Machine (κ → Use) (Call κ) Empty :=
  ⟨legal, fun u a => .ok (track u a)⟩

/-- The call does not update a removed channel, nor remove one after its first update. -/
def Kept (u : κ → Use) (a : Call κ) (_ : κ → Use) : Prop :=
  match a with
  | .update c _ => (u c).removed = false
  | .remove c => 2 ≤ (u c).updates

instance decidableKept (u : κ → Use) (a : Call κ) (u' : κ → Use) : Decidable (Kept u a u') :=
  match a with
  | .update c _ => inferInstanceAs (Decidable ((u c).removed = false))
  | .remove c => inferInstanceAs (Decidable (2 ≤ (u c).updates))

end Channel

open Channel (Use Call)

/-! ## `EPollPoller` -/

namespace EPollPoller

variable {κ : Type}

structure Follows (F : Fds κ) (s : State κ) (u : κ → Use) : Prop where
  mirror : Mirror F s
  events : ∀ c, (s.channel c).events = (u c).events
  registered : ∀ c, (s.channel c).index ≠ kNew ↔ 0 < (u c).updates

theorem Follows.init (F : Fds κ) : Follows F (init F) fun _ => .fresh where
  mirror := .init F
  events _ := rfl
  registered _ := by simp [EPollPoller.init, Channel.make, kNew, Use.fresh]

variable [DecidableEq κ] {F : Fds κ} {s s' : State κ} {u : κ → Use}

/-- A change of channel `c` alone. -/
theorem Follows.put {c : κ} {v : Use} {events : BitVec 32} {index : Int}
    {channels : Std.TreeMap Int κ} {interest : Std.TreeMap Int (BitVec 32 × κ)}
    (h : Follows F s u) (hm : Mirror F (s.put c events index channels interest))
    (he : events = v.events) (hi : index ≠ kNew ↔ 0 < v.updates) :
    Follows F (s.put c events index channels interest) (Function.update u c v) := by
  refine ⟨hm, fun d => ?_, fun d => ?_⟩
  · by_cases hd : d = c
    · rw [hd, put_self, Function.update_self]
      exact he
    · rw [put_ne s _ _ _ _ hd, Function.update_of_ne hd]
      exact h.events d
  · by_cases hd : d = c
    · rw [hd, put_self, Function.update_self]
      exact hi
    · rw [put_ne s _ _ _ _ hd, Function.update_of_ne hd]
      exact h.registered d

theorem Follows.effect {a : Call κ} (h : Follows F s u) (he : Effect s (channelAction s a) s') :
    Follows F s' (Channel.track u a) := by
  have hm := h.mirror.effect he
  cases a with
  | update c op =>
    cases he with
    | add _ => exact h.put hm (by rw [h.events]) (by simp [kAdded, kNew])
    | readd _ => exact h.put hm (by rw [h.events]) (by simp [kAdded, kNew])
    | modify _ _ => exact h.put hm (by rw [h.events]) (by simp [kAdded, kNew])
    | disable _ _ => exact h.put hm (by rw [h.events]) (by simp [kDeleted, kNew])
  | remove c =>
    cases he with
    | removeAdded _ _ => exact h.put hm (h.events c) (by simp)
    | removeDeleted _ _ => exact h.put hm (h.events c) (by simp)

/-- The asserts hold for every legal call. -/
theorem Follows.accepts {a : Call κ} (h : Follows F s u) (hl : Channel.legal u a = true) :
    (channelMachine κ).enabled s a = true := by
  have hm := h.mirror
  cases a with
  | update c op =>
    show (s.setEvents c _).updateAsserts c = true
    have hself : (s.setEvents c (op.events (s.channel c).events)).channel c =
        { s.channel c with events := op.events (s.channel c).events } :=
      Function.update_self _ _ _
    rw [State.updateAsserts, hself]
    dsimp only
    split
    · next hi =>
      -- what is registered under the descriptor of `c` is `c`
      rw [decide_eq_true_eq]
      show s.channels[(s.channel c).fd]? = none
      cases hd : s.channels[(s.channel c).fd]? with
      | none => rfl
      | some d =>
        obtain ⟨hfd, hne⟩ := (hm.registered _ d).1 hd
        rw [hm.fd] at hfd
        rw [← F.inj hfd] at hne
        exact absurd hi hne
    · next hi =>
      have hreg : s.channels[(s.channel c).fd]? = some c :=
        (hm.registered _ c).2 ⟨hm.fd c, hi⟩
      have hor := (hm.index c).resolve_left hi
      rw [Bool.and_eq_true, Bool.or_eq_true, decide_eq_true_eq, decide_eq_true_eq,
        decide_eq_true_eq]
      exact ⟨hreg, hor.symm⟩
  | remove c =>
    simp only [Channel.legal, Bool.and_eq_true, decide_eq_true_eq] at hl
    have hi := (h.registered c).2 hl.1
    show s.removeAsserts c = true
    simp only [State.removeAsserts, Bool.and_eq_true, Bool.or_eq_true, decide_eq_true_eq,
      Channel.isNoneEvent_iff]
    exact ⟨⟨(hm.registered _ c).2 ⟨hm.fd c, hi⟩, (h.events c).trans hl.2⟩,
      (hm.index c).resolve_left hi⟩

theorem ePollPoller_accepts (F : Fds κ) {calls : List (Call κ)} {u : κ → Use}
    (hl : (Channel.protocol κ).run (fun _ => .fresh) calls = some u) :
    ∃ s, (channelMachine κ).run (init F) calls = some s := by
  refine (Machine.exists_run_iff (P := fun _ _ _ => True) (R := Follows F) ?_ ?_ (.init F) hl).2
    (Machine.stepsMeet_true _ _)
  · intro s h a h' hR he hh _
    have hen := hR.accepts he
    obtain ⟨s', hs', hef⟩ := hR.mirror.step_effect hen
    cases hh
    exact ⟨hen, s', hs', hR.effect hef⟩
  · intros
    trivial

end EPollPoller

/-! ## `PollPoller` -/

namespace PollPoller

variable {κ : Type}

/-- The index is negative on a new channel only.  A channel that asks for nothing is hidden in
its slot from its second update on. -/
structure Follows (F : Fds κ) (s : State κ) (u : κ → Use) : Prop where
  served : Served F s
  events : ∀ c, (s.channel c).events = (u c).events
  registered : ∀ c, s.Registered c ↔ 0 < (u c).updates
  index : ∀ c, (s.channel c).index < 0 ↔ (u c).updates = 0 ∧ (u c).removed = false
  removed : ∀ c, (u c).removed = true → (u c).updates = 0
  slot : ∀ c i pfd, s.Registered c → s.Slot c i pfd →
    pfd.events.signExtend 32 = (s.channel c).events ∧
      ((u c).events = 0 → (pfd.fd = -(s.channel c).fd - 1 ↔ 2 ≤ (u c).updates))

theorem Follows.init (F : Fds κ) : Follows F (init F) fun _ => .fresh where
  served := .init F
  events _ := rfl
  registered _ := by simp [PollPoller.init, State.Registered, Use.fresh]
  index _ := by simp [PollPoller.init, Channel.make, Use.fresh]
  removed _ h := by cases h
  slot _ _ _ h := by simp [PollPoller.init, State.Registered] at h

variable [DecidableEq κ] {F : Fds κ} {s s' : State κ} {u : κ → Use} {c : κ}

theorem slotAsserts_iff (h : Table F s) {ok : PollFd → Bool} {i : Nat} {pfd : PollFd}
    (hs : s.Slot c i pfd) : s.slotAsserts c ok = true ↔ s.Registered c ∧ ok pfd = true := by
  constructor
  · intro ha
    obtain ⟨hreg, j, qfd, hs', hok⟩ := h.slotAsserts_slot ha
    rw [Table.slot_unique hs hs']
    exact ⟨hreg, hok⟩
  · rintro ⟨hreg, hok⟩
    simp only [State.slotAsserts, Bool.and_eq_true, decide_eq_true_eq]
    refine ⟨⟨hreg, by rw [hs.index]; omega⟩, ?_⟩
    rw [hs.index, Int.toNat_natCast, hs.at_index]
    exact hok

/-- The asserts of `updateChannel` hold unless the channel was removed. -/
theorem Follows.updateAsserts_iff (h : Follows F s u) (events : BitVec 32) :
    (s.setEvents c events).updateAsserts c = true ↔ (u c).removed = false := by
  have ht := h.served.table
  have ht' := ht.setEvents c events
  rw [State.updateAsserts, Table.setEvents_index, Table.setEvents_fd]
  have hreg : (s.setEvents c events).Registered c ↔ 0 < (u c).updates := by
    rw [← h.registered, State.Registered, Table.setEvents_fd]
    exact Iff.rfl
  split
  · next hneg =>
    obtain ⟨h0, hrem⟩ := (h.index c).1 hneg
    refine iff_of_true ?_ hrem
    rw [decide_eq_true_eq]
    show s.channels[(s.channel c).fd]? = none
    cases hd : s.channels[(s.channel c).fd]? with
    | none => rfl
    | some d =>
      have hfd := ht.key _ d hd
      rw [ht.fd] at hfd
      rw [← F.inj hfd] at hd
      have := (h.registered c).1 hd
      omega
  · next hneg =>
    by_cases h0 : 0 < (u c).updates
    · have hrem : (u c).removed = false := by
        by_contra hne
        have := h.removed c (by simpa using hne)
        omega
      refine iff_of_true ?_ hrem
      obtain ⟨i, pfd, hs⟩ := ht'.slot c (hreg.2 h0)
      rw [slotAsserts_iff ht' hs]
      refine ⟨hreg.2 h0, decide_eq_true ?_⟩
      rw [← slotFd_eq_iff (ht.fd_nonneg c), hs.fd, Table.setEvents_fd]
    · -- not registered, but its index is not negative
      refine iff_of_false (fun ha => h0 (hreg.1 (ht'.slotAsserts_slot ha).1)) fun hrem => ?_
      exact hneg ((h.index c).2 ⟨by omega, hrem⟩)

/-- Those of `removeChannel` hold if there were two updates. -/
theorem Follows.removeAsserts_iff (h : Follows F s u) (hreg : 0 < (u c).updates)
    (h0 : (u c).events = 0) : s.removeAsserts c = true ↔ 2 ≤ (u c).updates := by
  have ht := h.served.table
  have hr := (h.registered c).2 hreg
  obtain ⟨i, pfd, hs⟩ := ht.slot c hr
  obtain ⟨hev, hfd⟩ := h.slot c i pfd hr hs
  have hnone : (s.channel c).isNoneEvent = true := by
    rw [Channel.isNoneEvent_iff, h.events]
    exact h0
  rw [State.removeAsserts, hnone, Bool.true_and, slotAsserts_iff ht hs, decide_eq_true_eq]
  constructor
  · rintro ⟨-, he, -⟩
    exact (hfd h0).1 he
  · intro h2
    exact ⟨hr, (hfd h0).2 h2, hev⟩

/-- The first update of a channel. -/
theorem Follows.added (h : Follows F s u) (op : Channel.Op) (hrem : (u c).removed = false)
    (h0 : (u c).updates = 0) (hs' : Served F (s.added c (op.events (s.channel c).events))) :
    Follows F (s.added c (op.events (s.channel c).events)) (Channel.track u (.update c op)) := by
  have ht := h.served.table
  have hself := Table.added_self s c (op.events (s.channel c).events)
  refine ⟨hs', fun d => ?_, fun d => ?_, fun d => ?_, fun d hd => ?_, fun d i pfd hd hsl => ?_⟩
  all_goals simp only [Channel.track, Function.update_apply] at *
  · split
    · next hdc => rw [hdc, hself, h.events c]
    · next hdc => rw [Table.added_ne s _ hdc, h.events d]
  · rw [ht.registered_added]
    split
    · next hdc => simp [hdc]
    · next hdc => rw [h.registered d, or_iff_right hdc]
  · split
    · next hdc =>
      rw [hdc, hself]
      simp
    · next hdc => rw [Table.added_ne s _ hdc, h.index d]
  · split at hd
    · next hdc =>
      simp only at hd
      rw [hrem] at hd
      cases hd
    · next hdc =>
      rw [if_neg hdc]
      exact h.removed d hd
  · split
    · next hdc =>
      -- the slot holds the plain descriptor
      subst hdc
      rw [Table.slot_unique hsl (ht.slot_added _), hself]
      refine ⟨Channel.signExtend_setWidth (op.events_lt (h.served.small d)), fun _ => ?_⟩
      have := ht.fd_nonneg d
      simp only [h0]
      omega
    · next hdc =>
      have hreg := ((ht.registered_added _).1 hd).resolve_left hdc
      obtain ⟨j, qfd, hsd⟩ := ht.slot d hreg
      rw [Table.slot_unique hsl (Table.slot_added_ne _ hsd hdc), Table.added_ne s _ hdc]
      exact h.slot d j qfd hreg hsd

/-- A later update; it hides the descriptor if nothing is asked for. -/
theorem Follows.modified (h : Follows F s u) (op : Channel.Op) {i : Nat} {pfd : PollFd}
    (hrem : (u c).removed = false) (hreg : s.Registered c) (hs : s.Slot c i pfd)
    (hs' : Served F (s.modified c (op.events (s.channel c).events) i pfd)) :
    Follows F (s.modified c (op.events (s.channel c).events) i pfd)
      (Channel.track u (.update c op)) := by
  have ht := h.served.table
  have hpos := (h.registered c).1 hreg
  have hself := Table.modified_self s c (op.events (s.channel c).events) i pfd
  refine ⟨hs', fun d => ?_, fun d => ?_, fun d => ?_, fun d hd => ?_, fun d j qfd hd hsl => ?_⟩
  all_goals simp only [Channel.track, Function.update_apply] at *
  · split
    · next hdc => rw [hdc, hself, h.events c]
    · next hdc => rw [Table.modified_ne s _ _ _ hdc, h.events d]
  · rw [Table.registered_modified, h.registered d]
    split
    · next hdc =>
      rw [hdc]
      simp only
      omega
    · rfl
  · split
    · next hdc =>
      rw [hdc, hself]
      simp only
      rw [h.index c]
      omega
    · next hdc => rw [Table.modified_ne s _ _ _ hdc, h.index d]
  · split at hd
    · next hdc =>
      simp only at hd
      rw [hrem] at hd
      cases hd
    · next hdc =>
      rw [if_neg hdc]
      exact h.removed d hd
  · rw [Table.registered_modified] at hd
    split
    · next hdc =>
      subst hdc
      rw [Table.slot_unique hsl (ht.slot_modified _ hs), hself]
      refine ⟨Channel.signExtend_setWidth (op.events_lt (h.served.small d)), fun h0 => ?_⟩
      rw [← h.events d] at h0
      rw [if_pos h0]
      exact iff_of_true rfl (Nat.succ_le_succ hpos)
    · next hdc =>
      obtain ⟨k, rfd, hsd⟩ := ht.slot d hd
      rw [Table.slot_unique hsl (ht.slot_modified_ne _ hs hsd hdc), Table.modified_ne s _ _ _ hdc]
      exact h.slot d k rfd hd hsd

/-- A removal leaves the index of the removed channel as it is. -/
theorem Follows.removed_channel (h : Follows F s u) {last : κ} {i : Nat} {pfd qfd : PollFd}
    (hs : s.Slot c i pfd) (hsl : s.Slot last (s.pollfds.length - 1) qfd)
    (hs' : Served F (s.removed c i last)) :
    Follows F (s.removed c i last) (Channel.track u (.remove c)) := by
  have ht := h.served.table
  have hevents : ∀ d, ((s.removed c i last).channel d).events = (s.channel d).events := by
    intro d
    by_cases hdl : d = last
    · rw [hdl, Table.removed_self]
    · rw [Table.removed_ne s i hdl]
  have hindex : ∀ d, ((s.removed c i last).channel d).index < 0 ↔ (s.channel d).index < 0 := by
    intro d
    by_cases hdl : d = last
    · rw [hdl, Table.removed_self, hsl.index]
      simp only
      omega
    · rw [Table.removed_ne s i hdl]
  refine ⟨hs', fun d => ?_, fun d => ?_, fun d => ?_, fun d hd => ?_, fun d j rfd hd hsd => ?_⟩
  all_goals simp only [Channel.track, Function.update_apply] at *
  · rw [hevents, h.events d]
    split
    · next hdc => rw [hdc]
    · rfl
  · rw [ht.registered_removed]
    split
    · next hdc => simp [hdc]
    · next hdc => rw [h.registered d, and_iff_right hdc]
  · rw [hindex]
    split
    · next hdc =>
      rw [hdc, hs.index]
      simp
    · exact h.index d
  · split
    · rfl
    · next hdc =>
      rw [if_neg hdc] at hd
      exact h.removed d hd
  · obtain ⟨hdc, hd⟩ := ht.registered_removed.1 hd
    obtain ⟨k, tfd, hold⟩ := ht.slot d hd
    rw [if_neg hdc, Table.slot_unique hsd (ht.slot_removed hs hsl hold hdc), hevents,
      Table.removed_fd]
    exact h.slot d k tfd hd hold

theorem Follows.effect {a : Call κ} (h : Follows F s u) (hk : Channel.Kept u a (Channel.track u a))
    (he : Effect s (channelAction s a) s') : Follows F s' (Channel.track u a) := by
  have hs' := h.served.effect he
  cases a with
  | update c op =>
    cases he with
    | add hneg _ _ => exact h.added op hk ((h.index c).1 hneg).1 hs'
    | modify hreg hs => exact h.modified op hk hreg hs hs'
  | remove c =>
    cases he with
    | remove _ hs _ _ hsl => exact h.removed_channel hs hsl hs'

theorem Follows.accepts_iff {a : Call κ} (h : Follows F s u) (hl : Channel.legal u a = true) :
    (channelMachine κ).enabled s a = true ↔ Channel.Kept u a (Channel.track u a) := by
  cases a with
  | update c op => exact h.updateAsserts_iff _
  | remove c =>
    simp only [Channel.legal, Bool.and_eq_true, decide_eq_true_eq] at hl
    exact h.removeAsserts_iff hl.1 hl.2

theorem pollPoller_accepts_iff (F : Fds κ) {calls : List (Call κ)} {u : κ → Use}
    (hl : (Channel.protocol κ).run (fun _ => .fresh) calls = some u) :
    (∃ s, (channelMachine κ).run (init F) calls = some s) ↔
      (Channel.protocol κ).StepsMeet Channel.Kept (fun _ => .fresh) calls := by
  refine Machine.exists_run_iff (R := Follows F) ?_ ?_ (.init F) hl
  · intro s h a h' hR he hh hk
    cases hh
    have hen := (hR.accepts_iff he).2 hk
    obtain ⟨s', hs', hef⟩ := hR.served.table.step_effect hen
    exact ⟨hen, s', hs', hR.effect hk hef⟩
  · intro s h a h' hR he hh hen
    cases hh
    exact (hR.accepts_iff he).1 hen

end PollPoller

variable {κ : Type} [DecidableEq κ]

/-- **When both pollers accept a program's channel operations**: for a legal run, no assert of
either fails exactly if no channel is updated after a `remove()` and none is removed after a
single update. -/
theorem pollers_accept_iff (F : Fds κ) (calls : List (Call κ)) (u : κ → Use)
    (hl : (Channel.protocol κ).run (fun _ => .fresh) calls = some u) :
    ((∃ s, (PollPoller.channelMachine κ).run (PollPoller.init F) calls = some s) ∧
      ∃ s, (EPollPoller.channelMachine κ).run (EPollPoller.init F) calls = some s) ↔
      (Channel.protocol κ).StepsMeet Channel.Kept (fun _ => .fresh) calls := by
  rw [← PollPoller.pollPoller_accepts_iff F hl]
  exact and_iff_left (EPollPoller.ePollPoller_accepts F hl)

/-- Two channels are enabled, disabled and removed. -/
def keptCalls : List (Call Nat) :=
  [.update 5 .enableReading, .update 6 .disableAll, .update 6 .disableAll, .update 5 .disableAll,
    .remove 5, .remove 6]

theorem keptCalls_accepted :
    (∃ u, (Channel.protocol Nat).run (fun _ => .fresh) keptCalls = some u) ∧
      (∃ s, (PollPoller.channelMachine Nat).run (PollPoller.init .plain) keptCalls = some s) ∧
      ∃ s, (EPollPoller.channelMachine Nat).run (EPollPoller.init .plain) keptCalls = some s :=
  ⟨⟨_, rfl⟩, (pollers_accept_iff .plain keptCalls _ rfl).2 (by decide)⟩

/-- `~Acceptor` where `listen()` was never called: `disableAll` and `remove` on a new channel.
`EPollPoller` accepts it, an assert of `PollPoller` fails. -/
theorem acceptor_without_listen_refused :
    (∃ u, (Channel.protocol Nat).run (fun _ => .fresh) [.update 5 .disableAll, .remove 5] =
      some u) ∧
      (PollPoller.channelMachine Nat).run (PollPoller.init .plain)
        [.update 5 .disableAll, .remove 5] = none ∧
      ∃ s, (EPollPoller.channelMachine Nat).run (EPollPoller.init .plain)
        [.update 5 .disableAll, .remove 5] = some s :=
  ⟨⟨_, rfl⟩, rfl, ⟨_, rfl⟩⟩

end Rawmd
