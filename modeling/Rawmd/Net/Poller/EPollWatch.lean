import Rawmd.Net.Poller.EPollMirror

/-!
# When `EPollPoller` leaves a channel without interest in the kernel's list

`updateChannel` looks at the events of a channel only in its branch for `kAdded`: a new or a
deleted channel is added with whatever mask it has.  So along a run of channel operations no
channel with empty events is in the interest list, exactly as long as every operation that
leaves empty events finds its channel added (`KeepsOut`).
-/

namespace Rawmd.EPollPoller

variable {κ : Type}

/-- A channel's operation, then `updateChannel`. -/
def channelAction (s : State κ) : Channel.Call κ → Action κ
  | .update c op => .updateChannel c (op.events (s.channel c).events)
  | .remove c => .removeChannel c

/-- Runs of channel operations, as far as the asserts of `EPollPoller` accept them. -/
def channelMachine (κ : Type) [DecidableEq κ] : Machine (State κ) (Channel.Call κ) Fault :=
  (machine κ).via channelAction

/-- No channel with empty events is in the interest list. -/
def Quiet (s : State κ) : Prop :=
  ∀ c, (s.channel c).events = 0 → s.interest.contains (s.channel c).fd = false

/-- Only a channel that is added is left with empty events. -/
def KeepsOut (s : State κ) (a : Channel.Call κ) (_ : State κ) : Prop :=
  match a with
  | .update c op => op.events (s.channel c).events = 0 → (s.channel c).index = kAdded
  | .remove _ => True

instance decidableKeepsOut (s : State κ) (a : Channel.Call κ) (t : State κ) :
    Decidable (KeepsOut s a t) :=
  match a with
  | .update c op => inferInstanceAs
    (Decidable (op.events (s.channel c).events = 0 → (s.channel c).index = kAdded))
  | .remove _ => inferInstanceAs (Decidable True)

theorem Mirror.quiet_iff {F : Fds κ} {s : State κ} (h : Mirror F s) :
    Quiet s ↔ ∀ c, (s.channel c).events = 0 → (s.channel c).index ≠ kAdded := by
  refine forall_congr' fun c => imp_congr_right fun _ => ?_
  rw [h.contains_interest, decide_eq_false_iff_not]

variable [DecidableEq κ] {F : Fds κ} {s s' : State κ}

/-- A change of channel `c` alone. -/
theorem Mirror.quiet_put {c : κ} {events : BitVec 32} {index : Int} {channels : Std.TreeMap Int κ}
    {interest : Std.TreeMap Int (BitVec 32 × κ)} (h : Mirror F s) (hq : Quiet s)
    (h' : Mirror F (s.put c events index channels interest)) :
    Quiet (s.put c events index channels interest) ↔ (events = 0 → index ≠ kAdded) := by
  rw [h'.quiet_iff]
  rw [h.quiet_iff] at hq
  constructor
  · intro hq'
    have := hq' c
    rwa [put_self] at this
  · intro hc d
    by_cases hd : d = c
    · rw [hd, put_self]
      exact hc
    · rw [put_ne s _ _ _ _ hd]
      exact hq d

/-- Where no channel without interest is in the list, exactly the steps that meet `KeepsOut` keep
it so. -/
theorem Mirror.quiet_effect {a : Channel.Call κ} (h : Mirror F s) (hq : Quiet s)
    (he : Effect s (channelAction s a) s') : Quiet s' ↔ KeepsOut s a s' := by
  have h' := h.effect he
  cases a with
  | update c op =>
    cases he with
    | add hi =>
      rw [h.quiet_put hq h', KeepsOut, hi]
      exact imp_congr_right fun _ => by decide
    | readd hi =>
      rw [h.quiet_put hq h', KeepsOut, hi]
      exact imp_congr_right fun _ => by decide
    | modify hi h0 =>
      rw [h.quiet_put hq h', KeepsOut]
      exact imp_congr_right fun e => absurd e h0
    | disable hi h0 =>
      rw [h.quiet_put hq h', KeepsOut]
      exact iff_of_true (fun _ => by decide) fun _ => hi
  | remove c =>
    cases he with
    | removeAdded _ _ =>
      rw [h.quiet_put hq h']
      exact iff_of_true (fun _ => by decide) trivial
    | removeDeleted _ _ =>
      rw [h.quiet_put hq h']
      exact iff_of_true (fun _ => by decide) trivial

/-- **When the kernel never watches a channel without interest**: in a run of channel
operations, after every one of them, exactly if all of them meet `KeepsOut`. -/
theorem ePollPoller_quiet_iff (F : Fds κ) (as : List (Channel.Call κ)) (s : State κ)
    (hr : (channelMachine κ).run (init F) as = some s) :
    (channelMachine κ).StatesMeet Quiet (init F) as ↔
      (channelMachine κ).StepsMeet KeepsOut (init F) as := by
  refine ((Mirror.safe F).via channelAction).statesMeet_iff_stepsMeet ?_ (Mirror.init F) ?_ hr
  · intro s a t h hq he ht
    obtain ⟨s', hs', hef⟩ := h.step_effect he
    have : (machine κ).step s (channelAction s a) = .ok t := ht
    rw [hs'] at this
    cases this
    exact h.quiet_effect hq hef
  · intro c _
    simp [init]

/-- Channel 5 is enabled, disabled, enabled again, disabled and removed. -/
def quietRun : List (Channel.Call Nat) :=
  [.update 5 .enableReading, .update 5 .disableAll, .update 5 .enableWriting,
    .update 5 .disableAll, .remove 5]

theorem quietRun_quiet :
    ∃ s, (channelMachine Nat).run (init .plain) quietRun = some s ∧
      (channelMachine Nat).StatesMeet Quiet (init .plain) quietRun :=
  ⟨_, rfl, (ePollPoller_quiet_iff .plain quietRun _ rfl).2 (by decide)⟩

/-- A second `disableAll` puts the channel back into the interest list, with an empty mask. -/
theorem disabled_twice_listed :
    ∃ s, (channelMachine Nat).run (init .plain)
        [.update 5 .enableReading, .update 5 .disableAll, .update 5 .disableAll] = some s ∧
      (s.channel 5).events = 0 ∧ s.interest[(5 : Int)]? = some (0, 5) ∧ ¬ Quiet s := by
  refine ⟨_, rfl, by decide, by decide, fun hq => ?_⟩
  exact absurd (hq 5 (by decide)) (by decide)

end Rawmd.EPollPoller
