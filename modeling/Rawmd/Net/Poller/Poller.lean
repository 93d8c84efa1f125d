import Rawmd.Lib.Except
import Rawmd.Net.Poller.PollPoller
import Rawmd.Net.Poller.EPollPoller

/-!
# `net/Poller.h`, `net/poller/DefaultPoller.cpp`: either poller

The users of a poller see `channels_` and the channels themselves.  `Sets c r` is what an update
(`r = some c`) or a removal (`r = none`) of channel `c` that meets no fault does to them, in any
state of either poller.

    updateChannel c op = .ok p' → p.Sets c (some c) p'              (updateChannel_sets)
    removeChannel c = .ok p' → p.hasChannel c ∧ p.Sets c none p'    (removeChannel_sets)
-/

namespace Rawmd

inductive Poller (κ : Type) where
  | poll (s : PollPoller.State κ)
  | ePoll (s : EPollPoller.State κ)

namespace Poller

inductive Fault where
  | poll (e : PollPoller.Fault)
  | ePoll (e : EPollPoller.Fault)
deriving DecidableEq

variable {κ : Type}

/-- `newDefaultPoller`, by whether `RAWMD_USE_POLL` is set.  No channel has been constructed. -/
def newDefaultPoller (usePoll : Bool) : Poller κ :=
  if usePoll then .poll ⟨fun _ => .make (-1), [], ∅, []⟩
  else .ePoll ⟨fun _ => .make (-1), ∅, EPollPoller.kInitEventListSize, ∅, [], 0⟩

def channel : Poller κ → κ → Channel
  | .poll s => s.channel
  | .ePoll s => s.channel

def channels : Poller κ → Std.TreeMap Int κ
  | .poll s => s.channels
  | .ePoll s => s.channels

variable [DecidableEq κ] (p : Poller κ) (c : κ)

def hasChannel : Bool := decide (p.channels[(p.channel c).fd]? = some c)

/-- Channel `c` is constructed. -/
def construct (fd : Int) : Poller κ :=
  match p with
  | .poll s => .poll (s.setChannel c (.make fd))
  | .ePoll s => .ePoll (s.setChannel c (.make fd))

/-- The operations of `Channel` that end in `update()`. -/
def updateChannel (op : Channel.Op) : Except Fault (Poller κ) :=
  match p with
  | .poll s =>
    ((s.setEvents c (op.events (s.channel c).events)).updateChannel c).mapError .poll |>.map .poll
  | .ePoll s =>
    ((s.setEvents c (op.events (s.channel c).events)).updateChannel c).mapError .ePoll
      |>.map .ePoll

/-- `Channel::remove`, whose assert is one of the poller's. -/
def removeChannel : Except Fault (Poller κ) :=
  match p with
  | .poll s => (s.removeChannel c).mapError .poll |>.map .poll
  | .ePoll s => (s.removeChannel c).mapError .ePoll |>.map .ePoll

/-- The descriptor is closed, and the kernel drops it from the interest list. -/
def closed (fd : Int) : Poller κ :=
  match p with
  | .poll s => .poll s
  | .ePoll s => .ePoll { s with interest := s.interest.erase fd }

/-- The entry of channel `c` is set to `r`, and nothing else that users see is changed. -/
structure Sets (r : Option κ) (p' : Poller κ) : Prop where
  fd : ∀ d, (p'.channel d).fd = (p.channel d).fd
  channels : ∀ x, p'.channels[x]? = if x = (p.channel c).fd then r else p.channels[x]?

end Poller

/-! ## Entries of a map -/

theorem getElem?_insert_key {α β : Type} [Ord α] [Std.TransOrd α] [Std.LawfulEqOrd α]
    [DecidableEq α] (m : Std.TreeMap α β) (k x : α) (v : β) :
    (m.insert k v)[x]? = if x = k then some v else m[x]? := by
  simp only [Std.TreeMap.getElem?_insert, Std.LawfulEqCmp.compare_eq_iff_eq]
  exact if_congr eq_comm rfl rfl

theorem getElem?_erase_key {α β : Type} [Ord α] [Std.TransOrd α] [Std.LawfulEqOrd α]
    [DecidableEq α] (m : Std.TreeMap α β) (k x : α) :
    (m.erase k)[x]? = if x = k then none else m[x]? := by
  simp only [Std.TreeMap.getElem?_erase, Std.LawfulEqCmp.compare_eq_iff_eq]
  exact if_congr eq_comm rfl rfl

/-- Nothing is set where the entry is there already. -/
theorem getElem?_same {β : Type} {m : Std.TreeMap Int β} {k : Int} {r : Option β} (h : m[k]? = r)
    (x : Int) : m[x]? = if x = k then r else m[x]? := by
  split
  · next hx => rw [hx, h]
  · rfl

/-! ## What the two pollers do -/

variable {κ : Type} [DecidableEq κ] {c : κ}

theorem update_fd (channel : κ → Channel) (ch : Channel) (h : ch.fd = (channel c).fd) (d : κ) :
    (Function.update channel c ch d).fd = (channel d).fd := by
  rw [Function.update_apply]
  split
  · next hd => rw [hd, h]
  · rfl

namespace PollPoller

variable {s s' : State κ}

theorem updateChannel_sets (h : s.updateChannel c = .ok s') :
    (Poller.poll s).Sets c (some c) (.poll s') := by
  unfold State.updateChannel at h
  simp only at h
  split at h
  · cases h
  · next ha =>
    split at h
    · cases h
      exact ⟨update_fd _ _ rfl, fun x => getElem?_insert_key _ _ x _⟩
    · next hi =>
      simp only [Bool.not_eq_false, State.updateAsserts, if_neg hi, State.slotAsserts,
        Bool.and_eq_true, decide_eq_true_eq] at ha
      split at h
      · cases h
        exact ⟨fun _ => rfl, getElem?_same ha.1.1⟩
      · cases h

theorem removeChannel_sets (h : s.removeChannel c = .ok s') :
    s.channels[(s.channel c).fd]? = some c ∧ (Poller.poll s).Sets c none (.poll s') := by
  unfold State.removeChannel at h
  simp only at h
  split at h
  · cases h
  · next ha =>
    simp only [Bool.not_eq_false, State.removeAsserts, State.slotAsserts, Bool.and_eq_true,
      decide_eq_true_eq] at ha
    have hreg := ha.2.1.1
    have hn : s.channels.contains (s.channel c).fd = true := contains_of_some hreg
    refine ⟨hreg, ?_⟩
    simp only [hn, if_true, ne_eq, not_true_eq_false, if_false] at h
    split at h
    · cases h
      exact ⟨fun _ => rfl, getElem?_erase_key _ _⟩
    · split at h
      · split at h
        · cases h
          exact ⟨update_fd _ _ rfl, getElem?_erase_key _ _⟩
        · cases h
      · cases h

end PollPoller

namespace EPollPoller

variable {s s' : State κ}

omit [DecidableEq κ] in
theorem update_frame {operation : Ctl} (h : s.update operation c = .ok s') :
    s'.channel = s.channel ∧ s'.channels = s.channels := by
  unfold State.update at h
  simp only at h
  split at h
  · cases h
    exact ⟨rfl, rfl⟩
  · split at h
    · cases h
      exact ⟨rfl, rfl⟩
    · cases h

theorem setIndex_fd (s : State κ) (c d : κ) (index : Int) :
    ((s.setIndex c index).channel d).fd = (s.channel d).fd :=
  update_fd s.channel { s.channel c with index := index } rfl d

theorem updateChannel_sets (h : s.updateChannel c = .ok s') :
    (Poller.ePoll s).Sets c (some c) (.ePoll s') := by
  unfold State.updateChannel at h
  simp only at h
  split at h
  · cases h
  · next ha =>
    simp only [Bool.not_eq_false, State.updateAsserts] at ha
    split at h
    · -- a new channel, or one that is deleted from the interest list
      obtain ⟨hch, hchs⟩ := update_frame h
      by_cases hi : (s.channel c).index = kNew
      · rw [if_pos hi] at hch hchs
        refine ⟨fun d => ?_, fun x => ?_⟩
        · rw [Poller.channel, hch]
          exact setIndex_fd _ c d kAdded
        · rw [Poller.channels, hchs]
          exact getElem?_insert_key _ _ x _
      · rw [if_neg hi] at hch hchs ha
        rw [Bool.and_eq_true, decide_eq_true_eq] at ha
        refine ⟨fun d => ?_, fun x => ?_⟩
        · rw [Poller.channel, hch]
          exact setIndex_fd _ c d kAdded
        · rw [Poller.channels, hchs]
          exact getElem?_same ha.1 x
    · next hi =>
      rw [if_neg (fun hk => hi (.inl hk)), Bool.and_eq_true, decide_eq_true_eq] at ha
      split at h
      · cases ht : s.update .del c with
        | error e =>
          rw [ht] at h
          cases h
        | ok t =>
          rw [ht] at h
          cases h
          obtain ⟨hch, hchs⟩ := update_frame ht
          refine ⟨fun d => ?_, fun x => ?_⟩
          · rw [Poller.channel, setIndex_fd, hch]
            rfl
          · show t.channels[x]? = _
            rw [hchs]
            exact getElem?_same ha.1 x
      · obtain ⟨hch, hchs⟩ := update_frame h
        refine ⟨fun d => ?_, fun x => ?_⟩
        · rw [Poller.channel, hch]
          rfl
        · rw [Poller.channels, hchs]
          exact getElem?_same ha.1 x

theorem removeChannel_sets (h : s.removeChannel c = .ok s') :
    s.channels[(s.channel c).fd]? = some c ∧ (Poller.ePoll s).Sets c none (.ePoll s') := by
  unfold State.removeChannel at h
  simp only at h
  split at h
  · cases h
  · next ha =>
    simp only [Bool.not_eq_false, State.removeAsserts, Bool.and_eq_true, decide_eq_true_eq] at ha
    have hreg := ha.1.1
    have hn : s.channels.contains (s.channel c).fd = true := contains_of_some hreg
    refine ⟨hreg, ?_⟩
    simp only [hn, if_true, ne_eq, not_true_eq_false, if_false] at h
    split at h
    · cases ht : State.update { s with channels := s.channels.erase (s.channel c).fd } .del c with
      | error e =>
        rw [ht] at h
        cases h
      | ok t =>
        rw [ht] at h
        cases h
        obtain ⟨hch, hchs⟩ := update_frame ht
        refine ⟨fun d => ?_, fun x => ?_⟩
        · rw [Poller.channel, setIndex_fd, hch]
          rfl
        · show t.channels[x]? = _
          rw [hchs]
          exact getElem?_erase_key _ _ x
    · cases h
      exact ⟨fun d => setIndex_fd _ c d kNew, getElem?_erase_key _ _⟩

end EPollPoller

namespace Poller

variable {p p' : Poller κ}

omit [DecidableEq κ] in
theorem Sets.of_setEvents {q : Poller κ} {r : Option κ} (h : q.Sets c r p')
    (hfd : ∀ d, (q.channel d).fd = (p.channel d).fd) (hch : q.channels = p.channels) :
    p.Sets c r p' := by
  refine ⟨fun d => (h.fd d).trans (hfd d), fun x => ?_⟩
  rw [h.channels, hch, hfd]

theorem updateChannel_sets {op : Channel.Op} (h : p.updateChannel c op = .ok p') :
    p.Sets c (some c) p' := by
  cases p with
  | poll s =>
    obtain ⟨t, ht, rfl⟩ := Except.map_mapError_ok h
    have hsets := PollPoller.updateChannel_sets ht
    refine hsets.of_setEvents (p := .poll s) (fun d => ?_) rfl
    exact update_fd s.channel { s.channel c with events := op.events (s.channel c).events } rfl d
  | ePoll s =>
    obtain ⟨t, ht, rfl⟩ := Except.map_mapError_ok h
    have hsets := EPollPoller.updateChannel_sets ht
    refine hsets.of_setEvents (p := .ePoll s) (fun d => ?_) rfl
    exact update_fd s.channel { s.channel c with events := op.events (s.channel c).events } rfl d

theorem removeChannel_sets (h : p.removeChannel c = .ok p') :
    p.hasChannel c = true ∧ p.Sets c none p' := by
  cases p with
  | poll s =>
    obtain ⟨t, ht, rfl⟩ := Except.map_mapError_ok h
    obtain ⟨hreg, hsets⟩ := PollPoller.removeChannel_sets ht
    exact ⟨decide_eq_true hreg, hsets⟩
  | ePoll s =>
    obtain ⟨t, ht, rfl⟩ := Except.map_mapError_ok h
    obtain ⟨hreg, hsets⟩ := EPollPoller.removeChannel_sets ht
    exact ⟨decide_eq_true hreg, hsets⟩

end Poller

end Rawmd
