import Rawmd.Net.Poller.Poller
import Rawmd.Net.Poller.PollActive

/-!
# The maps of `PollPoller` while channels come and go

`Table` is about channels that live on, each with a descriptor of its own.  Here channels are
constructed and destroyed, and addresses and descriptors are used again.  What is left (`Keyed`)
is that `channels_` is keyed by the descriptors of the channels in it, and that every slot stands
for a key of its own; `index_` does not matter.  It is enough for `poll`.

    Keyed s → updateChannel, removeChannel keep it             (Keyed.updateChannel, .removeChannel)
    Keyed s → s.kernelWrites revents → poll reports each registered channel at most once
                                                               (Keyed.poll, Keyed.reported)
-/

namespace Rawmd.PollPoller

variable {κ : Type} {s s' : State κ} {c : κ}

/-- The descriptors that the slots stand for. -/
def State.slotFds (s : State κ) : List Int := s.pollfds.map fun pfd => slotFd pfd.fd

structure Keyed (s : State κ) : Prop where
  key : ∀ (fd : Int) (c : κ), s.channels[fd]? = some c → 0 ≤ fd ∧ (s.channel c).fd = fd
  distinct : s.slotFds.Nodup
  found : ∀ fd ∈ s.slotFds, ∃ c, s.channels[fd]? = some c

/-- Changes that leave alone what the tables say. -/
theorem Keyed.congr (h : Keyed s)
    (hfd : ∀ (fd : Int) (d : κ), s.channels[fd]? = some d →
      (s'.channel d).fd = (s.channel d).fd)
    (hch : s'.channels = s.channels) (hslot : s'.slotFds = s.slotFds) : Keyed s' := by
  refine ⟨fun fd d hd => ?_, by rw [hslot]; exact h.distinct, by rw [hslot, hch]; exact h.found⟩
  rw [hch] at hd
  rw [hfd fd d hd]
  exact h.key fd d hd

variable [DecidableEq κ]

theorem setIndex_fd (s : State κ) (c d : κ) (index : Int) :
    (Function.update s.channel c { s.channel c with index := index } d).fd = (s.channel d).fd :=
  update_fd s.channel { s.channel c with index := index } rfl d

theorem Keyed.setEvents (h : Keyed s) (c : κ) (events : BitVec 32) :
    Keyed (s.setEvents c events) :=
  h.congr (fun _ d _ => Table.setEvents_fd s c d events) rfl rfl

theorem Keyed.updateChannel (h : Keyed s) (hc : 0 ≤ (s.channel c).fd)
    (hr : s.updateChannel c = .ok s') : Keyed s' := by
  unfold State.updateChannel at hr
  simp only at hr
  split at hr
  · cases hr
  · next ha =>
    split at hr
    · next hi =>
      -- a new channel in a new slot
      cases hr
      simp only [Bool.not_eq_false, State.updateAsserts, if_pos hi, decide_eq_true_eq] at ha
      have hslots : slotFd (s.channel c).fd = (s.channel c).fd :=
        (slotFd_eq_iff hc).2 (.inl rfl)
      refine ⟨fun fd d hd => ?_, ?_, fun fd hfd => ?_⟩
      · rw [getElem?_insert_key] at hd
        show 0 ≤ fd ∧ (Function.update s.channel c _ d).fd = fd
        rw [setIndex_fd s c d]
        split at hd
        · next he =>
          cases hd
          exact ⟨he ▸ hc, he.symm⟩
        · exact h.key fd d hd
      · simp only [State.slotFds, List.map_append, List.map_cons, List.map_nil, hslots]
        rw [List.nodup_append]
        refine ⟨h.distinct, List.nodup_singleton _, ?_⟩
        intro fd hfd fd' hfd'
        rw [List.mem_singleton.1 hfd']
        rintro rfl
        obtain ⟨d, hd⟩ := h.found _ hfd
        rw [ha] at hd
        cases hd
      · simp only [State.slotFds, List.map_append, List.map_cons, List.map_nil, hslots,
          List.mem_append, List.mem_singleton] at hfd
        show ∃ d, (s.channels.insert _ c)[fd]? = some d
        rw [getElem?_insert_key]
        split
        · exact ⟨c, rfl⟩
        · next hne => exact h.found fd (hfd.resolve_right hne)
    · next hi =>
      simp only [Bool.not_eq_false, State.updateAsserts, if_neg hi, State.slotAsserts,
        Bool.and_eq_true, decide_eq_true_eq] at ha
      split at hr
      · next pfd hp =>
        cases hr
        rw [hp] at ha
        have hpfd : slotFd pfd.fd = (s.channel c).fd :=
          (slotFd_eq_iff hc).2 (of_decide_eq_true ha.2)
        refine h.congr (fun _ _ _ => rfl) rfl ?_
        -- the slot stands for the same descriptor, plain or hidden
        simp only [State.slotFds, List.map_set]
        have hsame : slotFd (if (s.channel c).isNoneEvent then -(s.channel c).fd - 1 else pfd.fd) =
            slotFd pfd.fd := by
          split
          · rw [hpfd]
            exact (slotFd_eq_iff hc).2 (.inr rfl)
          · rfl
        rw [hsame]
        have hat : s.slotFds[(s.channel c).index.toNat]? = some (slotFd pfd.fd) := by
          rw [State.slotFds, List.getElem?_map, hp, Option.map_some]
        obtain ⟨hlt, hget⟩ := List.getElem?_eq_some_iff.1 hat
        rw [← hget]
        exact List.set_getElem_self hlt
      · cases hr

theorem setIndex_revents (s : State κ) (c d : κ) (index : Int) :
    (Function.update s.channel c { s.channel c with index := index } d).revents =
      (s.channel d).revents := by
  rw [Function.update_apply]
  split
  · next hd => rw [hd]
  · rfl

theorem updateChannel_revents (h : s.updateChannel c = .ok s') (d : κ) :
    (s'.channel d).revents = (s.channel d).revents := by
  unfold State.updateChannel at h
  simp only at h
  split at h
  · cases h
  · split at h
    · cases h
      exact setIndex_revents s c d _
    · split at h
      · cases h
        rfl
      · cases h

theorem removeChannel_revents (h : s.removeChannel c = .ok s') (d : κ) :
    (s'.channel d).revents = (s.channel d).revents := by
  obtain ⟨hreg, -⟩ := removeChannel_sets h
  unfold State.removeChannel at h
  simp only at h
  split at h
  · cases h
  · rw [if_pos (contains_of_some hreg), if_neg (not_not.2 rfl)] at h
    split at h
    · cases h
      rfl
    · split at h
      · split at h
        · cases h
          exact setIndex_revents s _ d _
        · cases h
      · cases h

/-- The channel whose index `removeChannel` sets, found by the descriptor in the last slot. -/
def State.channelAtEnd (s : State κ) (c : κ) : Option κ :=
  if (s.channel c).index.toNat = s.pollfds.length - 1 then none
  else s.pollfds.getLast?.bind fun back => s.channels[slotFd back.fd]?

theorem Keyed.removeChannel (h : Keyed s) (hr : s.removeChannel c = .ok s') : Keyed s' := by
  unfold State.removeChannel at hr
  simp only at hr
  split at hr
  · cases hr
  · next ha =>
    simp only [Bool.not_eq_false, State.removeAsserts, State.slotAsserts, Bool.and_eq_true,
      decide_eq_true_eq] at ha
    obtain ⟨-, ⟨hreg, -⟩, hm⟩ := ha
    obtain ⟨hc, -⟩ := h.key _ _ hreg
    have hn : s.channels.contains (s.channel c).fd = true := contains_of_some hreg
    simp only [hn, if_true, ne_eq, not_true_eq_false, if_false] at hr
    split at hm
    · next pfd hp =>
      have hpfd : slotFd pfd.fd = (s.channel c).fd :=
        (slotFd_eq_iff hc).2 (.inr (of_decide_eq_true hm).1)
      have hslot : s.slotFds[(s.channel c).index.toNat]? = some (s.channel c).fd := by
        rw [State.slotFds, List.getElem?_map, hp, Option.map_some, hpfd]
      -- what is left, whichever branch is taken
      have hkeyed : ∀ t : State κ, (∀ d, (t.channel d).fd = (s.channel d).fd) →
          t.channels = s.channels.erase (s.channel c).fd →
          t.slotFds = s.slotFds.swapRemove (s.channel c).index.toNat → Keyed t := by
        intro t hfd hch hslots
        refine ⟨fun fd d hd => ?_, ?_, fun fd hmem => ?_⟩
        · rw [hch, getElem?_erase_key] at hd
          split at hd
          · cases hd
          · rw [hfd]
            exact h.key fd d hd
        · rw [hslots]
          exact List.nodup_swapRemove h.distinct _
        · rw [hslots] at hmem
          obtain ⟨hmem, hne⟩ := List.mem_swapRemove h.distinct hslot hmem
          rw [hch, getElem?_erase_key, if_neg hne]
          exact h.found fd hmem
      split at hr
      · next hi =>
        cases hr
        refine hkeyed _ (fun _ => rfl) rfl ?_
        simp only [State.slotFds]
        rw [List.dropLast_eq_swapRemove, List.map_swapRemove, ← hi]
      · split at hr
        · next pfd' back hp' hback =>
          split at hr
          · cases hr
            refine hkeyed _ (fun d => setIndex_fd s _ d _) rfl ?_
            simp only [State.slotFds]
            rw [List.swap_dropLast_eq_swapRemove _ hback, List.map_swapRemove]
          · cases hr
        · cases hr
    · cases hm

omit [DecidableEq κ] in
/-- The channel at the end is a registered one. -/
theorem channelAtEnd_registered {last : κ} (hl : s.channelAtEnd c = some last) :
    ∃ fd : Int, s.channels[fd]? = some last := by
  unfold State.channelAtEnd at hl
  split at hl
  · cases hl
  · obtain ⟨back, -, hback⟩ := Option.bind_eq_some_iff.1 hl
    exact ⟨_, hback⟩

omit [DecidableEq κ] in
/-- A slot with `revents` is polled, so it holds the descriptor of a registered channel. -/
theorem Keyed.written_found (h : Keyed s) {revents : List (BitVec 16)}
    (hk : s.kernelWrites revents = true) {pfd : PollFd} (hm : pfd ∈ s.written revents)
    (hr : pfd.revents ≠ 0) :
    0 < pfd.revents.toInt ∧ slotFd pfd.fd = pfd.fd ∧ s.channels[pfd.fd]? ≠ none := by
  obtain ⟨-, hk⟩ := kernelWrites_slot hk
  obtain ⟨i, hp⟩ := List.mem_iff_getElem?.1 hm
  obtain ⟨qfd, r, hq, hr', rfl⟩ := getElem?_written.1 hp
  obtain ⟨hbits, hfd⟩ := hk i qfd r hq hr'
  have hpos := hfd.resolve_right hr
  have hslot : slotFd qfd.fd = qfd.fd := (slotFd_eq_iff hpos).2 (.inl rfl)
  obtain ⟨c, hc⟩ := h.found qfd.fd
    (List.mem_map.2 ⟨qfd, List.mem_of_getElem? hq, hslot⟩)
  refine ⟨toInt_pos_of_pollBits hbits hr, hslot, ?_⟩
  show s.channels[qfd.fd]? ≠ none
  rw [hc]
  simp

omit [DecidableEq κ] in
theorem Keyed.written (h : Keyed s) {revents : List (BitVec 16)}
    (hk : s.kernelWrites revents = true) :
    Keyed { s with activeChannels := [], pollfds := s.written revents } := by
  refine h.congr (fun _ _ _ => rfl) rfl ?_
  apply List.ext_getElem?
  intro i
  obtain ⟨hlen, -⟩ := kernelWrites_slot hk
  rw [State.slotFds, State.slotFds, List.getElem?_map, List.getElem?_map, State.written,
    List.getElem?_zipWith]
  cases hp : s.pollfds[i]? with
  | none => rfl
  | some pfd =>
    have hlt := (List.getElem?_eq_some_iff.1 hp).1
    rw [← hlen] at hlt
    rw [List.getElem?_eq_getElem hlt]
    rfl

theorem Keyed.poll (h : Keyed s) {revents : List (BitVec 16)}
    (hk : s.kernelWrites revents = true) :
    ∃ s', s.poll (some revents) = .ok s' ∧ Polled s revents s' := by
  obtain ⟨hlen, -⟩ := kernelWrites_slot hk
  have ht := h.written hk
  have hinj : (s.written revents).Pairwise fun a b => a.fd ≠ b.fd :=
    (List.pairwise_map.1 ht.distinct).imp fun hne he => hne (congrArg slotFd he)
  obtain ⟨s', hs', hf⟩ := fillLoop_filled (s.written revents)
    { s with activeChannels := [], pollfds := s.written revents }
    (fun fd c hc => (ht.key fd c hc).2)
    (fun pfd hm hr => ⟨(h.written_found hk hm hr).1, (h.written_found hk hm hr).2.2⟩) hinj
  rw [countP_written hlen] at hs'
  refine ⟨s', ?_, ⟨hf.pollfds, ?_, hf.channels, ?_, ?_, ?_⟩⟩
  · simp only [State.poll]
    split
    · exact hs'
    · next hn =>
      have hz : revents.countP (· ≠ 0) = 0 := by omega
      rw [hz, fillLoop_zero] at hs'
      exact hs'
  · rw [hf.pollfds]
    exact length_written hlen
  · rw [hf.active, hf.pollfds]
    rfl
  · rw [hf.pollfds]
    exact hf.marked
  · intro c hc
    rw [hf.active] at hc
    exact hf.others c hc

omit [DecidableEq κ] in
theorem Keyed.polled (h : Keyed s) {revents : List (BitVec 16)}
    (hk : s.kernelWrites revents = true) (hp : Polled s revents s') : Keyed s' := by
  refine (h.written hk).congr (fun _ d _ => ?_) hp.channels ?_
  · show (s'.channel d).fd = (s.channel d).fd
    rw [hp.channel d]
  · show s'.pollfds.map _ = _
    rw [hp.pollfds]
    rfl

omit [DecidableEq κ] in
/-- The channels of the slots with `revents` are registered, and no two slots have one channel. -/
theorem Keyed.reported (h : Keyed s) {revents : List (BitVec 16)}
    (hk : s.kernelWrites revents = true) :
    (s.reported (s.written revents)).Nodup ∧
      ∀ c ∈ s.reported (s.written revents), ∃ fd : Int, s.channels[fd]? = some c := by
  constructor
  · rw [State.reported, List.Nodup, List.pairwise_filterMap]
    refine (List.pairwise_map.1 (h.written hk).distinct).imp ?_
    intro a b hab c hc d hd hcd
    subst hcd
    split at hc
    · cases hc
    · split at hd
      · cases hd
      · exact hab (by rw [← (h.key _ _ hc).2, ← (h.key _ _ hd).2])
  · intro c hc
    obtain ⟨pfd, -, -, hc⟩ := mem_reported.1 hc
    exact ⟨pfd.fd, hc⟩

end Rawmd.PollPoller
