import Rawmd.Net.Poller.Poller
import Rawmd.Net.Poller.EPollMirror

/-!
# The maps of `EPollPoller` while channels come and go

As for `PollPoller`, for channels whose addresses and descriptors are used again: `channels_` is
keyed by the descriptors, and what the kernel watches is in `channels_` and has been added
(`Keyed`).  A descriptor may be closed while it is watched, so not everything that was added is
still in the interest list.

    Keyed s → updateChannel, removeChannel keep it             (Keyed.updateChannel, .removeChannel)
    Keyed s → poll reports what epoll_wait returned            (Keyed.poll, Keyed.entries)
-/

namespace Rawmd.EPollPoller

variable {κ : Type} {s s' : State κ} {c : κ}

structure Keyed (s : State κ) : Prop where
  key : ∀ (fd : Int) (c : κ), s.channels[fd]? = some c → (s.channel c).fd = fd
  interest : ∀ (fd : Int) (mask : BitVec 32) (c : κ), s.interest[fd]? = some (mask, c) →
    s.channels[fd]? = some c ∧ (s.channel c).index = kAdded

/-- Changes of the channels that leave descriptors and indices alone, with part of the
interest list. -/
theorem Keyed.congr (h : Keyed s)
    (hfd : ∀ (fd : Int) (d : κ), s.channels[fd]? = some d →
      (s'.channel d).fd = (s.channel d).fd ∧ (s'.channel d).index = (s.channel d).index)
    (hch : s'.channels = s.channels)
    (hint : ∀ (fd : Int) (entry : BitVec 32 × κ), s'.interest[fd]? = some entry →
      s.interest[fd]? = some entry) : Keyed s' := by
  refine ⟨fun fd d hd => ?_, fun fd mask d hd => ?_⟩
  · rw [hch] at hd
    rw [(hfd fd d hd).1]
    exact h.key fd d hd
  · obtain ⟨hreg, hi⟩ := h.interest fd mask d (hint fd _ hd)
    rw [hch, (hfd fd d hreg).2]
    exact ⟨hreg, hi⟩

/-- A channel of the interest list is found under its own descriptor only. -/
theorem Keyed.interest_fd (h : Keyed s) {fd : Int} {mask : BitVec 32}
    (hd : s.interest[fd]? = some (mask, c)) : (s.channel c).fd = fd :=
  h.key fd c (h.interest fd mask c hd).1

/-- A call on channel `c` changes its index and what is under its descriptor. -/
theorem Keyed.change (h : Keyed s) (hfd : ∀ d, (s'.channel d).fd = (s.channel d).fd)
    (hidx : ∀ d, d ≠ c → (s'.channel d).index = (s.channel d).index)
    (hch : ∀ fd : Int, fd ≠ (s.channel c).fd → s'.channels[fd]? = s.channels[fd]?)
    (hself : ∀ d, s'.channels[(s.channel c).fd]? = some d → d = c)
    (hint : ∀ fd : Int, fd ≠ (s.channel c).fd → s'.interest[fd]? = s.interest[fd]?)
    (hadded : ∀ (mask : BitVec 32) (d : κ), s'.interest[(s.channel c).fd]? = some (mask, d) →
      s'.channels[(s.channel c).fd]? = some d ∧ (s'.channel d).index = kAdded) : Keyed s' := by
  refine ⟨fun fd d hd => ?_, fun fd mask d hd => ?_⟩
  · rw [hfd]
    by_cases hfdc : fd = (s.channel c).fd
    · subst hfdc
      rw [hself d hd]
    · rw [hch fd hfdc] at hd
      exact h.key fd d hd
  · by_cases hfdc : fd = (s.channel c).fd
    · subst hfdc
      exact hadded mask d hd
    · rw [hint fd hfdc] at hd
      obtain ⟨hreg, hi⟩ := h.interest fd mask d hd
      have hdc : d ≠ c := by
        rintro rfl
        exact hfdc (h.key fd d hreg).symm
      rw [hch fd hfdc, hidx d hdc]
      exact ⟨hreg, hi⟩

variable [DecidableEq κ]

omit [DecidableEq κ] in
/-- `update` changes the entry under the descriptor of the channel: it is the one of the channel,
or gone, or there was none. -/
theorem update_interest {operation : Ctl} (h : s.update operation c = .ok s') :
    (∀ fd : Int, fd ≠ (s.channel c).fd → s'.interest[fd]? = s.interest[fd]?) ∧
      ∀ entry, s'.interest[(s.channel c).fd]? = some entry → operation ≠ .del ∧ entry.2 = c := by
  unfold State.update epollCtl at h
  simp only at h
  cases operation with
  | add =>
    simp only at h
    split at h
    · next interest hctl =>
      cases h
      split at hctl
      · cases hctl
      · cases hctl
        refine ⟨fun fd hfd => by rw [getElem?_insert_key, if_neg hfd], fun entry he => ?_⟩
        rw [getElem?_insert_key, if_pos rfl] at he
        cases he
        exact ⟨by decide, rfl⟩
    · simp at h
  | mod =>
    simp only at h
    split at h
    · next interest hctl =>
      cases h
      split at hctl
      · cases hctl
        refine ⟨fun fd hfd => by rw [getElem?_insert_key, if_neg hfd], fun entry he => ?_⟩
        rw [getElem?_insert_key, if_pos rfl] at he
        cases he
        exact ⟨by decide, rfl⟩
      · cases hctl
    · simp at h
  | del =>
    simp only at h
    split at h
    · next interest hctl =>
      cases h
      split at hctl
      · cases hctl
        refine ⟨fun fd hfd => by rw [getElem?_erase_key, if_neg hfd], fun entry he => ?_⟩
        rw [getElem?_erase_key, if_pos rfl] at he
        cases he
      · cases hctl
    · next hctl =>
      rw [if_pos trivial] at h
      cases h
      split at hctl
      · cases hctl
      · next hc =>
        refine ⟨fun _ _ => rfl, fun entry he => ?_⟩
        have hin : s.interest.contains (s.channel c).fd = true := by
          rw [Std.TreeMap.contains_eq_isSome_getElem?, he]
          rfl
        exact absurd hin hc

theorem setIndex_index_ne (s : State κ) {c d : κ} (index : Int) (h : d ≠ c) :
    ((s.setIndex c index).channel d).index = (s.channel d).index := by
  show (Function.update s.channel c _ d).index = _
  rw [Function.update_of_ne h]

theorem setIndex_index (s : State κ) (c : κ) (index : Int) :
    ((s.setIndex c index).channel c).index = index := by
  show (Function.update s.channel c _ c).index = _
  rw [Function.update_self]

theorem Keyed.setEvents (h : Keyed s) (c : κ) (events : BitVec 32) :
    Keyed (s.setEvents c events) := by
  refine h.congr (fun _ d _ => ?_) rfl (fun _ _ he => he)
  simp only [State.setEvents, State.setChannel, Function.update_apply]
  split
  · next hd => rw [hd]; exact ⟨rfl, rfl⟩
  · exact ⟨rfl, rfl⟩

theorem Keyed.updateChannel (h : Keyed s) (hr : s.updateChannel c = .ok s') : Keyed s' := by
  have hsets := updateChannel_sets hr
  have hself : s'.channels[(s.channel c).fd]? = some c := (hsets.channels _).trans (if_pos rfl)
  have hother : ∀ fd : Int, fd ≠ (s.channel c).fd → s'.channels[fd]? = s.channels[fd]? :=
    fun fd hfd => (hsets.channels fd).trans (if_neg hfd)
  have honly : ∀ d, s'.channels[(s.channel c).fd]? = some d → d = c := by
    intro d hd
    rw [hself] at hd
    exact (Option.some.inj hd).symm
  unfold State.updateChannel at hr
  simp only at hr
  split at hr
  · cases hr
  · next ha =>
    simp only [Bool.not_eq_false, State.updateAsserts] at ha
    split at hr
    · -- a new channel, or one that is deleted from the interest list
      generalize hu : (if (s.channel c).index = kNew then
        { s with channels := s.channels.insert (s.channel c).fd c } else s) = u at hr
      have huch : u.channel = s.channel := by
        rw [← hu]
        split <;> rfl
      have huint : u.interest = s.interest := by
        rw [← hu]
        split <;> rfl
      obtain ⟨hch, -⟩ := update_frame hr
      obtain ⟨hint, hadd⟩ := update_interest hr
      rw [setIndex_fd, huch] at hint hadd
      have hidx : ∀ d, (s'.channel d).index = if d = c then kAdded else (s.channel d).index := by
        intro d
        rw [hch]
        by_cases hd : d = c
        · rw [if_pos hd, hd]
          exact setIndex_index u c kAdded
        · rw [if_neg hd, setIndex_index_ne _ _ hd, huch]
      refine h.change hsets.fd (fun d hd => (hidx d).trans (if_neg hd)) hother honly ?_ ?_
      · intro fd hfd
        exact (hint fd hfd).trans (by rw [← huint]; rfl)
      · intro mask d hd
        obtain ⟨-, rfl⟩ := hadd (mask, d) hd
        exact ⟨hself, (hidx d).trans (if_pos rfl)⟩
    · next hi =>
      rw [if_neg (fun hk => hi (.inl hk)), Bool.and_eq_true, Bool.or_eq_true, decide_eq_true_eq,
        decide_eq_true_eq, decide_eq_true_eq] at ha
      have hadded : (s.channel c).index = kAdded := ha.2.resolve_left fun hk => hi (.inr hk)
      split at hr
      · obtain ⟨t, ht, hr⟩ := Except.bind_ok hr
        cases hr
        obtain ⟨hch, -⟩ := update_frame ht
        obtain ⟨hint, hdel⟩ := update_interest ht
        refine h.change hsets.fd (fun d hd => ?_) hother honly hint (fun mask d hd => ?_)
        · rw [setIndex_index_ne _ _ hd, hch]
        · exact absurd rfl (hdel (mask, d) hd).1
      · obtain ⟨hch, -⟩ := update_frame hr
        obtain ⟨hint, hmod⟩ := update_interest hr
        refine h.change hsets.fd (fun d _ => by rw [hch]) hother honly hint (fun mask d hd => ?_)
        obtain ⟨-, rfl⟩ := hmod (mask, d) hd
        exact ⟨hself, by rw [hch]; exact hadded⟩

theorem Keyed.removeChannel (h : Keyed s) (hr : s.removeChannel c = .ok s') : Keyed s' := by
  obtain ⟨hreg, hsets⟩ := removeChannel_sets hr
  have hself : s'.channels[(s.channel c).fd]? = none := (hsets.channels _).trans (if_pos rfl)
  have hother : ∀ fd : Int, fd ≠ (s.channel c).fd → s'.channels[fd]? = s.channels[fd]? :=
    fun fd hfd => (hsets.channels fd).trans (if_neg hfd)
  have honly : ∀ d, s'.channels[(s.channel c).fd]? = some d → d = c := by
    intro d hd
    rw [hself] at hd
    cases hd
  unfold State.removeChannel at hr
  simp only at hr
  split at hr
  · cases hr
  · rw [if_pos (contains_of_some hreg), if_neg (not_not.2 rfl)] at hr
    split at hr
    · obtain ⟨t, ht, hr⟩ := Except.bind_ok hr
      cases hr
      obtain ⟨hch, -⟩ := update_frame ht
      obtain ⟨hint, hdel⟩ := update_interest ht
      refine h.change hsets.fd (fun d hd => ?_) hother honly hint (fun mask d hd => ?_)
      · rw [setIndex_index_ne _ _ hd, hch]
      · exact absurd rfl (hdel (mask, d) hd).1
    · next hi =>
      obtain ⟨t, ht, hr⟩ := Except.bind_ok hr
      cases hr
      cases ht
      refine h.change hsets.fd (fun d hd => setIndex_index_ne _ _ hd) hother honly
        (fun _ _ => rfl) (fun mask d hd => ?_)
      -- an entry under this descriptor would be one of a channel that is added
      obtain ⟨hd', hadded⟩ := h.interest _ mask d hd
      rw [hreg] at hd'
      cases hd'
      exact absurd hadded hi

theorem setIndex_revents (s : State κ) (c d : κ) (index : Int) :
    ((s.setIndex c index).channel d).revents = (s.channel d).revents := by
  show (Function.update s.channel c _ d).revents = _
  rw [Function.update_apply]
  split
  · next hd => rw [hd]
  · rfl

theorem updateChannel_revents (h : s.updateChannel c = .ok s') (d : κ) :
    (s'.channel d).revents = (s.channel d).revents := by
  unfold State.updateChannel at h
  simp only at h
  split at h
  · cases h
  · split at h
    · rw [(update_frame h).1, setIndex_revents]
      split <;> rfl
    · split at h
      · obtain ⟨t, ht, h⟩ := Except.bind_ok h
        cases h
        rw [setIndex_revents, (update_frame ht).1]
      · rw [(update_frame h).1]

theorem removeChannel_revents (h : s.removeChannel c = .ok s') (d : κ) :
    (s'.channel d).revents = (s.channel d).revents := by
  obtain ⟨hreg, -⟩ := removeChannel_sets h
  unfold State.removeChannel at h
  simp only at h
  split at h
  · cases h
  · rw [if_pos (contains_of_some hreg), if_neg (not_not.2 rfl)] at h
    split at h
    · obtain ⟨t, ht, h⟩ := Except.bind_ok h
      cases h
      rw [setIndex_revents, (update_frame ht).1]
    · obtain ⟨t, ht, h⟩ := Except.bind_ok h
      cases h
      cases ht
      exact setIndex_revents _ c d kNew

omit [DecidableEq κ] in
/-- What `epoll_wait` returns for the descriptors: the events, with the `data.ptr` of each. -/
def State.entries (s : State κ) (ready : List (BitVec 32 × Int)) : List (BitVec 32 × κ) :=
  ready.filterMap fun event => s.interest[event.2]?.map fun entry => (event.1, entry.2)

omit [DecidableEq κ] in
theorem mem_entries {ready : List (BitVec 32 × Int)} {events : BitVec 32} :
    (events, c) ∈ s.entries ready ↔
      ∃ fd mask, (events, fd) ∈ ready ∧ s.interest[fd]? = some (mask, c) := by
  simp only [State.entries, List.mem_filterMap, Option.map_eq_some_iff, Prod.exists,
    Prod.mk.injEq]
  constructor
  · rintro ⟨events', fd, hm, mask, d, he, rfl, rfl⟩
    exact ⟨fd, mask, hm, he⟩
  · rintro ⟨fd, mask, hm, he⟩
    exact ⟨events, fd, hm, mask, c, he, rfl, rfl⟩

omit [DecidableEq κ] in
/-- They are registered, and no channel is returned twice. -/
theorem Keyed.entries (h : Keyed s) {ready : List (BitVec 32 × Int)}
    (hnodup : (ready.map Prod.snd).Nodup) :
    ((s.entries ready).map Prod.snd).Nodup ∧
      ∀ c ∈ (s.entries ready).map Prod.snd, s.channels[(s.channel c).fd]? = some c := by
  constructor
  · rw [State.entries, List.map_filterMap, List.Nodup, List.pairwise_filterMap]
    refine (List.pairwise_map.1 hnodup).imp ?_
    intro a b hab c hc d hd hcd
    subst hcd
    simp only [Option.map_map, Option.map_eq_some_iff, Function.comp_apply, Prod.exists] at hc hd
    obtain ⟨mask, e, he, rfl⟩ := hc
    obtain ⟨mask', e', he', rfl⟩ := hd
    exact hab (by rw [← h.interest_fd he, ← h.interest_fd he'])
  · intro c hc
    obtain ⟨⟨events, d⟩, hm, rfl⟩ := List.mem_map.1 hc
    obtain ⟨fd, mask, -, he⟩ := mem_entries.1 hm
    rw [h.interest_fd he]
    exact (h.interest fd mask d he).1

/-- The loop sets what was returned, for channels that are not returned twice. -/
theorem fillLoop_revents (ready : List (BitVec 32 × κ)) (s s' : State κ)
    (hs : s.fillLoop ready = .ok s') (hnodup : (ready.map Prod.snd).Nodup) :
    (∀ d ∉ ready.map Prod.snd, s'.channel d = s.channel d) ∧
      ∀ e ∈ ready, (s'.channel e.2).revents = e.1 := by
  induction ready generalizing s with
  | nil =>
    cases hs
    exact ⟨fun _ _ => rfl, fun e he => absurd he List.not_mem_nil⟩
  | cons e ready ih =>
    obtain ⟨events, c⟩ := e
    rw [List.map_cons, List.nodup_cons] at hnodup
    rw [State.fillLoop] at hs
    split at hs
    · obtain ⟨hother, hset⟩ := ih (s.report c events) hs hnodup.2
      refine ⟨fun d hd => ?_, fun e he => ?_⟩
      · rw [List.map_cons, List.mem_cons, not_or] at hd
        rw [hother d hd.2]
        exact Function.update_of_ne hd.1 _ _
      · rcases List.mem_cons.1 he with rfl | he
        · rw [hother c hnodup.1]
          show (Function.update s.channel c _ c).revents = events
          rw [Function.update_self]
        · exact hset e he
    · cases hs

theorem Keyed.poll (h : Keyed s) {ready : List (BitVec 32 × Int)}
    (hlen : ready.length ≤ s.eventsSize) (hnodup : (ready.map Prod.snd).Nodup) :
    ∃ s' size, s.poll (some (s.entries ready)) = .ok { s' with eventsSize := size } ∧
      Filled { s with activeChannels := [] } (s.entries ready) s' ∧
      ∀ e ∈ s.entries ready, (s'.channel e.2).revents = e.1 := by
  obtain ⟨hnodup', hreg⟩ := h.entries hnodup
  obtain ⟨t, ht, hf⟩ := Mirror.fillLoop_filled (s.entries ready) { s with activeChannels := [] }
    (fun e he => hreg e.2 (List.mem_map_of_mem he))
  obtain ⟨-, hset⟩ := fillLoop_revents _ _ _ ht hnodup'
  have hle : (s.entries ready).length ≤ s.eventsSize :=
    (List.length_filterMap_le _ _).trans hlen
  have hfill : State.fillActiveChannels { s with activeChannels := [] } (s.entries ready) =
      .ok t := by
    rw [State.fillActiveChannels, if_pos hle, ht]
  simp only [State.poll, hfill]
  split
  · refine ⟨t, if (s.entries ready).length = t.eventsSize then t.eventsSize * 2 else t.eventsSize,
      ?_, hf, hset⟩
    simp only [Bind.bind, Except.bind, pure, Except.pure]
    split <;> rfl
  · next hn =>
    have hnil : s.entries ready = [] := List.eq_nil_of_length_eq_zero (by omega)
    rw [hnil] at ht hf ⊢
    cases ht
    exact ⟨{ s with activeChannels := [] }, s.eventsSize, rfl, hf,
      fun e he => absurd he List.not_mem_nil⟩

omit [DecidableEq κ] in
theorem Keyed.filled (h : Keyed s) {ready : List (BitVec 32 × κ)} (size : Nat)
    (hf : Filled { s with activeChannels := [] } ready s') :
    Keyed { s' with eventsSize := size } := by
  refine h.congr (fun _ d _ => ?_) hf.channels (fun fd entry he => ?_)
  · show (s'.channel d).fd = _ ∧ (s'.channel d).index = _
    rw [hf.channel d]
    exact ⟨rfl, rfl⟩
  · change s'.interest[fd]? = some entry at he
    rw [hf.interest] at he
    exact he

end Rawmd.EPollPoller
