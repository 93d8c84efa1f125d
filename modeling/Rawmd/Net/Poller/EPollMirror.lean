import Rawmd.Net.Poller.EPollPoller

/-!
# `EPollPoller` mirrors the kernel's interest list

`Mirror` ties the three places where a channel's state is kept: `index_`, `channels_` and the
interest list.  Every action changes one channel and its entries (`State.put`), so that each
keeps `Mirror` is one lemma (`Mirror.put`) and its side conditions on the two maps.

    Mirror s → enabled s a → ∃ s', step s a = .ok s' ∧ Effect s a s'    (Mirror.step_effect)
    Mirror s → Effect s a s' → Mirror s'                                (Mirror.effect)
-/

namespace Rawmd.EPollPoller

variable {κ : Type}

structure Mirror (F : Fds κ) (s : State κ) : Prop where
  fd : ∀ c, (s.channel c).fd = F.fd c
  index : ∀ c, (s.channel c).index = kNew ∨ (s.channel c).index = kAdded ∨
    (s.channel c).index = kDeleted
  registered : ∀ fd c, s.channels[fd]? = some c ↔ fd = F.fd c ∧ (s.channel c).index ≠ kNew
  interest : ∀ fd mask c, s.interest[fd]? = some (mask, c) ↔
    fd = F.fd c ∧ (s.channel c).index = kAdded ∧ mask = (s.channel c).events
  refused : s.refused = 0

namespace Mirror

variable {F : Fds κ} {s s' : State κ}

theorem init (F : Fds κ) : Mirror F (init F) where
  fd _ := rfl
  index _ := .inl rfl
  registered := by simp [EPollPoller.init, Channel.make, kNew]
  interest := by simp [EPollPoller.init, Channel.make, kAdded]
  refused := rfl

theorem channels_key (h : Mirror F s) (fd : Int) (d : κ) (hd : s.channels[fd]? = some d) :
    fd = F.fd d :=
  ((h.registered fd d).1 hd).1

theorem interest_key (h : Mirror F s) (fd : Int) (entry : BitVec 32 × κ)
    (hd : s.interest[fd]? = some entry) : fd = F.fd entry.2 :=
  ((h.interest fd entry.1 entry.2).1 hd).1

/-- Changes of `revents` only. -/
theorem congr (h : Mirror F s)
    (hch : ∀ c, s'.channel c = { s.channel c with revents := (s'.channel c).revents })
    (hc : s'.channels = s.channels) (hint : s'.interest = s.interest)
    (href : s'.refused = s.refused) : Mirror F s' := by
  have hfd : ∀ c, (s'.channel c).fd = (s.channel c).fd := fun c => by rw [hch c]
  have hidx : ∀ c, (s'.channel c).index = (s.channel c).index := fun c => by rw [hch c]
  have hev : ∀ c, (s'.channel c).events = (s.channel c).events := fun c => by rw [hch c]
  constructor <;> simp only [hfd, hidx, hev, hc, hint, href]
  · exact h.fd
  · exact h.index
  · exact h.registered
  · exact h.interest
  · exact h.refused

/-- The descriptor of a channel is in the interest list exactly if its index is `kAdded`. -/
theorem contains_interest (h : Mirror F s) (c : κ) :
    s.interest.contains (s.channel c).fd = decide ((s.channel c).index = kAdded) := by
  rw [Std.TreeMap.contains_eq_isSome_getElem?, h.fd]
  by_cases hi : (s.channel c).index = kAdded
  · rw [(h.interest _ _ c).2 ⟨rfl, hi, rfl⟩, decide_eq_true hi]
    rfl
  · rw [decide_eq_false hi]
    cases he : s.interest[F.fd c]? with
    | none => rfl
    | some entry =>
      obtain ⟨mask, d⟩ := entry
      obtain ⟨hfd, hd, -⟩ := (h.interest _ _ _).1 he
      rw [F.inj hfd] at hi
      exact absurd hd hi

end Mirror

/-! ## `epoll_ctl` where it is legal -/

variable {s : State κ} {c : κ}

theorem update_add (h : s.interest.contains (s.channel c).fd = false) :
    s.update .add c = .ok { s with
      interest := s.interest.insert (s.channel c).fd ((s.channel c).events, c) } := by
  simp [State.update, epollCtl, h]

theorem update_mod (h : s.interest.contains (s.channel c).fd = true) :
    s.update .mod c = .ok { s with
      interest := s.interest.insert (s.channel c).fd ((s.channel c).events, c) } := by
  simp [State.update, epollCtl, h]

theorem update_del (h : s.interest.contains (s.channel c).fd = true) :
    s.update .del c = .ok { s with interest := s.interest.erase (s.channel c).fd } := by
  simp [State.update, epollCtl, h]

variable [DecidableEq κ]

/-- Channel `c` gets new events and a new index, and the maps new entries. -/
def State.put (s : State κ) (c : κ) (events : BitVec 32) (index : Int)
    (channels : Std.TreeMap Int κ) (interest : Std.TreeMap Int (BitVec 32 × κ)) : State κ :=
  { s.setChannel c { s.channel c with events := events, index := index } with
    channels := channels
    interest := interest }

/-! ## What each action does -/

/-- `fillActiveChannels` appends the channels of `ready` and changes their `revents`. -/
structure Filled (s : State κ) (ready : List (BitVec 32 × κ)) (s' : State κ) : Prop where
  channel : ∀ c, s'.channel c = { s.channel c with revents := (s'.channel c).revents }
  channels : s'.channels = s.channels
  interest : s'.interest = s.interest
  refused : s'.refused = s.refused
  eventsSize : s'.eventsSize = s.eventsSize
  active : s'.activeChannels = s.activeChannels ++ ready.map Prod.snd

inductive Effect (s : State κ) : Action κ → State κ → Prop where
  | add {c : κ} {events : BitVec 32} : (s.channel c).index = kNew →
      Effect s (.updateChannel c events) (s.put c events kAdded
        (s.channels.insert (s.channel c).fd c) (s.interest.insert (s.channel c).fd (events, c)))
  | readd {c : κ} {events : BitVec 32} : (s.channel c).index = kDeleted →
      Effect s (.updateChannel c events) (s.put c events kAdded s.channels
        (s.interest.insert (s.channel c).fd (events, c)))
  | modify {c : κ} {events : BitVec 32} : (s.channel c).index = kAdded → events ≠ 0 →
      Effect s (.updateChannel c events) (s.put c events kAdded s.channels
        (s.interest.insert (s.channel c).fd (events, c)))
  | disable {c : κ} {events : BitVec 32} : (s.channel c).index = kAdded → events = 0 →
      Effect s (.updateChannel c events) (s.put c events kDeleted s.channels
        (s.interest.erase (s.channel c).fd))
  | removeAdded {c : κ} : (s.channel c).index = kAdded → (s.channel c).events = 0 →
      Effect s (.removeChannel c) (s.put c (s.channel c).events kNew
        (s.channels.erase (s.channel c).fd) (s.interest.erase (s.channel c).fd))
  | removeDeleted {c : κ} : (s.channel c).index = kDeleted → (s.channel c).events = 0 →
      Effect s (.removeChannel c) (s.put c (s.channel c).events kNew
        (s.channels.erase (s.channel c).fd) s.interest)
  | pollFails : Effect s (.poll none) { s with activeChannels := [] }
  | poll {ready : List (BitVec 32 × κ)} {s' : State κ} {size : Nat} :
      Filled { s with activeChannels := [] } ready s' →
      Effect s (.poll (some ready)) { s' with eventsSize := size }

theorem put_self (s : State κ) (c : κ) (events : BitVec 32) (index : Int)
    (channels : Std.TreeMap Int κ) (interest : Std.TreeMap Int (BitVec 32 × κ)) :
    (s.put c events index channels interest).channel c =
      { s.channel c with events := events, index := index } :=
  Function.update_self _ _ _

theorem put_ne (s : State κ) {c d : κ} (events : BitVec 32) (index : Int)
    (channels : Std.TreeMap Int κ) (interest : Std.TreeMap Int (BitVec 32 × κ)) (h : d ≠ c) :
    (s.put c events index channels interest).channel d = s.channel d :=
  Function.update_of_ne h _ _

namespace Mirror

variable {F : Fds κ} {s s' : State κ} {c : κ}

theorem updateChannel_effect (h : Mirror F s) {events : BitVec 32}
    (he : (s.setEvents c events).updateAsserts c = true) :
    ∃ s', (s.setEvents c events).updateChannel c = .ok s' ∧
      Effect s (.updateChannel c events) s' := by
  have hself : (s.setEvents c events).channel c = { s.channel c with events := events } :=
    Function.update_self _ _ _
  have hin := h.contains_interest c
  rcases h.index c with hi | hi | hi
  · refine ⟨_, ?_, .add hi⟩
    rw [State.updateChannel, if_neg (by simp [he]), if_pos (by rw [hself]; exact .inl hi),
      if_pos (by rw [hself]; exact hi), update_add]
    · simp [State.put, State.setIndex, State.setEvents, State.setChannel]
    · simp [State.setIndex, State.setEvents, State.setChannel, hin, hi, kNew, kAdded]
  · by_cases h0 : events = 0
    · refine ⟨_, ?_, .disable hi h0⟩
      rw [State.updateChannel, if_neg (by simp [he]),
        if_neg (by rw [hself]; simp [hi, kAdded, kNew, kDeleted]),
        if_pos (by rw [hself, Channel.isNoneEvent_iff]; exact h0), update_del]
      · simp [State.put, State.setIndex, State.setEvents, State.setChannel, Bind.bind, Except.bind,
          pure, Except.pure]
      · simp [State.setEvents, State.setChannel, hin, hi]
    · refine ⟨_, ?_, .modify hi h0⟩
      rw [State.updateChannel, if_neg (by simp [he]),
        if_neg (by rw [hself]; simp [hi, kAdded, kNew, kDeleted]),
        if_neg (by rw [hself, Channel.isNoneEvent_iff]; exact h0), update_mod]
      · simp [State.put, State.setEvents, State.setChannel, hi]
      · simp [State.setEvents, State.setChannel, hin, hi]
  · refine ⟨_, ?_, .readd hi⟩
    rw [State.updateChannel, if_neg (by simp [he]), if_pos (by rw [hself]; exact .inr hi),
      if_neg (by rw [hself]; simp [hi, kDeleted, kNew]), update_add]
    · simp [State.put, State.setIndex, State.setEvents, State.setChannel]
    · simp [State.setIndex, State.setEvents, State.setChannel, hin, hi, kDeleted, kAdded]

theorem removeChannel_effect (h : Mirror F s) (he : s.removeAsserts c = true) :
    ∃ s', s.removeChannel c = .ok s' ∧ Effect s (.removeChannel c) s' := by
  have ha := he
  simp only [State.removeAsserts, Bool.and_eq_true, Bool.or_eq_true, decide_eq_true_eq,
    Channel.isNoneEvent_iff] at ha
  obtain ⟨⟨hreg, h0⟩, hi⟩ := ha
  have hin := h.contains_interest c
  have hn : s.channels.contains (s.channel c).fd = true := contains_of_some hreg
  rcases hi with hi | hi
  · refine ⟨_, ?_, .removeAdded hi h0⟩
    rw [State.removeChannel, if_neg (by simp [he])]
    simp only [hn, hi, if_true, ne_eq, not_true_eq_false, if_false]
    rw [update_del (by simp [hin, hi])]
    simp [State.put, State.setIndex, State.setChannel, Bind.bind, Except.bind, pure, Except.pure]
  · refine ⟨_, ?_, .removeDeleted hi h0⟩
    rw [State.removeChannel, if_neg (by simp [he])]
    simp only [hn, hi, if_true, ne_eq, not_true_eq_false, if_false]
    rw [if_neg (by decide)]
    simp [State.put, State.setIndex, State.setChannel, Bind.bind, Except.bind, pure, Except.pure]

/-- The loop of `fillActiveChannels`, over channels that are in `channels_`. -/
theorem fillLoop_filled (ready : List (BitVec 32 × κ)) (s : State κ)
    (hr : ∀ e ∈ ready, s.channels[(s.channel e.2).fd]? = some e.2) :
    ∃ s', s.fillLoop ready = .ok s' ∧ Filled s ready s' := by
  induction ready generalizing s with
  | nil => exact ⟨s, rfl, fun _ => rfl, rfl, rfl, rfl, rfl, by simp⟩
  | cons e ready ih =>
    obtain ⟨events, c⟩ := e
    have hch : ∀ d, (s.report c events).channel d =
        { s.channel d with revents := ((s.report c events).channel d).revents } := by
      intro d
      simp only [State.report, State.setChannel, Function.update_apply]
      split
      · next hd => rw [hd]
      · rfl
    have hc : s.channels[(s.channel c).fd]? = some c := hr (events, c) (by simp)
    obtain ⟨s', hs', hf⟩ := ih (s.report c events) fun e hm => by
      rw [hch]
      exact hr e (by simp [hm])
    refine ⟨s', ?_, fun d => ?_, hf.channels, hf.interest, hf.refused, hf.eventsSize, ?_⟩
    · rw [State.fillLoop, if_pos hc]
      exact hs'
    · rw [hf.channel d, hch d]
    · rw [hf.active]
      simp [State.report]

theorem poll_effect (h : Mirror F s) {ready : List (BitVec 32 × κ)}
    (hk : s.kernelReturns ready = true) :
    ∃ s', s.poll (some ready) = .ok s' ∧ Effect s (.poll (some ready)) s' := by
  simp only [State.kernelReturns, Bool.and_eq_true, decide_eq_true_eq, List.all_eq_true,
    List.any_eq_true] at hk
  obtain ⟨hlen, hk⟩ := hk
  -- what the kernel returns are channels that were added
  have hr : ∀ e ∈ ready, s.channels[(s.channel e.2).fd]? = some e.2 := by
    intro e he
    obtain ⟨⟨fd, mask, d⟩, hm, hd⟩ := hk e he
    have hget := Std.TreeMap.mem_toList_iff_getElem?_eq_some.1 hm
    obtain ⟨-, hi, -⟩ := (h.interest _ _ _).1 hget
    simp only at hd
    subst hd
    rw [h.registered, h.fd]
    exact ⟨rfl, by rw [hi]; decide⟩
  obtain ⟨s', hs', hf⟩ := fillLoop_filled ready { s with activeChannels := [] } hr
  cases ready with
  | nil =>
    cases hs'
    exact ⟨{ s with activeChannels := [], eventsSize := s.eventsSize }, rfl, .poll hf⟩
  | cons e ready =>
    have hfill : State.fillActiveChannels { s with activeChannels := [] } (e :: ready) =
        .ok s' := by
      rw [State.fillActiveChannels, if_pos hlen, hs']
    simp only [State.poll, List.length_cons, Nat.zero_lt_succ, if_true, hfill]
    by_cases hfull : ready.length + 1 = s'.eventsSize
    · refine ⟨{ s' with eventsSize := s'.eventsSize * 2 }, ?_, .poll hf⟩
      simp only [Bind.bind, Except.bind, pure, Except.pure, if_pos hfull]
    · refine ⟨{ s' with eventsSize := s'.eventsSize }, ?_, .poll hf⟩
      simp only [Bind.bind, Except.bind, pure, Except.pure, if_neg hfull]

/-- Every action that the entry asserts and the kernel allow succeeds, with its effect. -/
theorem step_effect {a : Action κ} (h : Mirror F s) (he : (machine κ).enabled s a = true) :
    ∃ s', (machine κ).step s a = .ok s' ∧ Effect s a s' := by
  cases a with
  | updateChannel c events => exact h.updateChannel_effect he
  | removeChannel c => exact h.removeChannel_effect he
  | poll result =>
    cases result with
    | none => exact ⟨_, rfl, .pollFails⟩
    | some ready => exact h.poll_effect he

/-! ## The invariant -/

/-- Inserting into a map that is keyed by the descriptors of its owners. -/
theorem getElem?_insert_owned {β : Type} (F : Fds κ) (own : β → κ) {m : Std.TreeMap Int β}
    (hm : ∀ fd w, m[fd]? = some w → fd = F.fd (own w)) (v : β) (fd : Int) (w : β) :
    (m.insert (F.fd (own v)) v)[fd]? = some w ↔
      fd = F.fd (own w) ∧ if own w = own v then w = v else m[fd]? = some w := by
  simp only [Std.TreeMap.getElem?_insert, Std.LawfulEqCmp.compare_eq_iff_eq]
  by_cases hfd : F.fd (own v) = fd
  · subst hfd
    rw [if_pos rfl]
    constructor
    · intro h
      cases h
      simp
    · rintro ⟨h, hw⟩
      rw [if_pos (F.inj h).symm] at hw
      rw [hw]
  · rw [if_neg hfd]
    constructor
    · intro h
      have hk := hm fd w h
      refine ⟨hk, ?_⟩
      rw [if_neg fun e => hfd (by rw [hk, e])]
      exact h
    · rintro ⟨h, hw⟩
      rw [if_neg fun e => hfd (by rw [h, e])] at hw
      exact hw

theorem getElem?_erase_owned {β : Type} (F : Fds κ) (own : β → κ) {m : Std.TreeMap Int β}
    (hm : ∀ fd w, m[fd]? = some w → fd = F.fd (own w)) (c : κ) (fd : Int) (w : β) :
    (m.erase (F.fd c))[fd]? = some w ↔
      fd = F.fd (own w) ∧ if own w = c then False else m[fd]? = some w := by
  simp only [Std.TreeMap.getElem?_erase, Std.LawfulEqCmp.compare_eq_iff_eq]
  by_cases hfd : F.fd c = fd
  · subst hfd
    rw [if_pos rfl]
    refine iff_of_false (by simp) ?_
    rintro ⟨h, hw⟩
    rw [if_pos (F.inj h).symm] at hw
    exact hw
  · rw [if_neg hfd]
    constructor
    · intro h
      have hk := hm fd w h
      refine ⟨hk, ?_⟩
      rw [if_neg fun e => hfd (by rw [hk, e])]
      exact h
    · rintro ⟨h, hw⟩
      rw [if_neg fun e => hfd (by rw [h, e])] at hw
      exact hw

theorem put (h : Mirror F s) (c : κ) {events : BitVec 32} {index : Int}
    {channels : Std.TreeMap Int κ} {interest : Std.TreeMap Int (BitVec 32 × κ)}
    (hi : index = kNew ∨ index = kAdded ∨ index = kDeleted)
    (hreg : ∀ fd d, channels[fd]? = some d ↔
      fd = F.fd d ∧ if d = c then index ≠ kNew else s.channels[fd]? = some d)
    (hint : ∀ fd mask d, interest[fd]? = some (mask, d) ↔
      fd = F.fd d ∧ if d = c then index = kAdded ∧ mask = events
        else s.interest[fd]? = some (mask, d)) :
    Mirror F (s.put c events index channels interest) := by
  refine ⟨fun d => ?_, fun d => ?_, fun fd d => ?_, fun fd mask d => ?_, h.refused⟩
  · by_cases hd : d = c
    · rw [hd, put_self]
      exact h.fd c
    · rw [put_ne s _ _ _ _ hd]
      exact h.fd d
  · by_cases hd : d = c
    · rw [hd, put_self]
      exact hi
    · rw [put_ne s _ _ _ _ hd]
      exact h.index d
  · refine (hreg fd d).trans (and_congr_right fun hfd => ?_)
    by_cases hd : d = c
    · subst hd
      rw [if_pos rfl, put_self]
    · rw [if_neg hd, put_ne s _ _ _ _ hd, h.registered]
      exact and_iff_right hfd
  · refine (hint fd mask d).trans (and_congr_right fun hfd => ?_)
    by_cases hd : d = c
    · subst hd
      rw [if_pos rfl, put_self]
    · rw [if_neg hd, put_ne s _ _ _ _ hd, h.interest]
      exact and_iff_right hfd

theorem channels_insert (h : Mirror F s) (c : κ) (fd : Int) (d : κ) :
    (s.channels.insert (s.channel c).fd c)[fd]? = some d ↔
      fd = F.fd d ∧ if d = c then True else s.channels[fd]? = some d := by
  have := getElem?_insert_owned F (fun d => d) h.channels_key c fd d
  rw [h.fd, this]
  by_cases hd : d = c <;> simp [hd]

theorem channels_erase (h : Mirror F s) (c : κ) (fd : Int) (d : κ) :
    (s.channels.erase (s.channel c).fd)[fd]? = some d ↔
      fd = F.fd d ∧ if d = c then False else s.channels[fd]? = some d := by
  rw [h.fd]
  exact getElem?_erase_owned F (fun d => d) h.channels_key c fd d

theorem interest_insert (h : Mirror F s) (c : κ) (events : BitVec 32) (fd : Int)
    (mask : BitVec 32) (d : κ) :
    (s.interest.insert (s.channel c).fd (events, c))[fd]? = some (mask, d) ↔
      fd = F.fd d ∧ if d = c then mask = events else s.interest[fd]? = some (mask, d) := by
  have := getElem?_insert_owned F Prod.snd h.interest_key (events, c) fd (mask, d)
  rw [h.fd, this]
  by_cases hd : d = c <;> simp [hd]

theorem interest_erase (h : Mirror F s) (c : κ) (fd : Int) (mask : BitVec 32) (d : κ) :
    (s.interest.erase (s.channel c).fd)[fd]? = some (mask, d) ↔
      fd = F.fd d ∧ if d = c then False else s.interest[fd]? = some (mask, d) := by
  rw [h.fd]
  exact getElem?_erase_owned F Prod.snd h.interest_key c fd (mask, d)

/-- The maps as they are, where nothing about `c` changes. -/
theorem channels_same (h : Mirror F s) (c : κ) (hc : (s.channel c).index ≠ kNew) (fd : Int)
    (d : κ) :
    s.channels[fd]? = some d ↔
      fd = F.fd d ∧ if d = c then True else s.channels[fd]? = some d := by
  by_cases hd : d = c
  · rw [h.registered, hd, if_pos rfl]
    exact and_congr_right fun _ => iff_true_intro hc
  · rw [if_neg hd]
    exact ⟨fun e => ⟨h.channels_key fd d e, e⟩, And.right⟩

theorem effect {a : Action κ} (h : Mirror F s) (he : Effect s a s') : Mirror F s' := by
  cases he with
  | @add c events hi =>
    refine h.put c (.inr (.inl rfl)) (fun fd d => ?_) fun fd mask d => ?_
    · rw [h.channels_insert]
      simp [kAdded, kNew]
    · rw [h.interest_insert]
      simp
  | @readd c events hi =>
    refine h.put c (.inr (.inl rfl)) (fun fd d => ?_) fun fd mask d => ?_
    · refine (h.channels_same c (by rw [hi]; decide) fd d).trans ?_
      simp [kAdded, kNew]
    · rw [h.interest_insert]
      simp
  | @modify c events hi _ =>
    refine h.put c (.inr (.inl rfl)) (fun fd d => ?_) fun fd mask d => ?_
    · refine (h.channels_same c (by rw [hi]; decide) fd d).trans ?_
      simp [kAdded, kNew]
    · rw [h.interest_insert]
      simp
  | @disable c events hi _ =>
    refine h.put c (.inr (.inr rfl)) (fun fd d => ?_) fun fd mask d => ?_
    · refine (h.channels_same c (by rw [hi]; decide) fd d).trans ?_
      simp [kDeleted, kNew]
    · rw [h.interest_erase]
      simp [kDeleted, kAdded]
  | @removeAdded c hi _ =>
    refine h.put c (.inl rfl) (fun fd d => ?_) fun fd mask d => ?_
    · rw [h.channels_erase]
      simp
    · rw [h.interest_erase]
      simp [kNew, kAdded]
  | @removeDeleted c hi _ =>
    refine h.put c (.inl rfl) (fun fd d => ?_) fun fd mask d => ?_
    · rw [h.channels_erase]
      simp
    · by_cases hd : d = c
      · rw [h.interest, hd, if_pos rfl, hi]
        simp [kNew, kAdded, kDeleted]
      · rw [if_neg hd]
        exact ⟨fun e => ⟨h.interest_key fd _ e, e⟩, And.right⟩
  | pollFails => exact h.congr (fun _ => rfl) rfl rfl rfl
  | poll hf => exact h.congr hf.channel hf.channels hf.interest hf.refused

theorem safe (F : Fds κ) : (machine κ).Safe (Mirror F) := by
  intro s a h he
  obtain ⟨s', hs', hef⟩ := h.step_effect he
  exact ⟨s', hs', h.effect hef⟩

end Mirror

/-- **`EPollPoller` mirrors the kernel's interest list after every call**, every `epoll_ctl` it
makes succeeds and no assert fails. -/
theorem ePollPoller_mirrors (F : Fds κ) (as : List (Action κ)) (s : State κ)
    (hr : (machine κ).run (init F) as = some s) :
    (∀ c, (s.channel c).index = kNew ∨ (s.channel c).index = kAdded ∨
      (s.channel c).index = kDeleted) ∧
    (∀ c, s.channels[F.fd c]? = some c ↔ (s.channel c).index ≠ kNew) ∧
    (∀ c, s.interest.contains (F.fd c) = true ↔ (s.channel c).index = kAdded) ∧
    (∀ c, (s.channel c).index = kAdded → s.interest[F.fd c]? = some ((s.channel c).events, c)) ∧
    s.refused = 0 ∧
    (∀ a, (machine κ).enabled s a = true → ∃ s', (machine κ).step s a = .ok s') ∧
    ∀ ready, s.kernelReturns ready = true →
      ∃ s', s.poll (some ready) = .ok s' ∧ s'.activeChannels = ready.map Prod.snd := by
  have h := (Mirror.safe F).run (Mirror.init F) hr
  refine ⟨h.index, fun c => ?_, fun c => ?_, fun c hi => ?_, h.refused, fun a he => ?_,
    fun ready hk => ?_⟩
  · rw [h.registered]
    exact and_iff_right rfl
  · rw [← h.fd, h.contains_interest, decide_eq_true_eq]
  · exact (h.interest _ _ c).2 ⟨rfl, hi, rfl⟩
  · obtain ⟨s', hs', -⟩ := h.step_effect he
    exact ⟨s', hs'⟩
  · obtain ⟨s', hs', hef⟩ := h.poll_effect hk
    cases hef with
    | poll hf => exact ⟨_, hs', by simpa using hf.active⟩

/-- Channels 3 and 4 are added; 3 is disabled, enabled again, disabled and removed. -/
def mirrorRun : List (Action Nat) :=
  [.updateChannel 3 1, .updateChannel 4 1, .updateChannel 3 0, .updateChannel 3 4,
    .updateChannel 3 0, .removeChannel 3, .poll (some [(1, 4)])]

theorem mirrorRun_mirrors :
    ∃ s, (machine Nat).run (init .plain) mirrorRun = some s ∧ (s.channel 3).index = kNew ∧
      s.activeChannels = [4] ∧ (s.interest.contains 4 = true ↔ (s.channel 4).index = kAdded) :=
  ⟨_, rfl, by decide, by decide, (ePollPoller_mirrors .plain mirrorRun _ rfl).2.2.1 4⟩

end Rawmd.EPollPoller
