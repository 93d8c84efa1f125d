import Rawmd.Net.TimerQueueSets

/-!
# The timer queue: its functions move timers in and out of the sets

`Owned s out` is `Memory s` and `Sets s out`.  One lemma for each function says what it
returns, so that no assertion fails and no dead timer is touched, and what is owned then:

    Owned s (p :: out) → insert s p = .ok (inserted, _)   ∧ Owned inserted out  (insert)
    Owned s (p :: out) → delete s p = .ok dropped         ∧ Owned dropped out   (delete)
    Owned s []         → getExpired s now = .ok (s', due) ∧ Owned s' due        (getExpired)
    Owned s expired    → the loop of reset ends in s', ResetLoop s expired s'   (resetLoop)
-/

namespace Rawmd.TimerQueue

/-! ## The functions -/

/-- The state `reset` leaves when it puts the timer `t` at `p` back. -/
def State.restarted (s : State) (p : Addr) (t : Timer) (now : Timestamp) : State :=
  State.inserted { s with heap := Function.update s.heap p (some (t.restart now)) } p
    (t.restart now)

/-- The state after the timerfd is set to the earliest expiration, if that is valid. -/
def State.rearmed (s : State) : State :=
  match s.timers.first? with
  | none => s
  | some e => if Timestamp.valid (ofLex e).1 then s.resetTimerfd (ofLex e).1 else s

/-- The addresses of a batch. -/
abbrev addrs (l : List Entry) : List Addr := l.map fun e => (ofLex e).2

/-- A batch: the entries of `timers_` before the sentry of `getExpired`, in order. -/
def State.due (s : State) (now : Timestamp) : List Entry :=
  s.timers.below (toLex (now, uintptrMax))

structure Owned (s : State) (out : List Addr) : Prop where
  memory : Memory s
  sets : Sets s out

/-- What the loop of `reset` does over a batch that is taken out. -/
inductive ResetLoop (now : Timestamp) : State → List Entry → State → Prop where
  | nil (s : State) : Owned s [] → ResetLoop now s [] s
  | keep {s s' : State} {e : Entry} {l : List Entry} {t : Timer} : Owned s (addrs (e :: l)) →
      s.heap (ofLex e).2 = some t → t.repeats = true →
      toLex ((ofLex e).2, t.sequence) ∉ s.cancelingTimers →
      ResetLoop now (s.restarted (ofLex e).2 t now) l s' → ResetLoop now s (e :: l) s'
  | drop {s s' : State} {e : Entry} {l : List Entry} {t : Timer} : Owned s (addrs (e :: l)) →
      s.heap (ofLex e).2 = some t →
      ¬ (t.repeats = true ∧ toLex ((ofLex e).2, t.sequence) ∉ s.cancelingTimers) →
      ResetLoop now (s.dropped (ofLex e).2 t) l s' → ResetLoop now s (e :: l) s'

theorem ok_bind {α β : Type} (a : α) (f : α → Except Fault β) :
    ((Except.ok a : Except Fault α) >>= f) = f a := rfl

theorem check_true : check true = .ok () := rfl

theorem deref_some {s : State} {p : Addr} {t : Timer} (h : s.heap p = some t) :
    s.deref p = .ok t := by
  unfold State.deref
  rw [h]

theorem delete_some {s : State} {p : Addr} {t : Timer} (h : s.heap p = some t) :
    s.delete p = .ok (s.dropped p t) := by
  unfold State.delete
  rw [deref_some h]
  rfl

namespace Owned

variable {s : State} {out : List Addr} {p : Addr} {t : Timer}

theorem sizesAgree (h : Owned s out) : s.sizesAgree = true := by
  simp [State.sizesAgree, h.sets.sizes]

theorem insert_eq (h : Owned s (p :: out)) (ht : s.heap p = some t) :
    s.insert p = .ok (s.inserted p t, s.isEarliest t.expiration) := by
  have hs : (s.inserted p t).sizesAgree = true := by
    simp [State.sizesAgree, (h.sets.insert ht).sizes]
  have h1 : (s.timers.insert (toLex (t.expiration, p))).2 = true := by
    simp [h.sets.not_mem_timers]
  have h2 : (s.activeTimers.insert (toLex (p, t.sequence))).2 = true := by
    simp [h.sets.not_mem_active]
  unfold State.insert
  rw [h.sizesAgree, deref_some ht]
  simp only [check_true, h1, h2, bind, Except.bind]
  show (check (s.inserted p t).sizesAgree).bind _ = _
  rw [hs]
  rfl

theorem insert (h : Owned s (p :: out)) (ht : s.heap p = some t) : Owned (s.inserted p t) out :=
  ⟨h.memory.congr rfl rfl rfl rfl rfl, h.sets.insert ht⟩

theorem handed_of_out (h : Owned s (p :: out)) (ht : s.heap p = some t) : t.born ∈ s.handed := by
  obtain ⟨u, hu, hb⟩ := h.sets.out_live p List.mem_cons_self
  rw [ht] at hu
  cases hu
  exact hb

theorem delete (h : Owned s (p :: out)) (ht : s.heap p = some t) : Owned (s.dropped p t) out :=
  ⟨h.memory.delete ht (h.handed_of_out ht), h.sets.delete t⟩

theorem erase (h : Owned s out) (hp : s.Waiting out p t) : Owned (s.erased p t) (p :: out) :=
  ⟨h.memory.congr rfl rfl rfl rfl rfl, h.sets.erase hp⟩

theorem hand (h : Owned s out) (ht : s.heap p = some t) (hfresh : t.born ∉ s.handed) :
    Owned { s with handed := s.handed ++ [t.born] } (p :: out) :=
  ⟨h.memory.hand ht hfresh, h.sets.hand h.memory ht hfresh⟩

/-- The state `addTimerInLoop` leaves. -/
theorem addTimerInLoop_eq (h : Owned s out) (ht : s.heap p = some t) (hfresh : t.born ∉ s.handed) :
    s.addTimerInLoop p = .ok (
      if s.isEarliest t.expiration then
        (State.inserted { s with handed := s.handed ++ [t.born] } p t).resetTimerfd t.expiration
      else State.inserted { s with handed := s.handed ++ [t.born] } p t) := by
  unfold State.addTimerInLoop
  rw [deref_some ht]
  have hi := (h.hand ht hfresh).insert_eq (t := t) ht
  simp only [bind, Except.bind, hi]
  show (if s.isEarliest t.expiration = true then _ else _) = _
  split <;> rfl

theorem cancelActive_eq (h : Owned s out) (hw : s.Waiting out p t) :
    s.cancelActive (toLex (p, t.sequence)) = .ok ((s.erased p t).dropped p t) := by
  have he := s.timers.erase_snd _ ((h.sets.timers _ _).2 ⟨t, hw, rfl⟩)
  have hd : State.delete { s with timers := (s.timers.erase (toLex (t.expiration, p))).1 } p =
      .ok (State.dropped { s with timers := (s.timers.erase (toLex (t.expiration, p))).1 } p t) :=
    delete_some hw.1
  unfold State.cancelActive
  simp only [ofLex_toLex, deref_some hw.1, ok_bind, he, beq_self_eq_true, check_true, hd]
  rfl

/-- `cancelInLoop` erases and deletes the timer in the sets that the id names; when there
is none, it notes the id if a batch is being run. -/
theorem cancelInLoop_cases (h : Owned s out) (timerId : TimerId) :
    (∃ t, s.Waiting out timerId.timer t ∧ t.sequence = timerId.sequence ∧
      s.cancelInLoop timerId = .ok ((s.erased timerId.timer t).dropped timerId.timer t)) ∨
    ((∀ t, s.Waiting out timerId.timer t → t.sequence ≠ timerId.sequence) ∧
      s.cancelInLoop timerId = .ok (
        if s.callingExpiredTimers then
          { s with cancelingTimers :=
              (s.cancelingTimers.insert (toLex (timerId.timer, timerId.sequence))).1 }
        else s)) := by
  have hs := h.sizesAgree
  by_cases hm : toLex (timerId.timer, timerId.sequence) ∈ s.activeTimers
  · left
    obtain ⟨t, hw, hseq⟩ := (h.sets.active _ _).1 hm
    refine ⟨t, hw, hseq, ?_⟩
    have hs' := ((h.erase hw).delete hw.1).sizesAgree
    unfold State.cancelInLoop
    rw [hs, check_true, ok_bind, if_pos hm, ← hseq, h.cancelActive_eq hw]
    simp only [ok_bind, hs', check_true]
    rfl
  · right
    constructor
    · intro t hw hseq
      exact hm ((h.sets.active _ _).2 ⟨t, hw, hseq⟩)
    · unfold State.cancelInLoop
      rw [hs, check_true, ok_bind, if_neg hm]
      by_cases hc : s.callingExpiredTimers = true
      · rw [if_pos hc, if_pos hc]
        show check s.sizesAgree >>= _ = _
        rw [hs]
        rfl
      · rw [if_neg hc, if_neg hc]
        show check s.sizesAgree >>= _ = _
        rw [hs]
        rfl

/-! ### `getExpired` -/

/-- The loop of `getExpired` erases the timers of the batch, and only them. -/
theorem eraseActive_loop (l : List Entry) (s : State)
    (hkey : ∀ p seq, toLex (p, seq) ∈ s.activeTimers → ∃ t, s.heap p = some t ∧ t.sequence = seq)
    (hl : ∀ p ∈ addrs l, ∃ t, s.heap p = some t ∧ toLex (p, t.sequence) ∈ s.activeTimers)
    (hnd : (addrs l).Nodup) :
    ∃ A : OrderedSet ActiveTimer, l.foldlM State.eraseActive s = .ok { s with activeTimers := A } ∧
      A.size + l.length = s.activeTimers.size ∧
      ∀ p seq, toLex (p, seq) ∈ A ↔ toLex (p, seq) ∈ s.activeTimers ∧ p ∉ addrs l := by
  induction l generalizing s with
  | nil => exact ⟨s.activeTimers, rfl, rfl, by simp⟩
  | cons e l ih =>
    obtain ⟨t, ht, hm⟩ := hl (ofLex e).2 (by simp)
    simp only [addrs, List.map_cons, List.nodup_cons] at hnd
    have he : s.eraseActive e = .ok { s with
        activeTimers := (s.activeTimers.erase (toLex ((ofLex e).2, t.sequence))).1 } := by
      unfold State.eraseActive
      rw [deref_some ht, ok_bind, s.activeTimers.erase_snd _ hm]
      rfl
    have hne : ∀ q seq, toLex (q, seq) ≠ toLex ((ofLex e).2, t.sequence) ↔
        q ≠ (ofLex e).2 ∨ seq ≠ t.sequence := by
      intro q seq
      simp only [ne_eq, EmbeddingLike.apply_eq_iff_eq, Prod.mk.injEq]
      rw [not_and_or]
    obtain ⟨A, hA, hsize, hmem⟩ := ih { s with
        activeTimers := (s.activeTimers.erase (toLex ((ofLex e).2, t.sequence))).1 }
      (fun p seq hp => hkey p seq ((s.activeTimers.mem_erase _ _).1 hp).1)
      (by
        intro p hp
        obtain ⟨u, hu, hpu⟩ := hl p (by simp [addrs] at hp ⊢; exact Or.inr hp)
        refine ⟨u, hu, (s.activeTimers.mem_erase _ _).2 ⟨hpu, (hne _ _).2 (Or.inl ?_)⟩⟩
        rintro rfl
        exact hnd.1 hp)
      hnd.2
    refine ⟨A, ?_, ?_, ?_⟩
    · rw [List.foldlM_cons, he, ok_bind, hA]
    · have h1 := s.activeTimers.size_erase _ hm
      simp only [List.length_cons] at hsize ⊢
      omega
    · intro p seq
      simp only [hmem, OrderedSet.mem_erase, hne, addrs, List.map_cons, List.mem_cons, not_or]
      constructor
      · rintro ⟨⟨hp, hor⟩, hpl⟩
        refine ⟨hp, ?_, hpl⟩
        rintro rfl
        obtain ⟨u, hu, hseq⟩ := hkey _ _ hp
        rw [ht] at hu
        cases hu
        exact hor.elim (fun h => h rfl) (fun h => h hseq.symm)
      · rintro ⟨hp, hpe, hpl⟩
        exact ⟨⟨hp, Or.inl hpe⟩, hpl⟩

theorem mem_due (h : Owned s []) (now : Timestamp) (when : Timestamp) (p : Addr) :
    toLex (when, p) ∈ s.due now ↔ (∃ t, s.Waiting [] p t ∧ t.expiration = when) ∧ when ≤ now := by
  simp only [State.due, OrderedSet.mem_below, h.sets.timers, Prod.Lex.toLex_lt_toLex]
  constructor
  · rintro ⟨hw, hlt | ⟨heq, -⟩⟩
    · exact ⟨hw, le_of_lt hlt⟩
    · exact ⟨hw, le_of_eq heq⟩
  · rintro ⟨⟨t, hw, ht⟩, hle⟩
    refine ⟨⟨t, hw, ht⟩, ?_⟩
    rcases lt_or_eq_of_le hle with hlt | heq
    · exact Or.inl hlt
    · exact Or.inr ⟨heq, (h.memory.addr p t hw.1).2⟩

theorem due_addrs (h : Owned s []) (now : Timestamp) (p : Addr) :
    p ∈ addrs (s.due now) ↔ ∃ t, s.Waiting [] p t ∧ t.expiration ≤ now := by
  simp only [addrs, List.mem_map]
  constructor
  · rintro ⟨e, he, rfl⟩
    obtain ⟨⟨t, hw, ht⟩, hle⟩ := (h.mem_due now (ofLex e).1 (ofLex e).2).1 he
    exact ⟨t, hw, by rw [ht]; exact hle⟩
  · rintro ⟨t, hw, hle⟩
    exact ⟨toLex (t.expiration, p), (h.mem_due _ _ _).2 ⟨⟨t, hw, rfl⟩, hle⟩, rfl⟩

/-- A timer has one entry. -/
theorem entry_inj (h : Owned s out) {e e' : Entry} (he : e ∈ s.timers) (he' : e' ∈ s.timers)
    (hee : (ofLex e).2 = (ofLex e').2) : e = e' := by
  obtain ⟨t, hw, ht⟩ := (h.sets.timers (ofLex e).1 (ofLex e).2).1 he
  obtain ⟨t', hw', ht'⟩ := (h.sets.timers (ofLex e').1 (ofLex e').2).1 he'
  have hh := hw'.1
  rw [← hee, hw.1] at hh
  cases hh
  exact ofLex.injective (Prod.ext (ht.symm.trans ht') hee)

theorem due_nodup (h : Owned s []) (now : Timestamp) : (addrs (s.due now)).Nodup := by
  refine List.Nodup.map_on ?_ (s.timers.below_nodup _)
  intro e he e' he' hee
  exact h.entry_inj ((s.timers.mem_below _ _).1 he).1 ((s.timers.mem_below _ _).1 he').1 hee

/-- What is not due expires after `now`. -/
theorem waiting_due (h : Owned s []) (now : Timestamp) (q : Addr) (u : Timer) :
    s.Waiting (addrs (s.due now)) q u ↔ s.Waiting [] q u ∧ now < u.expiration := by
  have := h.due_addrs now q
  unfold State.Waiting at this ⊢
  rw [this]
  constructor
  · rintro ⟨hu, hb, hn⟩
    refine ⟨⟨hu, hb, by simp⟩, ?_⟩
    by_contra hle
    exact hn ⟨u, ⟨hu, hb, by simp⟩, not_lt.1 hle⟩
  · rintro ⟨⟨hu, hb, -⟩, hlt⟩
    refine ⟨hu, hb, ?_⟩
    rintro ⟨v, ⟨hv, -, -⟩, hle⟩
    rw [hu] at hv
    cases hv
    exact absurd hlt (not_lt.2 hle)

/-- The timers that are due leave both sets, if `A` is `activeTimers_` without them. -/
theorem takeDue (h : Owned s []) {now : Timestamp} {A : OrderedSet ActiveTimer}
    (hsize : A.size + (s.due now).length = s.activeTimers.size)
    (hmem : ∀ p seq, toLex (p, seq) ∈ A ↔
      toLex (p, seq) ∈ s.activeTimers ∧ p ∉ addrs (s.due now)) :
    Owned { s with timers := s.timers.atLeast (toLex (now, uintptrMax)), activeTimers := A }
      (addrs (s.due now)) := by
  refine ⟨h.memory.congr rfl rfl rfl rfl rfl, ?_, ?_, ?_, ?_, h.due_nodup now⟩
  · intro when p
    show toLex (when, p) ∈ s.timers.atLeast _ ↔ ∃ t, s.Waiting (addrs (s.due now)) p t ∧ _
    simp only [OrderedSet.mem_atLeast, h.sets.timers, h.waiting_due, Prod.Lex.toLex_le_toLex]
    constructor
    · rintro ⟨⟨t, hwt, rfl⟩, hlt | ⟨-, hle⟩⟩
      · exact ⟨t, ⟨hwt, hlt⟩, rfl⟩
      · exact absurd (h.memory.addr p t hwt.1).2 (not_lt.2 hle)
    · rintro ⟨t, ⟨hwt, hlt⟩, rfl⟩
      exact ⟨⟨t, hwt, rfl⟩, Or.inl hlt⟩
  · intro p seq
    show toLex (p, seq) ∈ A ↔ ∃ t, s.Waiting (addrs (s.due now)) p t ∧ _
    rw [hmem, h.sets.active]
    constructor
    · rintro ⟨⟨t, ⟨ht, hb, -⟩, hseq⟩, hp⟩
      exact ⟨t, ⟨ht, hb, hp⟩, hseq⟩
    · rintro ⟨t, ⟨ht, hb, hp⟩, hseq⟩
      exact ⟨⟨t, ⟨ht, hb, by simp⟩, hseq⟩, hp⟩
  · have h1 := s.timers.size_eq_below_add_atLeast (toLex (now, uintptrMax))
    have h2 := h.sets.sizes
    show (s.timers.atLeast _).size = A.size
    simp only [State.due] at hsize
    omega
  · intro p hp
    obtain ⟨t, hwt, -⟩ := (h.due_addrs now p).1 hp
    exact ⟨t, hwt.1, hwt.2.1⟩

/-- `end == timers_.end() || now < end->first` -/
theorem isEarliest_atLeast (h : Owned s []) (now : Timestamp) :
    State.isEarliest { s with timers := s.timers.atLeast (toLex (now, uintptrMax)) } now =
      true := by
  unfold State.isEarliest
  split
  · rfl
  · next e he =>
    obtain ⟨hm, hle⟩ := (s.timers.mem_atLeast _ _).1 (OrderedSet.first?_mem _ _ he)
    obtain ⟨t, hw, ht⟩ := (h.sets.timers (ofLex e).1 (ofLex e).2).1 hm
    have hlex : toLex (now, uintptrMax) ≤ toLex ((ofLex e).1, (ofLex e).2) := hle
    rw [Prod.Lex.toLex_le_toLex] at hlex
    rw [decide_eq_true_eq]
    rcases hlex with hlt | ⟨-, hmax⟩
    · exact hlt
    · exact absurd (h.memory.addr _ t hw.1).2 (not_lt.2 hmax)

/-- `getExpired` takes out the timers that expire up to `now`. -/
theorem getExpired (h : Owned s []) (now : Timestamp) :
    ∃ A, s.getExpired now =
        .ok ({ s with timers := s.timers.atLeast (toLex (now, uintptrMax)), activeTimers := A },
          s.due now) ∧
      Owned { s with timers := s.timers.atLeast (toLex (now, uintptrMax)), activeTimers := A }
        (addrs (s.due now)) := by
  obtain ⟨A, hA, hsize, hmem⟩ := eraseActive_loop (s.due now)
    { s with timers := s.timers.atLeast (toLex (now, uintptrMax)) }
    (by
      intro p seq hp
      obtain ⟨t, hw, hseq⟩ := (h.sets.active p seq).1 hp
      exact ⟨t, hw.1, hseq⟩)
    (by
      intro p hp
      obtain ⟨t, hw, -⟩ := (h.due_addrs now p).1 hp
      exact ⟨t, hw.1, (h.sets.active _ _).2 ⟨t, hw, rfl⟩⟩)
    (h.due_nodup now)
  have ho := h.takeDue hsize hmem
  refine ⟨A, ?_, ho⟩
  unfold State.getExpired
  rw [h.sizesAgree]
  simp only [check_true, ok_bind, h.isEarliest_atLeast now]
  have hA' : (s.timers.below (toLex (now, uintptrMax))).foldlM State.eraseActive
      { s with timers := s.timers.atLeast (toLex (now, uintptrMax)) } = _ := hA
  simp only [hA', ok_bind, ho.sizesAgree, check_true]
  rfl

/-! ### `reset` -/

theorem restart_born (t : Timer) (now : Timestamp) : (t.restart now).born = t.born := by
  unfold Timer.restart
  split <;> rfl

theorem restart_sequence (t : Timer) (now : Timestamp) :
    (t.restart now).sequence = t.sequence := by
  unfold Timer.restart
  split <;> rfl

theorem restart (h : Owned s (p :: out)) (ht : s.heap p = some t) (now : Timestamp) :
    Owned { s with heap := Function.update s.heap p (some (t.restart now)) } (p :: out) :=
  ⟨h.memory.setTimer ht (restart_born t now) (restart_sequence t now),
    h.sets.setTimer ht (restart_born t now)⟩

theorem restarted (h : Owned s (p :: out)) (ht : s.heap p = some t) (now : Timestamp) :
    Owned (s.restarted p t now) out :=
  (h.restart ht now).insert (by simp)

theorem resetOne_keep {e : Entry} (h : Owned s ((ofLex e).2 :: out))
    (ht : s.heap (ofLex e).2 = some t) (now : Timestamp)
    (hk : t.repeats = true ∧ toLex ((ofLex e).2, t.sequence) ∉ s.cancelingTimers) :
    s.resetOne now e = .ok (s.restarted (ofLex e).2 t now) := by
  have hi := (h.restart ht now).insert_eq (t := t.restart now) (by simp)
  unfold State.resetOne
  simp only [deref_some ht, ok_bind]
  rw [if_pos hk, hi]
  rfl

theorem resetOne_drop {e : Entry} (ht : s.heap (ofLex e).2 = some t) (now : Timestamp)
    (hk : ¬ (t.repeats = true ∧ toLex ((ofLex e).2, t.sequence) ∉ s.cancelingTimers)) :
    s.resetOne now e = .ok (s.dropped (ofLex e).2 t) := by
  unfold State.resetOne
  simp only [deref_some ht, ok_bind]
  rw [if_neg hk, delete_some ht]

/-- The loop of `reset` ends, with no fault, in a state where nothing is taken out. -/
theorem resetLoop (now : Timestamp) (l : List Entry) (s : State) (h : Owned s (addrs l)) :
    ∃ s', l.foldlM (fun s e => s.resetOne now e) s = .ok s' ∧ ResetLoop now s l s' := by
  induction l generalizing s with
  | nil => exact ⟨s, rfl, .nil s h⟩
  | cons e l ih =>
    obtain ⟨t, ht, -⟩ := h.sets.out_live (ofLex e).2 (by simp)
    rw [List.foldlM_cons]
    by_cases hk : t.repeats = true ∧ toLex ((ofLex e).2, t.sequence) ∉ s.cancelingTimers
    · rw [resetOne_keep h ht now hk, ok_bind]
      obtain ⟨s', hs', hl⟩ := ih _ (Owned.restarted h ht now)
      exact ⟨s', hs', .keep h ht hk.1 hk.2 hl⟩
    · rw [resetOne_drop ht now hk, ok_bind]
      obtain ⟨s', hs', hl⟩ := ih _ (Owned.delete h ht)
      exact ⟨s', hs', .drop h ht hk hl⟩

theorem rearm_eq (h : Owned s []) : s.rearm = .ok s.rearmed := by
  unfold State.rearm State.rearmed
  cases hf : s.timers.first? with
  | none => rfl
  | some e =>
    obtain ⟨t, hw, ht⟩ := (h.sets.timers (ofLex e).1 (ofLex e).2).1 (s.timers.first?_mem _ hf)
    simp only [deref_some hw.1, ok_bind]
    show (if Timestamp.valid t.expiration = true then _ else _) = _
    rw [ht]
    split <;> rfl

theorem rearmed (h : Owned s []) : Owned s.rearmed [] := by
  unfold State.rearmed
  split
  · exact h
  · split
    · exact ⟨h.memory.congr rfl rfl rfl rfl rfl, h.sets.congr rfl rfl rfl rfl⟩
    · exact h

/-! ### The destructor -/

theorem deleteLoop (l : List Entry) (s : State) (hm : Memory s)
    (hl : ∀ p ∈ addrs l, ∃ t, s.heap p = some t ∧ t.born ∈ s.handed) (hnd : (addrs l).Nodup) :
    ∃ H D, l.foldlM (fun s e => s.delete (ofLex e).2) s = .ok { s with heap := H, deleted := D } ∧
      Memory { s with heap := H, deleted := D } ∧
      ∀ q u, H q = some u ↔ s.heap q = some u ∧ q ∉ addrs l := by
  induction l generalizing s with
  | nil => exact ⟨s.heap, s.deleted, rfl, hm, by simp⟩
  | cons e l ih =>
    obtain ⟨t, ht, hb⟩ := hl (ofLex e).2 (by simp)
    simp only [addrs, List.map_cons, List.nodup_cons] at hnd
    obtain ⟨H, D, hHD, hmem, hH⟩ := ih (s.dropped (ofLex e).2 t) (hm.delete ht hb)
      (by
        intro p hp
        obtain ⟨u, hu, hbu⟩ := hl p (by simp [addrs] at hp ⊢; exact Or.inr hp)
        have hpe : p ≠ (ofLex e).2 := by
          rintro rfl
          exact hnd.1 hp
        exact ⟨u, by simpa [State.dropped, Function.update_apply, hpe] using hu, hbu⟩)
      hnd.2
    refine ⟨H, D, ?_, hmem, ?_⟩
    · rw [List.foldlM_cons, delete_some ht, ok_bind, hHD]
      rfl
    · intro q u
      rw [hH]
      simp only [State.dropped, Function.update_apply, addrs, List.map_cons, List.mem_cons, not_or]
      by_cases hq : q = (ofLex e).2
      · simp [hq]
      · simp [hq]

/-- The destructor deletes the timers that were given to the loop and are left. -/
theorem destroy (h : Owned s []) :
    ∃ H D, s.destroy = .ok { s with
        heap := H
        deleted := D
        timers := .empty
        activeTimers := .empty
        cancelingTimers := .empty
        phase := .destroyed } ∧
      Memory { s with heap := H, deleted := D } ∧
      ∀ q u, H q = some u ↔ s.heap q = some u ∧ u.born ∉ s.handed := by
  have hmem : ∀ p, p ∈ addrs s.timers.toList ↔ ∃ t, s.Waiting [] p t := by
    intro p
    simp only [addrs, List.mem_map]
    constructor
    · rintro ⟨e, he, rfl⟩
      obtain ⟨t, hw, -⟩ := (h.sets.timers (ofLex e).1 (ofLex e).2).1 he
      exact ⟨t, hw⟩
    · rintro ⟨t, hw⟩
      exact ⟨toLex (t.expiration, p), (h.sets.timers _ _).2 ⟨t, hw, rfl⟩, rfl⟩
  have hnd : (addrs s.timers.toList).Nodup := by
    refine List.Nodup.map_on ?_ s.timers.nodup
    intro e he e' he' hee
    exact h.entry_inj he he' hee
  obtain ⟨H, D, hHD, hM, hH⟩ := deleteLoop s.timers.toList s h.memory
    (fun p hp => by
      obtain ⟨t, hw⟩ := (hmem p).1 hp
      exact ⟨t, hw.1, hw.2.1⟩)
    hnd
  refine ⟨H, D, ?_, hM, ?_⟩
  · unfold State.destroy
    rw [hHD]
    rfl
  · intro q u
    rw [hH, hmem]
    constructor
    · rintro ⟨hu, hn⟩
      exact ⟨hu, fun hb => hn ⟨u, hu, hb, by simp⟩⟩
    · rintro ⟨hu, hn⟩
      refine ⟨hu, ?_⟩
      rintro ⟨v, hv, hb, -⟩
      rw [hu] at hv
      cases hv
      exact hn hb

end Owned

end Rawmd.TimerQueue
