import Rawmd.Net.TimerQueueInv

/-!
# What one `handleRead` fires

`handleRead` takes the timers that are due out of both sets, runs them in the order of their
expirations and lets `reset` put the repeating ones back.  Whatever the callbacks do in between,
`Between` says what becomes of the batch and of the timers in the sets.

    Owned s []                           → getExpired takes out the due timers   (Owned.extracts)
    run s bs = some s', reset is not in bs → Between s bs s'                      (Between.run)
    ResetLoop s l s'                     → Resets s l s'                         (ResetLoop.resets)
-/

namespace Rawmd.TimerQueue

open MachineInt

/-- `t` at `p` is alive and in both sets. -/
def State.Pending (s : State) (p : Addr) (t : Timer) : Prop := s.heap p = some t ∧ s.InSets p t

/-- Neither set has an element for `p`. -/
def State.OutOfSets (s : State) (p : Addr) : Prop :=
  (∀ when, toLex (when, p) ∉ s.timers) ∧ ∀ seq, toLex (p, seq) ∉ s.activeTimers

/-- The numbers of the timers of `l`, in order. -/
def State.numbers (s : State) (l : List Entry) : List Nat :=
  l.filterMap fun e => (s.heap (ofLex e).2).map Timer.born

theorem numbers_congr {s s' : State} {l : List Entry}
    (h : ∀ p ∈ addrs l, s'.heap p = s.heap p) : s'.numbers l = s.numbers l := by
  refine List.filterMap_congr fun e he => ?_
  rw [h _ (List.mem_map.2 ⟨e, he, rfl⟩)]

theorem numbers_cons {s : State} {e : Entry} {t : Timer} (ht : s.heap (ofLex e).2 = some t)
    (l : List Entry) : s.numbers (e :: l) = t.born :: s.numbers l := by
  unfold State.numbers
  rw [List.filterMap_cons_some (b := t.born) (by rw [ht]; rfl)]

theorem mem_numbers {s : State} {l : List Entry} {g : Nat} :
    g ∈ s.numbers l ↔ ∃ p ∈ addrs l, ∃ t, s.heap p = some t ∧ t.born = g := by
  simp only [State.numbers, addrs, List.mem_filterMap, Option.map_eq_some_iff, List.mem_map]
  constructor
  · rintro ⟨e, he, t, ht, hb⟩
    exact ⟨_, ⟨e, he, rfl⟩, t, ht, hb⟩
  · rintro ⟨p, ⟨e, he, rfl⟩, t, ht, hb⟩
    exact ⟨e, he, t, ht, hb⟩

/-- Different live timers have different numbers. -/
theorem Memory.numbers_once {s : State} (h : Memory s) {l : List Entry}
    (hl : ∀ p ∈ addrs l, ∃ t, s.heap p = some t) (hnd : (addrs l).Nodup) :
    (s.numbers l).length = l.length ∧ (s.numbers l).Nodup := by
  induction l with
  | nil => exact ⟨rfl, List.nodup_nil⟩
  | cons e l ih =>
    simp only [addrs, List.map_cons, List.nodup_cons, List.mem_cons, forall_eq_or_imp] at hl hnd
    obtain ⟨⟨t, ht⟩, hl⟩ := hl
    obtain ⟨hlen, honce⟩ := ih hl hnd.2
    rw [numbers_cons ht]
    refine ⟨by rw [List.length_cons, List.length_cons, hlen], List.nodup_cons.2 ⟨?_, honce⟩⟩
    intro hm
    obtain ⟨p, hp, u, hu, hb⟩ := mem_numbers.1 hm
    exact hnd.1 (h.born_inj _ _ _ _ hu ht hb ▸ hp)

/-! ## `getExpired` -/

/-- What is left of `s` in `s'` and what is in `expired` once the timers due at `now` are
taken out. -/
structure Extracts (s : State) (now : Timestamp) (s' : State) (expired : List Entry) : Prop where
  heap : s'.heap = s.heap
  started : s'.started = s.started
  ordered : expired.Pairwise fun e e' => (ofLex e).1 ≤ (ofLex e').1
  once : (addrs expired).Nodup
  mem_iff : ∀ e, e ∈ expired ↔ e ∈ s.timers ∧ (ofLex e).1 ≤ now
  timers : ∀ e, e ∈ s'.timers ↔ e ∈ s.timers ∧ now < (ofLex e).1
  active : ∀ k, k ∈ s'.activeTimers ↔
    k ∈ s.activeTimers ∧ ∃ t, s.heap (ofLex k).1 = some t ∧ now < t.expiration

theorem Owned.extracts {s s' : State} (h : Owned s []) {now : Timestamp}
    (hheap : s'.heap = s.heap) (hhanded : s'.handed = s.handed) (hstarted : s'.started = s.started)
    (h' : Owned s' (addrs (s.due now))) : Extracts s now s' (s.due now) := by
  have hwait : ∀ q u, s'.Waiting (addrs (s.due now)) q u ↔
      s.Waiting [] q u ∧ now < u.expiration := by
    intro q u
    rw [← h.waiting_due now q u]
    unfold State.Waiting
    rw [hheap, hhanded]
  refine ⟨hheap, hstarted, ?_, h.due_nodup now, ?_, ?_, ?_⟩
  · exact (s.timers.below_sorted _).imp fun hlt => Prod.Lex.monotone_fst _ _ (le_of_lt hlt)
  · intro e
    have hd := h.mem_due now (ofLex e).1 (ofLex e).2
    rw [← h.sets.timers] at hd
    exact hd
  · intro e
    have h₁ := h'.sets.timers (ofLex e).1 (ofLex e).2
    have h₂ := h.sets.timers (ofLex e).1 (ofLex e).2
    simp only [hwait] at h₁
    constructor
    · intro he
      obtain ⟨t, ⟨hw, hlt⟩, ht⟩ := h₁.1 he
      exact ⟨h₂.2 ⟨t, hw, ht⟩, ht ▸ hlt⟩
    · rintro ⟨he, hlt⟩
      obtain ⟨t, hw, ht⟩ := h₂.1 he
      exact h₁.2 ⟨t, ⟨hw, ht ▸ hlt⟩, ht⟩
  · intro k
    have h₁ := h'.sets.active (ofLex k).1 (ofLex k).2
    have h₂ := h.sets.active (ofLex k).1 (ofLex k).2
    simp only [hwait] at h₁
    constructor
    · intro hk
      obtain ⟨t, ⟨hw, hlt⟩, ht⟩ := h₁.1 hk
      exact ⟨h₂.2 ⟨t, hw, ht⟩, t, hw.1, hlt⟩
    · rintro ⟨hk, u, hu, hlt⟩
      obtain ⟨t, hw, ht⟩ := h₂.1 hk
      have heap := hw.1
      rw [hu] at heap
      cases heap
      exact h₁.2 ⟨u, ⟨hw, hlt⟩, ht⟩

/-! ## The callbacks -/

/-- From `s` to `s'` by the actions `bs`, all of them in the loop of `handleRead` over
`expired`. -/
structure Between (now : Timestamp) (expired : List Entry) (s : State) (bs : List Action)
    (s' : State) : Prop where
  inv : Inv s'
  phase : ∃ rest, s'.phase = .calling now expired rest
  heap : ∀ p ∈ addrs expired, s'.heap p = s.heap p
  started : s'.started ++ s'.numbers s'.rest = s.started ++ s.numbers s.rest
  canceling : ∀ p ∈ addrs expired, ∀ seq, toLex (p, seq) ∈ s'.cancelingTimers ↔
    toLex (p, seq) ∈ s.cancelingTimers ∨ .cancelInLoop ⟨p, seq⟩ ∈ bs
  kept : ∀ p t, s.Pending p t → .cancelInLoop ⟨p, t.sequence⟩ ∉ bs → s'.Pending p t
  only : ∀ p t, s'.Pending p t → s.Pending p t ∨ .addTimerInLoop p ∈ bs

namespace Between

variable {now : Timestamp} {expired rest : List Entry} {s s' s'' : State} {as bs : List Action}

theorem refl (h : Inv s) (hphase : s.phase = .calling now expired rest) :
    Between now expired s [] s where
  inv := h
  phase := ⟨rest, hphase⟩
  heap _ _ := rfl
  started := rfl
  canceling := by simp
  kept _ _ hp _ := hp
  only _ _ hp := .inl hp

theorem trans (h : Between now expired s as s') (h' : Between now expired s' bs s'') :
    Between now expired s (as ++ bs) s'' where
  inv := h'.inv
  phase := h'.phase
  heap p hp := (h'.heap p hp).trans (h.heap p hp)
  started := h'.started.trans h.started
  canceling p hp seq := by
    rw [h'.canceling p hp, h.canceling p hp, List.mem_append, or_assoc]
  kept p t hp hn := by
    rw [List.mem_append, not_or] at hn
    exact h'.kept p t (h.kept p t hp hn.1) hn.2
  only p t hp := by
    rw [List.mem_append]
    rcases h'.only p t hp with hp | ha
    · exact (h.only p t hp).imp_right .inl
    · exact .inr (.inr ha)

theorem pending_inserted {p q : Addr} {t u : Timer} (hq : s.Pending q u) :
    (s.inserted p t).Pending q u :=
  ⟨hq.1, by simp [State.inserted, hq.2.1], by simp [State.inserted, hq.2.2]⟩

theorem of_pending_inserted {p q : Addr} {t u : Timer} (hq : (s.inserted p t).Pending q u) :
    s.Pending q u ∨ Action.addTimerInLoop p = .addTimerInLoop q := by
  by_cases hqp : q = p
  · exact .inr (by rw [hqp])
  · refine .inl ⟨hq.1, ?_, ?_⟩
    · simpa [State.inserted, hqp] using hq.2.1
    · simpa [State.inserted, hqp] using hq.2.2

/-- An action of the callbacks, or of another thread, that leaves the place in the loop. -/
theorem of_same_phase {a : Action} (h : Inv s) (hphase : s.phase = .calling now expired rest)
    (h' : Inv s') (hphase' : s'.phase = s.phase) (hstarted : s'.started = s.started)
    (hheap : ∀ p ∈ addrs expired, s'.heap p = s.heap p)
    (hcanceling : ∀ p ∈ addrs expired, ∀ seq, toLex (p, seq) ∈ s'.cancelingTimers ↔
      toLex (p, seq) ∈ s.cancelingTimers ∨ a = .cancelInLoop ⟨p, seq⟩)
    (hkept : ∀ p t, s.Pending p t → a ≠ .cancelInLoop ⟨p, t.sequence⟩ → s'.Pending p t)
    (honly : ∀ p t, s'.Pending p t → s.Pending p t ∨ a = .addTimerInLoop p) :
    Between now expired s [a] s' where
  inv := h'
  phase := ⟨rest, hphase'.trans hphase⟩
  heap := hheap
  started := by
    obtain ⟨ran, hran⟩ := h.ran
    simp only [State.batch, State.rest, hphase] at hran
    have hrest : s'.rest = s.rest := by simp only [State.rest, hphase']
    rw [hstarted, hrest, numbers_congr]
    intro p hp
    refine hheap p ?_
    simp only [State.rest, hphase] at hp
    rw [hran, addrs, List.map_append]
    exact List.mem_append_right _ hp
  canceling p hp seq := by
    rw [hcanceling p hp seq, List.mem_singleton]
    exact or_congr_right eq_comm
  kept p t hp hn := hkept p t hp fun ha => hn (by rw [ha]; exact List.mem_singleton_self _)
  only p t hp := (honly p t hp).imp_right fun ha => by rw [ha]; exact List.mem_singleton_self _

/-- A new timer is at none of the addresses in use. -/
theorem of_newTimer {p : Addr} {when : Timestamp} {interval : Seconds} (h : Inv s)
    (hphase : s.phase = .calling now expired rest) (hfree : s.heap p = none)
    (h' : Inv (s.newTimer p when interval)) :
    Between now expired s [.newTimer p when interval] (s.newTimer p when interval) := by
  have ho := h.owned_calling hphase
  have hne : ∀ q u, s.heap q = some u → q ≠ p := by
    rintro q u hu rfl
    rw [hfree] at hu
    cases hu
  have hheap : ∀ q, q ≠ p → (s.newTimer p when interval).heap q = s.heap q :=
    fun q hq => Function.update_of_ne hq _ _
  refine of_same_phase h hphase h' rfl rfl ?_ (by simp [State.newTimer]) ?_ ?_
  · intro q hq
    obtain ⟨u, hu, -⟩ := ho.sets.out_live q hq
    exact hheap q (hne q u hu)
  · rintro q u ⟨hu, hs⟩ -
    exact ⟨(hheap q (hne q u hu)).trans hu, hs⟩
  · rintro q u ⟨hu, hs⟩
    obtain ⟨v, hw, -⟩ := (ho.sets.timers _ _).1 hs.1
    rw [hheap q (hne q v hw.1)] at hu
    exact .inl ⟨hu, hs⟩

/-- A timer that `cancelInLoop` erases is not of the batch. -/
theorem of_cancelActive {timerId : TimerId} {t : Timer} (h : Inv s)
    (hphase : s.phase = .calling now expired rest)
    (hw : s.Waiting (addrs expired) timerId.timer t) (hseq : t.sequence = timerId.sequence)
    (h' : Inv ((s.erased timerId.timer t).dropped timerId.timer t)) :
    Between now expired s [.cancelInLoop timerId]
      ((s.erased timerId.timer t).dropped timerId.timer t) := by
  have hheap : ∀ q, q ≠ timerId.timer →
      ((s.erased timerId.timer t).dropped timerId.timer t).heap q = s.heap q :=
    fun q hq => Function.update_of_ne hq _ _
  refine of_same_phase h hphase h' rfl rfl ?_ ?_ ?_ ?_
  · intro q hq
    refine hheap q ?_
    rintro rfl
    exact hw.2.2 hq
  · intro q hq seq
    refine ⟨.inl, fun hor => hor.resolve_right ?_⟩
    intro ha
    cases ha
    exact hw.2.2 hq
  · rintro q u ⟨hu, hs⟩ hne
    have hq : q ≠ timerId.timer := by
      rintro rfl
      rw [hw.1] at hu
      cases hu
      exact hne (by rw [hseq])
    refine ⟨(hheap q hq).trans hu, ?_, ?_⟩
    · simpa [State.dropped, State.erased, hq] using hs.1
    · simpa [State.dropped, State.erased, hq] using hs.2
  · rintro q u ⟨hu, hs⟩
    have hq : q ≠ timerId.timer := by
      rintro rfl
      simp [State.dropped] at hu
    rw [hheap q hq] at hu
    simp only [State.InSets, State.dropped, State.erased, OrderedSet.mem_erase] at hs
    exact .inl ⟨hu, hs.1.1, hs.2.1⟩

theorem of_effect {a : Action} (h : Inv s) (hphase : s.phase = .calling now expired rest)
    (hreset : a ≠ .reset) (he : Effect s a s') : Between now expired s [a] s' := by
  have h' := h.effect he
  cases he with
  | newTimer _ hfree _ => exact of_newTimer h hphase hfree h'
  | addEarliest _ _ _ _ =>
    exact of_same_phase h hphase h' rfl rfl (fun _ _ => rfl)
      (by simp [State.inserted, State.resetTimerfd]) (fun q u hq _ => pending_inserted hq)
      (fun q u hq => of_pending_inserted hq)
  | addLater _ _ _ _ =>
    exact of_same_phase h hphase h' rfl rfl (fun _ _ => rfl) (by simp [State.inserted])
      (fun q u hq _ => pending_inserted hq) (fun q u hq => of_pending_inserted hq)
  | cancelActive _ hw hseq =>
    rw [show s.batch = expired by simp only [State.batch, hphase]] at hw
    exact of_cancelActive h hphase hw hseq h'
  | @cancelNoted timerId _ _ _ =>
    refine of_same_phase h hphase h' rfl rfl (fun _ _ => rfl) ?_ (fun _ _ hp _ => hp)
      (fun _ _ hp => .inl hp)
    rintro p - seq
    rw [OrderedSet.mem_insert, or_comm]
    refine or_congr_right ?_
    cases timerId
    simp [eq_comm]
  | cancelStale _ _ hc =>
    have := h.calling.2 ⟨now, expired, rest, hphase⟩
    rw [hc] at this
    cases this
  | handleRead hidle =>
    rw [hphase] at hidle
    cases hidle
  | readTimerfd hentered _ =>
    rw [hphase] at hentered
    cases hentered
  | @runCallback now' expired' rest' e t hcalling ht =>
    rw [hphase] at hcalling
    cases hcalling
    refine ⟨h', ⟨rest', rfl⟩, fun _ _ => rfl, ?_, by simp, fun _ _ hp _ => hp,
      fun _ _ hp => .inl hp⟩
    simp only [State.rest, hphase]
    rw [numbers_cons ht]
    show s.started ++ [t.born] ++ s.numbers rest' = _
    rw [List.append_assoc, List.singleton_append]
  | reset _ _ => exact absurd rfl hreset
  | clock _ =>
    exact of_same_phase h hphase h' rfl rfl (fun _ _ => rfl) (by simp) (fun _ _ hp _ => hp)
      (fun _ _ hp => .inl hp)
  | destroy hidle _ _ =>
    rw [hphase] at hidle
    cases hidle

theorem run (h : Inv s) (hphase : s.phase = .calling now expired rest) (hreset : .reset ∉ bs)
    (hr : machine.run s bs = some s') : Between now expired s bs s' := by
  induction bs generalizing s rest with
  | nil =>
    cases hr
    exact refl h hphase
  | cons a bs ih =>
    rw [List.mem_cons, not_or] at hreset
    obtain ⟨he, t, ht, hr⟩ := (machine.run_cons_iff _ _ _ _).1 hr
    have hstep := of_effect h hphase (Ne.symm hreset.1) (h.effect_of_step (a := a) he ht)
    obtain ⟨rest', hrest'⟩ := hstep.phase
    exact hstep.trans (ih hstep.inv hrest' hreset.2 hr)

end Between

/-- Whatever the callbacks have done so far, the rest of them can run and `reset` ends the
call. -/
theorem Inv.finish {s : State} {now : Timestamp} {expired rest : List Entry} (h : Inv s)
    (hphase : s.phase = .calling now expired rest) :
    ∃ ds s₁ s', .reset ∉ ds ∧ machine.run s ds = some s₁ ∧ machine.run s₁ [.reset] = some s' := by
  induction rest generalizing s with
  | nil =>
    have hen : machine.enabled s .reset = true := by simp [machine, enabled, hphase]
    obtain ⟨s', hs', -⟩ := h.step_effect hen
    exact ⟨[], s, s', List.not_mem_nil, rfl, machine.run_single hen hs'⟩
  | cons e rest ih =>
    have hen : machine.enabled s .runCallback = true := by simp [machine, enabled, hphase]
    obtain ⟨u, hu, hef⟩ := h.step_effect hen
    have hinv := h.effect hef
    have hphase' : u.phase = .calling now expired rest := by
      cases hef with
      | runCallback hcalling _ =>
        rw [hphase] at hcalling
        cases hcalling
        rfl
    obtain ⟨ds, s₁, s', hds, hr, hreset⟩ := ih hinv hphase'
    refine ⟨.runCallback :: ds, s₁, s', ?_, (machine.run_cons_iff _ _ _ _).2 ⟨hen, u, hu, hr⟩,
      hreset⟩
    rw [List.mem_cons, not_or]
    exact ⟨Action.noConfusion, hds⟩

/-! ## `reset` -/

/-- From `s` to `s'` the timers of `l` are restarted or deleted, and no other changes. -/
structure Resets (now : Timestamp) (s : State) (l : List Entry) (s' : State) : Prop where
  other : ∀ q ∉ addrs l, s'.heap q = s.heap q
  batch : ∀ p ∈ addrs l, ∀ t, s.heap p = some t → s'.heap p =
    if t.repeats = true ∧ toLex (p, t.sequence) ∉ s.cancelingTimers then some (t.restart now)
    else none

/-- One round of the loop, which leaves `r` of the timer `t` of `e`. -/
theorem Resets.cons {now : Timestamp} {s u s' : State} {e : Entry} {l : List Entry} {t : Timer}
    {r : Option Timer} (h : Resets now u l s') (hel : (ofLex e).2 ∉ addrs l)
    (ht : s.heap (ofLex e).2 = some t) (hu : u.heap = Function.update s.heap (ofLex e).2 r)
    (hcanceling : u.cancelingTimers = s.cancelingTimers)
    (hr : r = if t.repeats = true ∧ toLex ((ofLex e).2, t.sequence) ∉ s.cancelingTimers then
      some (t.restart now) else none) : Resets now s (e :: l) s' := by
  have hheap : ∀ q, q ≠ (ofLex e).2 → u.heap q = s.heap q := by
    intro q hq
    rw [hu, Function.update_of_ne hq]
  constructor
  · intro q hq
    rw [addrs, List.map_cons, List.mem_cons, not_or] at hq
    exact (h.other q hq.2).trans (hheap q hq.1)
  · intro p hp v hv
    by_cases hpe : p = (ofLex e).2
    · subst hpe
      rw [ht] at hv
      cases hv
      rw [h.other _ hel, hu, Function.update_self, hr]
    · rw [addrs, List.map_cons, List.mem_cons] at hp
      rw [h.batch p (hp.resolve_left hpe) v ((hheap p hpe).trans hv), hcanceling]

theorem ResetLoop.resets {now : Timestamp} {s s' : State} {l : List Entry}
    (h : ResetLoop now s l s') : Resets now s l s' := by
  induction h with
  | nil s _ => exact ⟨fun _ _ => rfl, by simp⟩
  | keep ho ht hrep hn _ ih =>
    exact ih.cons (List.nodup_cons.1 ho.sets.out_nodup).1 ht rfl rfl (if_pos ⟨hrep, hn⟩).symm
  | drop ho ht hn _ ih =>
    exact ih.cons (List.nodup_cons.1 ho.sets.out_nodup).1 ht rfl rfl (if_neg hn).symm

theorem Effect.resets {now : Timestamp} {expired rest : List Entry} {s s' : State}
    (hphase : s.phase = .calling now expired rest) (he : Effect s .reset s') :
    rest = [] ∧ s'.batch = [] ∧ s'.handed = s.handed ∧ s'.started = s.started ∧
      Resets now s expired s' := by
  cases he with
  | @reset now' expired' u hcalling hl =>
    rw [hphase] at hcalling
    cases hcalling
    have hr := hl.resets
    rw [rearmed_frame, hl.frame]
    exact ⟨rfl, rfl, rfl, rfl, hr.other, hr.batch⟩

/-! ## The whole call -/

/-- What a `handleRead` at `now` has done in `s'`, when it began in `s`, called the first
callback in `s₁` and returned from the last one in `s₂`, with the actions `bs` in between. -/
structure Fires (s : State) (now : Timestamp) (s₁ : State) (bs : List Action) (s₂ s' : State) :
    Prop where
  /-- the timers that were due run in their order, each of them once, and no other -/
  started : s'.started = s.started ++ s.numbers (s.due now)
  all : (s.numbers (s.due now)).length = (s.due now).length
  once : (s.numbers (s.due now)).Nodup
  /-- they are in the sets again, an interval later, or deleted -/
  rearmed : ∀ p t, s.Pending p t → t.expiration ≤ now →
    (s'.Pending p { t with expiration := addTime now t.interval } ↔
      t.repeats = true ∧ .cancelInLoop ⟨p, t.sequence⟩ ∉ bs)
  deleted : ∀ p t, s.Pending p t → t.expiration ≤ now →
    ¬ (t.repeats = true ∧ .cancelInLoop ⟨p, t.sequence⟩ ∉ bs) →
    s'.heap p = none ∧ s'.OutOfSets p ∧ t.born ∈ s'.deleted
  /-- a timer that is added meanwhile is not run and stays, if it is not cancelled later -/
  added : ∀ cs p ds v t, bs = cs ++ .addTimerInLoop p :: ds → machine.run s₁ cs = some v →
    v.heap p = some t → .cancelInLoop ⟨p, t.sequence⟩ ∉ ds →
    s'.Pending p t ∧ t.born ∉ s.numbers (s.due now)
  /-- so does a timer that was not due -/
  later : ∀ p t, s.Pending p t → now < t.expiration → .cancelInLoop ⟨p, t.sequence⟩ ∉ bs →
    s'.Pending p t ∧ t.born ∉ s.numbers (s.due now)
  /-- apart from the callbacks, nothing happens to the timers out of the batch -/
  others : ∀ p ∉ addrs (s.due now), s'.heap p = s₂.heap p ∧
    ∀ t, s'.Pending p t ↔ s₂.Pending p t
  only : ∀ p ∉ addrs (s.due now), ∀ t, s'.Pending p t →
    s.Pending p t ∨ .addTimerInLoop p ∈ bs

section

variable {s s₁ v s₂ s' : State} {now : Timestamp} {expired rest : List Entry}
  {as bs ds : List Action}

/-- A timer in the sets is not of the batch. -/
theorem Inv.pending_not_mem (h : Inv s) (hphase : s.phase = .calling now expired rest) {p : Addr}
    {t : Timer} (hp : s.Pending p t) : p ∉ addrs expired ∧ t.born ∉ s.numbers expired := by
  have ho := h.owned_calling hphase
  have hn := ((ho.sets.waiting_iff p t).2 hp).2.2
  refine ⟨hn, fun hm => ?_⟩
  obtain ⟨q, hq, u, hu, hb⟩ := mem_numbers.1 hm
  exact hn (ho.memory.born_inj _ _ _ _ hu hp.1 hb ▸ hq)

/-- `readTimerfd` enters the loop over the timers that are due. -/
theorem Effect.extracts (h : Inv s) (hphase : s.phase = .entered now)
    (he : Effect s .readTimerfd s₁) :
    Extracts s now s₁ (s.due now) ∧ s₁.phase = .calling now (s.due now) (s.due now) ∧
      s₁.cancelingTimers = .empty := by
  have ho := h.owned_entered hphase
  have h₁ := h.effect he
  cases he with
  | readTimerfd hentered hoA =>
    rw [hphase] at hentered
    cases hentered
    exact ⟨ho.extracts rfl rfl rfl h₁.owned, rfl, rfl⟩

theorem Extracts.pending_iff (h : Extracts s now s₁ expired) (p : Addr) (t : Timer) :
    s₁.Pending p t ↔ s.Pending p t ∧ now < t.expiration := by
  unfold State.Pending State.InSets
  rw [h.heap, h.timers, h.active]
  constructor
  · rintro ⟨ht, ⟨hs, hlt⟩, ha, -⟩
    exact ⟨⟨ht, hs, ha⟩, hlt⟩
  · rintro ⟨⟨ht, hs, ha⟩, hlt⟩
    exact ⟨ht, ⟨hs, hlt⟩, ha, t, ht, hlt⟩

/-- What `reset` makes of a timer that is not of the batch, if the batch was run from `s₁` to
`s₂`. -/
theorem Between.pending_reset (hb : Between now expired s₁ bs s₂) (he : Effect s₂ .reset s')
    {p : Addr} (hp : p ∉ addrs expired) :
    s'.heap p = s₂.heap p ∧ ∀ t, s'.Pending p t ↔ s₂.Pending p t := by
  obtain ⟨rest, hphase⟩ := hb.phase
  obtain ⟨-, hbatch, hhanded, -, hr⟩ := he.resets hphase
  have ho := hb.inv.owned_calling hphase
  have ho' := (hb.inv.effect he).owned_of_batch hbatch
  have hheap := hr.other p hp
  refine ⟨hheap, fun t => ?_⟩
  rw [State.Pending, State.Pending, ← ho'.sets.waiting_iff, ← ho.sets.waiting_iff]
  unfold State.Waiting
  rw [hheap, hhanded]
  simp [hp]

/-- What `reset` makes of a timer of the batch. -/
theorem Between.heap_reset (hb : Between now expired s₁ bs s₂) (he : Effect s₂ .reset s')
    (hcanceling : s₁.cancelingTimers = .empty) {p : Addr} (hp : p ∈ addrs expired) {t : Timer}
    (ht : s₁.heap p = some t) :
    s₂.heap p = some t ∧
    (t.repeats = true ∧ .cancelInLoop ⟨p, t.sequence⟩ ∉ bs → s'.heap p = some (t.restart now)) ∧
    (¬ (t.repeats = true ∧ .cancelInLoop ⟨p, t.sequence⟩ ∉ bs) → s'.heap p = none) := by
  obtain ⟨rest, hphase⟩ := hb.phase
  obtain ⟨-, -, -, -, hr⟩ := he.resets hphase
  have ht₂ : s₂.heap p = some t := (hb.heap p hp).trans ht
  have hnoted : toLex (p, t.sequence) ∈ s₂.cancelingTimers ↔
      .cancelInLoop ⟨p, t.sequence⟩ ∈ bs := by
    rw [hb.canceling p hp, hcanceling]
    simp
  refine ⟨ht₂, fun hk => ?_, fun hk => ?_⟩
  · rw [hr.batch p hp t ht₂, if_pos (by rwa [hnoted])]
  · rw [hr.batch p hp t ht₂, if_neg (by rwa [hnoted])]

/-- A timer in the sets while the callbacks run is not run, and stays if it is not cancelled. -/
theorem Between.stays (hcs : Between now expired s₁ as v) (hds : Between now expired v ds s₂)
    (he : Effect s₂ .reset s') {p : Addr} {t : Timer} (hp : v.Pending p t)
    (hn : .cancelInLoop ⟨p, t.sequence⟩ ∉ ds) :
    s'.Pending p t ∧ t.born ∉ s₁.numbers expired := by
  obtain ⟨rest, hphase⟩ := hcs.phase
  obtain ⟨hout, hborn⟩ := hcs.inv.pending_not_mem hphase hp
  refine ⟨((hds.pending_reset he hout).2 t).2 (hds.kept p t hp hn), ?_⟩
  rwa [← numbers_congr hcs.heap]

/-- A timer of the batch is in the sets again exactly if it repeats and was not cancelled. -/
theorem Between.pending_restart_iff (hb : Between now expired s₁ bs s₂)
    (he : Effect s₂ .reset s') (hcanceling : s₁.cancelingTimers = .empty) {p : Addr}
    (hp : p ∈ addrs expired) {t : Timer} (ht : s₁.heap p = some t) :
    s'.Pending p { t with expiration := addTime now t.interval } ↔
      t.repeats = true ∧ .cancelInLoop ⟨p, t.sequence⟩ ∉ bs := by
  obtain ⟨rest, hphase⟩ := hb.phase
  obtain ⟨-, hbatch, hhanded, -, -⟩ := he.resets hphase
  obtain ⟨ht₂, hkeep, hdrop⟩ := hb.heap_reset he hcanceling hp ht
  constructor
  · rintro ⟨hheap, -⟩
    by_contra hk
    rw [hdrop hk] at hheap
    cases hheap
  · intro hk
    have hrestart : t.restart now = { t with expiration := addTime now t.interval } := if_pos hk.1
    have ho := hb.inv.owned_calling hphase
    have ho' := (hb.inv.effect he).owned_of_batch hbatch
    obtain ⟨u, hu, hborn⟩ := ho.sets.out_live p hp
    rw [ht₂] at hu
    cases hu
    rw [hrestart] at hkeep
    exact (ho'.sets.waiting_iff _ _).1 ⟨hkeep hk, hhanded ▸ hborn, List.not_mem_nil⟩

/-- Any other timer of the batch is deleted. -/
theorem Between.deleted_reset (hb : Between now expired s₁ bs s₂) (he : Effect s₂ .reset s')
    (hcanceling : s₁.cancelingTimers = .empty) {p : Addr} (hp : p ∈ addrs expired) {t : Timer}
    (ht : s₁.heap p = some t)
    (hk : ¬ (t.repeats = true ∧ .cancelInLoop ⟨p, t.sequence⟩ ∉ bs)) :
    s'.heap p = none ∧ s'.OutOfSets p ∧ t.born ∈ s'.deleted := by
  obtain ⟨rest, hphase⟩ := hb.phase
  obtain ⟨-, hbatch, -, -, -⟩ := he.resets hphase
  obtain ⟨ht₂, -, hdrop⟩ := hb.heap_reset he hcanceling hp ht
  have ho' := (hb.inv.effect he).owned_of_batch hbatch
  have hnone := hdrop hk
  refine ⟨hnone, ⟨fun when hm => ?_, fun seq hm => ?_⟩, ?_⟩
  · obtain ⟨u, ⟨hu, -⟩, -⟩ := (ho'.sets.timers _ _).1 hm
    rw [hnone] at hu
    cases hu
  · obtain ⟨u, ⟨hu, -⟩, -⟩ := (ho'.sets.active _ _).1 hm
    rw [hnone] at hu
    cases hu
  · rcases he.persists p t ht₂ with ⟨u, hu, -⟩ | ⟨-, hd⟩
    · rw [hnone] at hu
      cases hu
    · exact hd

theorem Effect.pending_added {p : Addr} {t : Timer} (he : Effect s (.addTimerInLoop p) s')
    (ht : s.heap p = some t) : s'.Pending p t := by
  cases he with
  | addEarliest _ hu _ _ =>
    rw [ht] at hu
    cases hu
    exact ⟨ht, by simp [State.inserted, State.resetTimerfd],
      by simp [State.inserted, State.resetTimerfd]⟩
  | addLater _ hu _ _ =>
    rw [ht] at hu
    cases hu
    exact ⟨ht, by simp [State.inserted], by simp [State.inserted]⟩

/-- A timer that a callback adds is pending when `handleRead` returns, whatever its expiration,
if it is not cancelled before. -/
theorem Between.added (h : Inv s₁) (hphase : s₁.phase = .calling now expired rest)
    {p : Addr} {t : Timer} (hreset : .reset ∉ as ++ .addTimerInLoop p :: ds)
    (hr : machine.run s₁ (as ++ .addTimerInLoop p :: ds) = some s₂)
    (hv : machine.run s₁ as = some v) (ht : v.heap p = some t) (he : Effect s₂ .reset s')
    (hn : .cancelInLoop ⟨p, t.sequence⟩ ∉ ds) :
    s'.Pending p t ∧ t.born ∉ s₁.numbers expired := by
  simp only [List.mem_append, List.mem_cons, not_or] at hreset
  obtain ⟨has, hadd, hds⟩ := hreset
  obtain ⟨v', hv', hr⟩ := (machine.run_append_iff _ _ _ _).1 hr
  rw [hv] at hv'
  cases hv'
  obtain ⟨hen, w, hw, hr⟩ := (machine.run_cons_iff _ _ _ _).1 hr
  have hbv := Between.run h hphase has hv
  obtain ⟨rest', hphase'⟩ := hbv.phase
  have hef := hbv.inv.effect_of_step (a := .addTimerInLoop p) hen hw
  have hbw := hbv.trans (Between.of_effect hbv.inv hphase' (Ne.symm hadd) hef)
  obtain ⟨rest'', hphase''⟩ := hbw.phase
  exact hbw.stays (Between.run hbw.inv hphase'' hds hr) he (hef.pending_added ht) hn

theorem Between.fires (h : Inv s) (hphase : s.phase = .entered now)
    (h₁ : Effect s .readTimerfd s₁) (hreset : .reset ∉ bs) (hr : machine.run s₁ bs = some s₂)
    (he : Effect s₂ .reset s') : Fires s now s₁ bs s₂ s' := by
  have ho := h.owned_entered hphase
  have hinv₁ := h.effect h₁
  obtain ⟨hex, hphase₁, hempty⟩ := h₁.extracts h hphase
  have hb := Between.run hinv₁ hphase₁ hreset hr
  have hnum : s₁.numbers (s.due now) = s.numbers (s.due now) :=
    numbers_congr fun p _ => congrFun hex.heap p
  have hlive : ∀ p ∈ addrs (s.due now), ∃ t, s.heap p = some t := by
    intro p hp
    obtain ⟨t, hw, -⟩ := (ho.due_addrs now p).1 hp
    exact ⟨t, hw.1⟩
  have hdue : ∀ p t, s.Pending p t → t.expiration ≤ now →
      p ∈ addrs (s.due now) ∧ s₁.heap p = some t := by
    intro p t hp hle
    refine ⟨(ho.due_addrs now p).2 ⟨t, (ho.sets.waiting_iff p t).2 hp, hle⟩, ?_⟩
    rw [hex.heap]
    exact hp.1
  obtain ⟨hall, honce⟩ := ho.memory.numbers_once hlive (ho.due_nodup now)
  refine ⟨?_, hall, honce, ?_, ?_, ?_, ?_, ?_, ?_⟩
  · obtain ⟨rest, hphase₂⟩ := hb.phase
    obtain ⟨rfl, -, -, hstarted, -⟩ := he.resets hphase₂
    have hrun := hb.started
    simp only [State.rest, hphase₂, hphase₁] at hrun
    rw [hnum, hex.started] at hrun
    rw [hstarted, ← hrun]
    exact (List.append_nil _).symm
  · intro p t hp hle
    obtain ⟨hmem, ht⟩ := hdue p t hp hle
    exact hb.pending_restart_iff he hempty hmem ht
  · intro p t hp hle hk
    obtain ⟨hmem, ht⟩ := hdue p t hp hle
    exact hb.deleted_reset he hempty hmem ht hk
  · rintro cs p ds v t rfl hv ht hn
    rw [← hnum]
    exact Between.added hinv₁ hphase₁ hreset hr hv ht he hn
  · intro p t hp hlt hn
    rw [← hnum]
    exact (Between.refl hinv₁ hphase₁).stays hb he ((hex.pending_iff p t).2 ⟨hp, hlt⟩) hn
  · intro p hp
    exact hb.pending_reset he hp
  · intro p hp t ht
    rcases hb.only p t (((hb.pending_reset he hp).2 t).1 ht) with ht | ha
    · exact .inl ((hex.pending_iff p t).1 ht).1
    · exact .inr ha

end

/-- **`handleRead` fires the timers that are due.**  In any state that keeps the invariant and
for any time `now` that was read, `getExpired` takes the timers due at `now` out of both sets.
Whatever the callbacks do then, the call can be brought to its end, and at its end `Fires`
holds.  An interval is added in whole microseconds. -/
theorem handleRead_fires (s : State) (now : Timestamp) (h : Inv s)
    (hphase : s.phase = .entered now) :
    (∃ u, s.getExpired now = .ok (u, s.due now) ∧ Extracts s now u (s.due now)) ∧
    (∃ s₁, machine.run s [.readTimerfd] = some s₁ ∧ Extracts s now s₁ (s.due now) ∧
      ∀ bs s₂, .reset ∉ bs → machine.run s₁ bs = some s₂ →
        (∃ ds s₃ s', .reset ∉ ds ∧ machine.run s₂ ds = some s₃ ∧
          machine.run s₃ [.reset] = some s') ∧
        ∀ s', machine.run s₂ [.reset] = some s' → Fires s now s₁ bs s₂ s') ∧
    ∀ interval : Seconds, Fits 64 (now + interval.micros) →
      addTime now interval = now + interval.micros := by
  have ho := h.owned_entered hphase
  refine ⟨?_, ?_, fun interval hfits => wrap_of_fits (by decide) hfits⟩
  · obtain ⟨A, hA, hoA⟩ := ho.getExpired now
    exact ⟨_, hA, ho.extracts rfl rfl rfl hoA⟩
  · have hen : machine.enabled s .readTimerfd = true := by simp [machine, enabled, hphase]
    obtain ⟨s₁, hs₁, hef⟩ := h.step_effect hen
    obtain ⟨hex, hphase₁, -⟩ := hef.extracts h hphase
    refine ⟨s₁, machine.run_single hen hs₁, hex, fun bs s₂ hreset hr => ?_⟩
    have hb := Between.run (h.effect hef) hphase₁ hreset hr
    obtain ⟨rest, hphase₂⟩ := hb.phase
    refine ⟨hb.inv.finish hphase₂, fun s' hs' => ?_⟩
    obtain ⟨hen', t, ht, hr'⟩ := (machine.run_cons_iff _ _ _ _).1 hs'
    cases hr'
    exact Between.fires h hphase hef hreset hr
      (hb.inv.effect_of_step (a := .reset) hen' ht)

theorem halfMillisecond_fits : Fits 64 500 := by decide

theorem halfMillisecond_nonneg (_ : true = true) : (0 : Int) ≤ 500 := by decide

/-- A one-shot timer and a repeating one are due, a third one is not. -/
def dueRun : List Action :=
  [.newTimer 8 150 .zero, .addTimerInLoop 8,
    .newTimer 16 160 ⟨true, 500, halfMillisecond_fits, halfMillisecond_nonneg⟩, .addTimerInLoop 16,
    .newTimer 24 300 .zero, .addTimerInLoop 24, .clock 200 200000, .handleRead]

/-- The first callback adds a timer that expired long ago. -/
def addingCallbacks : List Action :=
  [.runCallback, .newTimer 32 120 .zero, .addTimerInLoop 32, .runCallback]

theorem handleRead_fires_two :
    ∃ s s₁ s₂ s', machine.run (init 100 100000) dueRun = some s ∧ s.phase = .entered 200 ∧
      machine.run s [.readTimerfd] = some s₁ ∧ machine.run s₁ addingCallbacks = some s₂ ∧
      machine.run s₂ [.reset] = some s' ∧ s'.started = [0, 1] ∧
      Fires s 200 s₁ addingCallbacks s₂ s' := by
  have hruns : ∃ s s₁ s₂ s', machine.run (init 100 100000) dueRun = some s ∧
      s.phase = .entered 200 ∧ machine.run s [.readTimerfd] = some s₁ ∧
      machine.run s₁ addingCallbacks = some s₂ ∧ machine.run s₂ [.reset] = some s' ∧
      s'.started = [0, 1] := ⟨_, _, _, _, rfl, rfl, rfl, rfl, rfl, rfl⟩
  obtain ⟨s, s₁, s₂, s', hs, hphase, h₁, h₂, h', hstarted⟩ := hruns
  obtain ⟨-, ⟨u, hu, -, hall⟩, -⟩ := handleRead_fires s 200 (run_inv hs) hphase
  rw [h₁] at hu
  cases hu
  exact ⟨s, s₁, s₂, s', hs, hphase, h₁, h₂, h', hstarted,
    (hall _ _ (by simp [addingCallbacks]) h₂).2 s' h'⟩

end Rawmd.TimerQueue
