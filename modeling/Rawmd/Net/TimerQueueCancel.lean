import Rawmd.Net.TimerQueueInv

/-!
# Cancelling a timer

Once `cancelInLoop` has returned for timer number `g`, its object is gone, or it is in the
batch being run and noted in `cancelingTimers_` (`Cancelled`); this stays so, hence the
timer is in neither set again.  Its callback is never started again exactly when it was
not waiting for its turn in the batch at that moment (`Awaits`): the loop of `handleRead`
does not look at `cancelingTimers_`.

    cancelInLoop s id = .ok s' → Cancelled s' g                     (Inv.cancelled)
    Cancelled s g → Effect s a s' → Cancelled s' g                  (Cancelled.effect)
    (g is never started after the cancel) ↔ ¬ Awaits s g            (cancelInLoop_stops_iff)
-/

namespace Rawmd.TimerQueue

/-- If timer `g` is alive, it is in the batch and noted in `cancelingTimers_`. -/
structure Cancelled (s : State) (g : Nat) : Prop where
  handed : g ∈ s.handed
  noted : ∀ p t, s.heap p = some t → t.born = g →
    p ∈ addrs s.batch ∧ toLex (p, t.sequence) ∈ s.cancelingTimers

/-- Timer `g` is in the batch being run and its callback has not been started. -/
def State.Awaits (s : State) (g : Nat) : Prop :=
  ∃ e ∈ s.rest, ∃ t, s.heap (ofLex e).2 = some t ∧ t.born = g

/-! ## `cancelInLoop` cancels -/

/-- The id that `addTimer` returned for a live timer names it. -/
theorem Inv.id_of_live {s : State} (h : Inv s) {timerId : TimerId} {g : Nat}
    (hid : (timerId, g) ∈ s.created) {p : Addr} {t : Timer} (ht : s.heap p = some t)
    (hg : t.born = g) : p = timerId.timer ∧ t.sequence = timerId.sequence := by
  have hm := h.owned.memory
  have hc := hm.created_inj _ (hm.id_created p t ht) _ hid hg
  simp only [Prod.mk.injEq] at hc
  rw [← hc.1]
  exact ⟨rfl, rfl⟩

theorem Inv.cancelled {s s' : State} (h : Inv s) {timerId : TimerId} {g : Nat}
    (hid : (timerId, g) ∈ s.created) (hg : g ∈ s.handed)
    (he : Effect s (.cancelInLoop timerId) s') : Cancelled s' g := by
  cases he with
  | cancelActive hu hw hseq =>
    refine ⟨hg, fun p t ht hb => ?_⟩
    simp only [State.dropped, State.erased, Function.update_apply] at ht
    split at ht
    · cases ht
    · next hp => exact absurd (h.id_of_live hid ht hb).1 hp
  | cancelNoted hu hnone _ =>
    refine ⟨hg, fun p t ht hb => ?_⟩
    obtain ⟨rfl, hseq⟩ := h.id_of_live hid ht hb
    refine ⟨?_, by rw [hseq]; simp⟩
    by_contra hp
    exact hnone t ⟨ht, hb ▸ hg, hp⟩ hseq
  | cancelStale hu hnone hc =>
    refine ⟨hg, fun p t ht hb => ?_⟩
    obtain ⟨rfl, hseq⟩ := h.id_of_live hid ht hb
    -- no batch is being run, so a live timer is in the sets
    have hb' : s.batch = [] := by
      cases hphase : s.phase with
      | calling now expired rest =>
        have := h.calling.2 ⟨now, expired, rest, hphase⟩
        rw [hc] at this
        cases this
      | idle => simp [State.batch, hphase]
      | entered now => simp [State.batch, hphase]
      | destroyed => simp [State.batch, hphase]
    exact absurd hseq (hnone t ⟨ht, hb ▸ hg, by simp [hb']⟩)

/-! ## It stays cancelled -/

theorem ResetLoop.cancelled {now : Timestamp} {s s' : State} {l : List Entry} {g : Nat}
    (h : ResetLoop now s l s')
    (hc : ∀ p t, s.heap p = some t → t.born = g →
      p ∈ addrs l ∧ toLex (p, t.sequence) ∈ s.cancelingTimers) :
    ∀ p t, s'.heap p = some t → t.born ≠ g := by
  induction h with
  | nil s _ =>
    intro p t ht hb
    exact absurd (hc p t ht hb).1 (by simp)
  | @keep s s' e l t _ ht _ hn _ ih =>
    apply ih
    intro p u hu hb
    simp only [State.restarted, State.inserted, Function.update_apply] at hu
    split at hu
    · -- a timer that is put back was not noted
      next hp =>
      cases hu
      rw [Owned.restart_born] at hb
      exact absurd (hc _ t ht hb).2 hn
    · next hp =>
      obtain ⟨hpl, hpc⟩ := hc p u hu hb
      simp only [addrs, List.map_cons, List.mem_cons] at hpl
      exact ⟨hpl.resolve_left hp, hpc⟩
  | @drop s s' e l t _ ht _ _ ih =>
    apply ih
    intro p u hu hb
    simp only [State.dropped, Function.update_apply] at hu
    split at hu
    · cases hu
    · next hp =>
      obtain ⟨hpl, hpc⟩ := hc p u hu hb
      simp only [addrs, List.map_cons, List.mem_cons] at hpl
      exact ⟨hpl.resolve_left hp, hpc⟩

theorem Cancelled.effect {s s' : State} {a : Action} {g : Nat} (hc : Cancelled s g) (h : Inv s)
    (he : Effect s a s') : Cancelled s' g := by
  have hlt := h.owned.memory.handed_lt g hc.handed
  cases he with
  | newTimer _ _ _ =>
    refine ⟨hc.handed, fun p t ht hb => ?_⟩
    simp only [State.newTimer, Function.update_apply] at ht
    split at ht
    · cases ht
      simp only at hb
      omega
    · exact hc.noted p t ht hb
  | addEarliest _ _ _ _ => exact ⟨List.mem_append_left _ hc.handed, hc.noted⟩
  | addLater _ _ _ _ => exact ⟨List.mem_append_left _ hc.handed, hc.noted⟩
  | cancelActive _ _ _ =>
    refine ⟨hc.handed, fun p t ht hb => ?_⟩
    simp only [State.dropped, State.erased, Function.update_apply] at ht
    split at ht
    · cases ht
    · exact hc.noted p t ht hb
  | cancelNoted _ _ _ =>
    refine ⟨hc.handed, fun p t ht hb => ?_⟩
    obtain ⟨hp, hn⟩ := hc.noted p t ht hb
    exact ⟨hp, by simp [hn]⟩
  | cancelStale _ _ _ => exact hc
  | handleRead hphase =>
    refine ⟨hc.handed, fun p t ht hb => ?_⟩
    have := (hc.noted p t ht hb).1
    simp [State.batch, hphase] at this
  | readTimerfd hphase _ =>
    refine ⟨hc.handed, fun p t ht hb => ?_⟩
    have := (hc.noted p t ht hb).1
    simp [State.batch, hphase] at this
  | runCallback hphase _ =>
    refine ⟨hc.handed, fun p t ht hb => ?_⟩
    have := hc.noted p t ht hb
    simp only [State.batch, hphase] at this
    exact this
  | reset hphase hl =>
    have hf := hl.frame
    have hgone := hl.cancelled (g := g) (fun p t ht hb => by
      have := hc.noted p t ht hb
      simp only [State.batch, hphase] at this
      exact this)
    rw [rearmed_frame]
    refine ⟨?_, fun p t ht hb => absurd hb (hgone p t ht)⟩
    show g ∈ State.handed _
    rw [hf]
    exact hc.handed
  | clock _ => exact ⟨hc.handed, hc.noted⟩
  | destroy hphase _ hH =>
    refine ⟨hc.handed, fun p t ht hb => ?_⟩
    exact absurd (hb ▸ hc.handed) ((hH p t).1 ht).2

/-- A cancelled timer is in neither set. -/
theorem Cancelled.not_inSets {s : State} {g : Nat} (hc : Cancelled s g) (h : Inv s) {p : Addr}
    {t : Timer} (ht : s.heap p = some t) (hg : t.born = g) (when : Timestamp) (seq : Int) :
    toLex (when, p) ∉ s.timers ∧ toLex (p, seq) ∉ s.activeTimers := by
  have hp := (hc.noted p t ht hg).1
  rw [h.owned.sets.timers, h.owned.sets.active]
  constructor
  · rintro ⟨u, hw, -⟩
    exact hw.2.2 hp
  · rintro ⟨u, hw, -⟩
    exact hw.2.2 hp

/-! ## When the callback is not started again -/

/-- A cancelled timer that does not await its turn does not await it later. -/
theorem Cancelled.effect_not_awaits {s s' : State} {a : Action} {g : Nat} (hc : Cancelled s g)
    (h : Inv s) (hn : ¬ s.Awaits g) (he : Effect s a s') : ¬ s'.Awaits g := by
  have hlt := h.owned.memory.handed_lt g hc.handed
  rintro ⟨e, hrest, t, ht, hb⟩
  cases he with
  | newTimer _ _ _ =>
    simp only [State.newTimer, Function.update_apply] at ht
    split at ht
    · cases ht
      simp only at hb
      omega
    · exact hn ⟨e, hrest, t, ht, hb⟩
  | addEarliest _ _ _ _ => exact hn ⟨e, hrest, t, ht, hb⟩
  | addLater _ _ _ _ => exact hn ⟨e, hrest, t, ht, hb⟩
  | cancelActive _ _ _ =>
    simp only [State.dropped, State.erased, Function.update_apply] at ht
    split at ht
    · cases ht
    · exact hn ⟨e, hrest, t, ht, hb⟩
  | cancelNoted _ _ _ => exact hn ⟨e, hrest, t, ht, hb⟩
  | cancelStale _ _ _ => exact hn ⟨e, hrest, t, ht, hb⟩
  | handleRead _ => simp [State.rest] at hrest
  | readTimerfd hphase _ =>
    have := (hc.noted _ t ht hb).1
    simp [State.batch, hphase] at this
  | runCallback hphase _ =>
    refine hn ⟨e, ?_, t, ht, hb⟩
    simp only [State.rest] at hrest
    simp [State.rest, hphase, hrest]
  | reset hphase hl =>
    rw [rearmed_frame, hl.frame] at hrest
    simp [State.rest] at hrest
  | clock _ => exact hn ⟨e, hrest, t, ht, hb⟩
  | destroy _ _ _ => simp [State.rest] at hrest

/-- Only the next timer of the batch is started. -/
theorem Effect.started {s s' : State} {a : Action} (he : Effect s a s') {g : Nat}
    (hn : ¬ s.Awaits g) : s'.started.count g = s.started.count g := by
  cases he with
  | @runCallback now expired rest e t hphase ht =>
    show (s.started ++ [t.born]).count g = _
    rw [List.count_append, List.count_singleton]
    have hne : t.born ≠ g := fun hb => hn ⟨e, by simp [State.rest, hphase], t, ht, hb⟩
    simp [hne]
  | reset _ hl =>
    rw [rearmed_frame, hl.frame]
  | _ => rfl

theorem Cancelled.run_started {s s' : State} {bs : List Action} {g : Nat} (hc : Cancelled s g)
    (h : Inv s) (hn : ¬ s.Awaits g) (hr : machine.run s bs = some s') :
    s'.started.count g = s.started.count g := by
  have hsafe : machine.Safe fun u =>
      Inv u ∧ Cancelled u g ∧ ¬ u.Awaits g ∧ u.started.count g = s.started.count g := by
    rintro u a ⟨h, hc, hn, hu⟩ he
    obtain ⟨u', hu', hef⟩ := h.step_effect he
    exact ⟨u', hu', h.effect hef, hc.effect h hef, hc.effect_not_awaits h hn hef,
      (hef.started hn).trans hu⟩
  exact (hsafe.run ⟨h, hc, hn, rfl⟩ hr).2.2.2

/-- The callback of the next timer of the batch can be started. -/
theorem Inv.start_next {s : State} (h : Inv s) {e : Entry} {l : List Entry}
    (hl : s.rest = e :: l) :
    ∃ t s', s.heap (ofLex e).2 = some t ∧ machine.enabled s .runCallback = true ∧
      machine.step s .runCallback = .ok s' ∧ Inv s' ∧ s'.rest = l ∧ s'.heap = s.heap ∧
      s'.started = s.started ++ [t.born] := by
  cases hphase : s.phase with
  | calling now expired rest =>
    simp only [State.rest, hphase] at hl
    have he : machine.enabled s .runCallback = true := by
      simp [machine, enabled, hphase, hl]
    obtain ⟨s', hs', hef⟩ := h.step_effect he
    have hinv := h.effect hef
    cases hef with
    | @runCallback now' expired' rest' e' t hphase' ht =>
      rw [hphase] at hphase'
      cases hphase'
      cases hl
      exact ⟨t, _, ht, he, hs', hinv, rfl, rfl, rfl⟩
  | idle => simp [State.rest, hphase] at hl
  | entered now => simp [State.rest, hphase] at hl
  | destroyed => simp [State.rest, hphase] at hl

/-- A timer that awaits its turn gets it when the callbacks before it return. -/
theorem Inv.awaits_run {s : State} (h : Inv s) {g : Nat} (ha : s.Awaits g) :
    ∃ bs s', machine.run s bs = some s' ∧ s.started.count g < s'.started.count g := by
  obtain ⟨e, hrest, t, ht, hb⟩ := ha
  obtain ⟨l, l', hl⟩ := List.append_of_mem hrest
  -- the induction is on the callbacks that come first
  induction l generalizing s with
  | nil =>
    obtain ⟨u, s', hu, he, hs', -, -, -, hstarted⟩ := h.start_next hl
    refine ⟨[.runCallback], s', machine.run_single he hs', ?_⟩
    rw [ht] at hu
    cases hu
    rw [hstarted, List.count_append, List.count_singleton, hb]
    simp
  | cons d l ih =>
    obtain ⟨u, s₁, -, he, hs₁, hinv, hrest₁, hheap, hstarted⟩ := h.start_next hl
    obtain ⟨bs, s', hr, hlt⟩ := ih hinv (by simp [hrest₁]) (by rw [hheap]; exact ht) hrest₁
    refine ⟨.runCallback :: bs, s', (machine.run_cons_iff _ _ _ _).2 ⟨he, s₁, hs₁, hr⟩, ?_⟩
    rw [hstarted, List.count_append] at hlt
    omega

/-- Cancelling takes no timer out of the batch. -/
theorem Effect.awaits_cancel {s s' : State} {timerId : TimerId} {g : Nat} (h : Inv s)
    (he : Effect s (.cancelInLoop timerId) s') : s'.Awaits g ↔ s.Awaits g := by
  cases he with
  | cancelActive hu hw hseq =>
    obtain ⟨ran, hran⟩ := h.ran
    have hne : ∀ e ∈ s.rest, (ofLex e).2 ≠ timerId.timer := by
      intro e hrest heq
      apply hw.2.2
      rw [← heq]
      exact List.mem_map.2 ⟨e, by rw [hran]; exact List.mem_append_right _ hrest, rfl⟩
    constructor
    · rintro ⟨e, hrest, t, ht, hb⟩
      refine ⟨e, hrest, t, ?_, hb⟩
      rwa [← Function.update_of_ne (hne e hrest) none s.heap]
    · rintro ⟨e, hrest, t, ht, hb⟩
      refine ⟨e, hrest, t, ?_, hb⟩
      rwa [← Function.update_of_ne (hne e hrest) none s.heap] at ht
  | cancelNoted _ _ _ => exact Iff.rfl
  | cancelStale _ _ _ => exact Iff.rfl

/-- **Cancellation.**  Let `cancelInLoop(id)` return in any reachable state, for a timer that
was added before.  The timer's callback is never started again, whatever follows, exactly
when the timer was not waiting for its turn in the batch being run. -/
theorem cancelInLoop_stops_iff (wall : Timestamp) (mono : Int) (as : List Action) (s s' : State)
    (timerId : TimerId) (g : Nat) (hr : machine.run (init wall mono) as = some s)
    (hid : (timerId, g) ∈ s.created) (hg : g ∈ s.handed)
    (hen : machine.enabled s (.cancelInLoop timerId) = true)
    (hs : machine.step s (.cancelInLoop timerId) = .ok s') :
    (∀ bs s'', machine.run s' bs = some s'' → s''.started.count g = s'.started.count g) ↔
      ¬ s.Awaits g := by
  have h := run_inv hr
  have hef := h.effect_of_step (a := .cancelInLoop timerId) hen hs
  have hinv := h.effect hef
  have hc := h.cancelled hid hg hef
  rw [← hef.awaits_cancel h]
  constructor
  · intro hall ha
    obtain ⟨bs, s'', hbs, hlt⟩ := hinv.awaits_run ha
    have := hall bs s'' hbs
    omega
  · intro hn bs s'' hbs
    exact hc.run_started hinv hn hbs

/-- Two timers expire together; the callback of the first is running. -/
def sameBatchRun : List Action :=
  [.newTimer 8 150 .zero, .addTimerInLoop 8, .newTimer 16 150 .zero, .addTimerInLoop 16,
    .clock 200 200000, .handleRead, .readTimerfd, .runCallback]

/-- The second timer, cancelled from the callback of the first, still runs. -/
theorem cancelInLoop_same_batch_runs :
    ∃ s s' s'', machine.run (init 100 100000) sameBatchRun = some s ∧
      (⟨16, 2⟩, 1) ∈ s.created ∧ 1 ∈ s.handed ∧
      machine.enabled s (.cancelInLoop ⟨16, 2⟩) = true ∧
      machine.step s (.cancelInLoop ⟨16, 2⟩) = .ok s' ∧
      machine.run s' [.runCallback] = some s'' ∧
      s'.started.count 1 = 0 ∧ s''.started.count 1 = 1 :=
  ⟨_, _, _, rfl, by decide, by decide, rfl, rfl, rfl, rfl, rfl⟩

/-- The first timer cancels itself and does not run again. -/
theorem cancelInLoop_self_stops :
    ∃ s s', machine.run (init 100 100000) sameBatchRun = some s ∧
      machine.step s (.cancelInLoop ⟨8, 1⟩) = .ok s' ∧ ¬ s.Awaits 0 ∧
      ∀ bs s'', machine.run s' bs = some s'' → s''.started.count 0 = s'.started.count 0 := by
  have hn : ∀ s, machine.run (init 100 100000) sameBatchRun = some s → ¬ s.Awaits 0 := by
    rintro s hs ⟨e, he, t, ht, hb⟩
    cases hs
    simp only [State.rest] at he
    rcases List.mem_singleton.1 he with rfl
    cases ht
    cases hb
  exact ⟨_, _, rfl, rfl, hn _ rfl, (cancelInLoop_stops_iff 100 100000 sameBatchRun _ _ ⟨8, 1⟩ 0 rfl
    (by decide) (by decide) rfl rfl).2 (hn _ rfl)⟩

end Rawmd.TimerQueue
