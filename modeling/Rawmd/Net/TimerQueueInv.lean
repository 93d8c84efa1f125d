import Rawmd.Net.TimerQueueOwned

/-!
# The timer queue owns its timers in every run

`Inv` is `Owned` with the batch of the `handleRead` in progress taken out.  It is an
invariant of the machine and no enabled action faults (`safe`).
-/

namespace Rawmd.TimerQueue

/-! ## The invariant -/

/-- The batch of the `handleRead` in progress. -/
def State.batch (s : State) : List Entry :=
  match s.phase with
  | .calling _ expired _ => expired
  | _ => []

/-- The part of it whose callbacks have not been started. -/
def State.rest (s : State) : List Entry :=
  match s.phase with
  | .calling _ _ rest => rest
  | _ => []

structure Inv (s : State) : Prop where
  owned : Owned s (addrs s.batch)
  calling : s.callingExpiredTimers = true ↔ ∃ now expired rest, s.phase = .calling now expired rest
  ran : ∃ ran, s.batch = ran ++ s.rest
  destroyed : s.phase = .destroyed → ∀ g ∈ s.handed, g ∈ s.deleted

theorem init_inv (wall : Timestamp) (mono : Int) : Inv (init wall mono) := by
  refine ⟨⟨?_, ?_⟩, by simp [init], ⟨[], rfl⟩, by simp [init]⟩
  · constructor <;> simp [init]
  · constructor <;> simp [init, State.batch, State.Waiting, OrderedSet.not_mem_empty]

theorem ResetLoop.owned {now : Timestamp} {s s' : State} {l : List Entry}
    (h : ResetLoop now s l s') : Owned s' [] := by
  induction h with
  | nil s ho => exact ho
  | keep _ _ _ _ _ ih => exact ih
  | drop _ _ _ _ ih => exact ih

/-- The loop of `reset` changes the sets, the batch's timers and their history only. -/
theorem ResetLoop.frame {now : Timestamp} {s s' : State} {l : List Entry}
    (h : ResetLoop now s l s') : s' = { s with
      timers := s'.timers
      activeTimers := s'.activeTimers
      heap := s'.heap
      deleted := s'.deleted } := by
  induction h with
  | nil s _ => rfl
  | keep _ _ _ _ _ ih => rw [ih]; rfl
  | drop _ _ _ _ ih => rw [ih]; rfl

theorem rearmed_frame (s : State) : s.rearmed = { s with
    timerfd := s.rearmed.timerfd
    lastSettime := s.rearmed.lastSettime } := by
  unfold State.rearmed
  split
  · rfl
  · split <;> rfl

/-! ## What each action does -/

/-- The effect of each enabled action in a state with `Inv`. -/
inductive Effect (s : State) : Action → State → Prop where
  | newTimer {p : Addr} {when : Timestamp} {interval : Seconds} : 0 < p ∧ p < uintptrMax →
      s.heap p = none → s.phase ≠ .destroyed →
      Effect s (.newTimer p when interval) (s.newTimer p when interval)
  | addEarliest {p : Addr} {t : Timer} : s.inUserCode = true → s.heap p = some t →
      t.born ∉ s.handed → s.isEarliest t.expiration = true →
      Effect s (.addTimerInLoop p)
        ((State.inserted { s with handed := s.handed ++ [t.born] } p t).resetTimerfd t.expiration)
  | addLater {p : Addr} {t : Timer} : s.inUserCode = true → s.heap p = some t →
      t.born ∉ s.handed → s.isEarliest t.expiration = false →
      Effect s (.addTimerInLoop p) (State.inserted { s with handed := s.handed ++ [t.born] } p t)
  | cancelActive {timerId : TimerId} {t : Timer} : s.inUserCode = true →
      s.Waiting (addrs s.batch) timerId.timer t → t.sequence = timerId.sequence →
      Effect s (.cancelInLoop timerId) ((s.erased timerId.timer t).dropped timerId.timer t)
  | cancelNoted {timerId : TimerId} : s.inUserCode = true →
      (∀ t, s.Waiting (addrs s.batch) timerId.timer t → t.sequence ≠ timerId.sequence) →
      s.callingExpiredTimers = true →
      Effect s (.cancelInLoop timerId) { s with
        cancelingTimers := (s.cancelingTimers.insert (toLex (timerId.timer, timerId.sequence))).1 }
  | cancelStale {timerId : TimerId} : s.inUserCode = true →
      (∀ t, s.Waiting (addrs s.batch) timerId.timer t → t.sequence ≠ timerId.sequence) →
      s.callingExpiredTimers = false → Effect s (.cancelInLoop timerId) s
  | handleRead : s.phase = .idle → Effect s .handleRead { s with phase := .entered s.wall }
  | readTimerfd {now : Timestamp} {A : OrderedSet ActiveTimer} : s.phase = .entered now →
      Owned { s with timers := s.timers.atLeast (toLex (now, uintptrMax)), activeTimers := A }
        (addrs (s.due now)) →
      Effect s .readTimerfd { s with
        timers := s.timers.atLeast (toLex (now, uintptrMax))
        activeTimers := A
        timerfd := s.timerfd.read
        callingExpiredTimers := true
        cancelingTimers := .empty
        phase := .calling now (s.due now) (s.due now) }
  | runCallback {now : Timestamp} {expired rest : List Entry} {e : Entry} {t : Timer} :
      s.phase = .calling now expired (e :: rest) → s.heap (ofLex e).2 = some t →
      Effect s .runCallback { s with
        phase := .calling now expired rest
        started := s.started ++ [t.born] }
  | reset {now : Timestamp} {expired : List Entry} {s' : State} :
      s.phase = .calling now expired [] →
      ResetLoop now { s with callingExpiredTimers := false, phase := .idle } expired s' →
      Effect s .reset s'.rearmed
  | clock {wall : Timestamp} {mono : Int} : s.mono ≤ mono →
      Effect s (.clock wall mono) { s with
        wall := wall
        mono := mono
        timerfd := s.timerfd.advance mono }
  | destroy {H : Addr → Option Timer} {D : List Nat} : s.phase = .idle →
      Memory { s with heap := H, deleted := D } →
      (∀ q u, H q = some u ↔ s.heap q = some u ∧ u.born ∉ s.handed) →
      Effect s .destroy { s with
        heap := H
        deleted := D
        timers := .empty
        activeTimers := .empty
        cancelingTimers := .empty
        phase := .destroyed }

namespace Inv

variable {s : State}

theorem owned_of_batch (h : Inv s) {l : List Entry} (hl : s.batch = l) : Owned s (addrs l) := by
  rw [← hl]
  exact h.owned

theorem owned_calling (h : Inv s) {now : Timestamp} {expired rest : List Entry}
    (hphase : s.phase = .calling now expired rest) : Owned s (addrs expired) :=
  h.owned_of_batch (by simp only [State.batch, hphase])

theorem owned_idle (h : Inv s) (hphase : s.phase = .idle) : Owned s [] :=
  h.owned_of_batch (l := []) (by simp only [State.batch, hphase])

theorem owned_entered (h : Inv s) {now : Timestamp} (hphase : s.phase = .entered now) :
    Owned s [] :=
  h.owned_of_batch (l := []) (by simp only [State.batch, hphase])

/-- Every enabled action succeeds, with its effect. -/
theorem step_effect (h : Inv s) {a : Action} (he : machine.enabled s a = true) :
    ∃ s', machine.step s a = .ok s' ∧ Effect s a s' := by
  change enabled s a = true at he
  show ∃ s', step s a = .ok s' ∧ Effect s a s'
  cases a with
  | newTimer p when interval =>
    simp only [enabled, Bool.and_eq_true, decide_eq_true_eq] at he
    refine ⟨_, rfl, .newTimer he.1.1 (by simpa using he.1.2) ?_⟩
    intro hd
    simp [hd] at he
  | addTimerInLoop p =>
    simp only [enabled, Bool.and_eq_true] at he
    obtain ⟨hu, hf⟩ := he
    unfold State.isFresh at hf
    split at hf
    · next t ht =>
      have hb := of_decide_eq_true hf
      refine ⟨_, h.owned.addTimerInLoop_eq ht hb, ?_⟩
      split
      · next hearly => exact .addEarliest hu ht hb hearly
      · next hlate => exact .addLater hu ht hb (by simpa using hlate)
    · cases hf
  | cancelInLoop timerId =>
    have hu : s.inUserCode = true := he
    rcases h.owned.cancelInLoop_cases timerId with ⟨t, hw, hseq, heq⟩ | ⟨hnone, heq⟩
    · exact ⟨_, heq, .cancelActive hu hw hseq⟩
    · refine ⟨_, heq, ?_⟩
      split
      · next hc => exact .cancelNoted hu hnone hc
      · next hc => exact .cancelStale hu hnone (by simpa using hc)
  | handleRead =>
    simp only [enabled] at he
    split at he
    · next hphase => exact ⟨_, rfl, .handleRead hphase⟩
    · cases he
  | readTimerfd =>
    simp only [enabled] at he
    split at he
    · next now hphase =>
      have ho := h.owned_entered hphase
      have ho' : Owned { s with timerfd := s.timerfd.read } [] :=
        ⟨ho.memory.congr rfl rfl rfl rfl rfl, ho.sets.congr rfl rfl rfl rfl⟩
      obtain ⟨A, hA, hoA⟩ := ho'.getExpired now
      refine ⟨_, ?_, .readTimerfd (A := A) hphase
        ⟨hoA.memory.congr rfl rfl rfl rfl rfl, hoA.sets.congr rfl rfl rfl rfl⟩⟩
      simp only [step, hphase]
      unfold State.collect
      simp only [hA, ok_bind]
      rfl
    · cases he
  | runCallback =>
    simp only [enabled] at he
    split at he
    · next now expired rest hphase =>
      cases rest with
      | nil => simp at he
      | cons e rest =>
        obtain ⟨ran, hran⟩ := h.ran
        simp only [State.batch, State.rest, hphase] at hran
        have ho := h.owned_calling hphase
        obtain ⟨t, ht, -⟩ := ho.sets.out_live (ofLex e).2 (by simp [addrs, hran])
        refine ⟨_, ?_, .runCallback hphase ht⟩
        simp only [step, hphase, deref_some ht]
        rfl
    · cases he
  | reset =>
    simp only [enabled] at he
    split at he
    · next now expired rest hphase =>
      cases rest with
      | cons e rest => simp at he
      | nil =>
        have ho := h.owned_calling hphase
        obtain ⟨s', hs', hl⟩ := Owned.resetLoop now expired
          { s with callingExpiredTimers := false, phase := .idle }
          ⟨ho.memory.congr rfl rfl rfl rfl rfl, ho.sets.congr rfl rfl rfl rfl⟩
        refine ⟨_, ?_, .reset hphase hl⟩
        simp only [step, hphase]
        unfold State.reset
        rw [hs', ok_bind]
        exact hl.owned.rearm_eq
    · cases he
  | clock wall mono => exact ⟨_, rfl, .clock (of_decide_eq_true he)⟩
  | destroy =>
    simp only [enabled] at he
    split at he
    · next hphase =>
      have ho := h.owned_idle hphase
      obtain ⟨H, D, hs', hM, hH⟩ := ho.destroy
      exact ⟨_, hs', .destroy hphase hM hH⟩
    · cases he

theorem effect_of_step {s' : State} {a : Action} (h : Inv s) (he : enabled s a = true)
    (hs : step s a = .ok s') : Effect s a s' := by
  obtain ⟨u, hu, hef⟩ := h.step_effect he
  have : step s a = .ok u := hu
  rw [hs] at this
  cases this
  exact hef

/-- The invariant of a state with the phase of `s`. -/
theorem congr {s' : State} (h : Inv s) (ho : Owned s' (addrs s.batch)) (hphase : s'.phase = s.phase)
    (hcalling : s'.callingExpiredTimers = s.callingExpiredTimers)
    (hd : s.phase = .destroyed → ∀ g ∈ s'.handed, g ∈ s'.deleted) : Inv s' := by
  have hb : s'.batch = s.batch := by unfold State.batch; rw [hphase]
  have hr : s'.rest = s.rest := by unfold State.rest; rw [hphase]
  refine ⟨by rw [hb]; exact ho, ?_, ?_, by rw [hphase]; exact hd⟩
  · rw [hphase, hcalling]; exact h.calling
  · rw [hb, hr]; exact h.ran

/-- The invariant of a state outside `handleRead`. -/
theorem of_idle (ho : Owned s []) (hphase : s.phase = .idle)
    (hcalling : s.callingExpiredTimers = false) : Inv s := by
  have hb : s.batch = [] := by simp [State.batch, hphase]
  have hr : s.rest = [] := by simp [State.rest, hphase]
  refine ⟨by rw [hb]; exact ho, by simp [hphase, hcalling], ⟨[], by rw [hb, hr]; rfl⟩, ?_⟩
  rw [hphase]
  simp

theorem not_destroyed (hu : s.inUserCode = true) : s.phase ≠ .destroyed := by
  intro hd
  simp [State.inUserCode, hd] at hu

theorem effect {s' : State} {a : Action} (h : Inv s) (he : Effect s a s') : Inv s' := by
  cases he with
  | newTimer hp hfree _ =>
    exact h.congr ⟨h.owned.memory.newTimer hp hfree _ _,
      h.owned.sets.newTimer h.owned.memory hfree _ _⟩ rfl rfl h.destroyed
  | addEarliest hu ht hb _ =>
    have ho := (h.owned.hand ht hb).insert ht
    exact h.congr ⟨ho.memory.congr rfl rfl rfl rfl rfl, ho.sets.congr rfl rfl rfl rfl⟩ rfl rfl
      (fun hd => absurd hd (not_destroyed hu))
  | addLater hu ht hb _ =>
    exact h.congr ((h.owned.hand ht hb).insert ht) rfl rfl
      (fun hd => absurd hd (not_destroyed hu))
  | cancelActive hu hw _ =>
    exact h.congr ((h.owned.erase hw).delete hw.1) rfl rfl
      (fun hd => absurd hd (not_destroyed hu))
  | cancelNoted _ _ _ =>
    exact h.congr ⟨h.owned.memory.congr rfl rfl rfl rfl rfl, h.owned.sets.congr rfl rfl rfl rfl⟩
      rfl rfl h.destroyed
  | cancelStale _ _ _ => exact h
  | handleRead hphase =>
    have ho := h.owned_idle hphase
    refine ⟨⟨ho.memory.congr rfl rfl rfl rfl rfl, ho.sets.congr rfl rfl rfl rfl⟩, ?_,
      ⟨[], rfl⟩, by simp⟩
    have hc := h.calling
    rw [hphase] at hc
    simpa using hc
  | readTimerfd hphase hoA =>
    exact ⟨⟨hoA.memory.congr rfl rfl rfl rfl rfl, hoA.sets.congr rfl rfl rfl rfl⟩, by simp,
      ⟨[], rfl⟩, by simp⟩
  | @runCallback now expired rest e t hphase ht =>
    obtain ⟨ran, hran⟩ := h.ran
    simp only [State.batch, State.rest, hphase] at hran
    have ho := h.owned_calling hphase
    refine ⟨⟨ho.memory.congr rfl rfl rfl rfl rfl, ho.sets.congr rfl rfl rfl rfl⟩, ?_,
      ⟨ran ++ [e], ?_⟩, by simp⟩
    · have hc := h.calling
      rw [hphase] at hc
      simpa using hc
    · show expired = ran ++ [e] ++ rest
      rw [hran]
      simp
  | reset hphase hl =>
    have hf := hl.frame
    refine of_idle hl.owned.rearmed ?_ ?_
    · rw [rearmed_frame, hf]
    · rw [rearmed_frame, hf]
  | clock _ =>
    exact h.congr ⟨h.owned.memory.congr rfl rfl rfl rfl rfl, h.owned.sets.congr rfl rfl rfl rfl⟩
      rfl rfl h.destroyed
  | @destroy H D hphase hM hH =>
    have hnone : ∀ p t, H p = some t → t.born ∉ s.handed := fun p t ht => ((hH p t).1 ht).2
    refine ⟨⟨hM.congr rfl rfl rfl rfl rfl, ?_⟩, ?_, ⟨[], rfl⟩, ?_⟩
    · constructor
      · simp only [State.batch, State.Waiting, OrderedSet.not_mem_empty, false_iff]
        rintro when p ⟨t, ⟨ht, hb, -⟩, -⟩
        exact hnone p t ht hb
      · simp only [State.batch, State.Waiting, OrderedSet.not_mem_empty, false_iff]
        rintro p seq ⟨t, ⟨ht, hb, -⟩, -⟩
        exact hnone p t ht hb
      · rfl
      · simp [State.batch]
      · simp [State.batch]
    · have hc := h.calling
      rw [hphase] at hc
      simpa using hc
    · intro _ g hg
      rcases hM.kept g hg with hd | ⟨p, t, ht, rfl⟩
      · exact hd
      · exact absurd hg (hnone p t ht)

end Inv

/-- Every enabled action succeeds and keeps the invariant. -/
theorem safe : machine.Safe Inv := by
  intro s a h he
  obtain ⟨s', hs', hef⟩ := h.step_effect he
  exact ⟨s', hs', h.effect hef⟩

theorem run_inv {wall : Timestamp} {mono : Int} {as : List Action} {s : State}
    (hr : machine.run (init wall mono) as = some s) : Inv s :=
  safe.run (init_inv wall mono) hr

/-! ## One address, one object -/

/-- What is at an address stays there until it is deleted. -/
def Persists (s s' : State) : Prop :=
  ∀ p t, s.heap p = some t →
    (∃ u, s'.heap p = some u ∧ u.born = t.born) ∨ (s'.heap p = none ∧ t.born ∈ s'.deleted)

theorem persists_refl {s s' : State} (hheap : s'.heap = s.heap) : Persists s s' := by
  intro p t ht
  rw [hheap]
  exact Or.inl ⟨t, ht, rfl⟩

theorem persists_dropped {s₀ s : State} (h : Persists s₀ s) {q : Addr} {v : Timer}
    (hv : s.heap q = some v) : Persists s₀ (s.dropped q v) := by
  intro p t ht
  by_cases hq : p = q
  · subst hq
    right
    rcases h p t ht with ⟨u, hu, hb⟩ | ⟨hn, -⟩
    · rw [hv] at hu
      cases hu
      exact ⟨by simp [State.dropped], by simp [State.dropped, hb]⟩
    · rw [hv] at hn
      cases hn
  · rcases h p t ht with ⟨u, hu, hb⟩ | ⟨hn, hd⟩
    · exact Or.inl ⟨u, by simpa [State.dropped, Function.update_apply, hq] using hu, hb⟩
    · exact Or.inr ⟨by simpa [State.dropped, Function.update_apply, hq] using hn,
        List.mem_append_left _ hd⟩

theorem persists_restarted {s₀ s : State} (h : Persists s₀ s) {q : Addr} {v : Timer}
    (hv : s.heap q = some v) (now : Timestamp) : Persists s₀ (s.restarted q v now) := by
  intro p t ht
  by_cases hq : p = q
  · subst hq
    left
    rcases h p t ht with ⟨u, hu, hb⟩ | ⟨hn, -⟩
    · rw [hv] at hu
      cases hu
      exact ⟨v.restart now, by simp [State.restarted, State.inserted],
        by rw [Owned.restart_born, hb]⟩
    · rw [hv] at hn
      cases hn
  · rcases h p t ht with ⟨u, hu, hb⟩ | ⟨hn, hd⟩
    · exact Or.inl
        ⟨u, by simpa [State.restarted, State.inserted, Function.update_apply, hq] using hu, hb⟩
    · exact Or.inr
        ⟨by simpa [State.restarted, State.inserted, Function.update_apply, hq] using hn, hd⟩

theorem ResetLoop.persists {now : Timestamp} {s₀ s s' : State} {l : List Entry}
    (h : ResetLoop now s l s') (h₀ : Persists s₀ s) : Persists s₀ s' := by
  induction h with
  | nil s _ => exact h₀
  | keep _ ht _ _ _ ih => exact ih (persists_restarted h₀ ht _)
  | drop _ ht _ _ ih => exact ih (persists_dropped h₀ ht)

theorem Effect.persists {s s' : State} {a : Action} (he : Effect s a s') : Persists s s' := by
  cases he with
  | @newTimer p when interval _ hfree _ =>
    intro q t ht
    left
    refine ⟨t, ?_, rfl⟩
    have hqp : q ≠ p := fun e => by rw [e, hfree] at ht; cases ht
    simpa [State.newTimer, Function.update_apply, hqp] using ht
  | addEarliest _ _ _ _ => exact persists_refl rfl
  | addLater _ _ _ _ => exact persists_refl rfl
  | @cancelActive timerId t _ hw _ =>
    exact persists_dropped (s := s.erased timerId.timer t) (persists_refl rfl) hw.1
  | cancelNoted _ _ _ => exact persists_refl rfl
  | cancelStale _ _ _ => exact persists_refl rfl
  | handleRead _ => exact persists_refl rfl
  | readTimerfd _ _ => exact persists_refl rfl
  | runCallback _ _ => exact persists_refl rfl
  | reset _ hl =>
    have hp : Persists s _ := hl.persists (persists_refl rfl)
    rw [rearmed_frame]
    exact hp
  | clock _ => exact persists_refl rfl
  | @destroy H D hphase hM hH =>
    intro p t ht
    by_cases hb : t.born ∈ s.handed
    · right
      have hn : H p = none := by
        cases hp : H p with
        | none => rfl
        | some u =>
          have hu := (hH p u).1 hp
          rw [ht] at hu
          cases hu.1
          exact absurd hb hu.2
      refine ⟨hn, ?_⟩
      rcases hM.kept t.born hb with hd | ⟨q, u, hu, hbu⟩
      · exact hd
      · exact absurd (hbu ▸ hb) ((hH q u).1 hu).2
    · exact Or.inl ⟨t, (hH p t).2 ⟨ht, hb⟩, rfl⟩

/-! ## The representation invariant -/

/-- `t` at `p` is in both sets, under its expiration and its sequence number. -/
def State.InSets (s : State) (p : Addr) (t : Timer) : Prop :=
  toLex (t.expiration, p) ∈ s.timers ∧ toLex (p, t.sequence) ∈ s.activeTimers

/-- The timers in the sets are those that wait. -/
theorem Sets.waiting_iff {s : State} {out : List Addr} (h : Sets s out) (p : Addr) (t : Timer) :
    s.Waiting out p t ↔ s.heap p = some t ∧ s.InSets p t := by
  constructor
  · intro hw
    exact ⟨hw.1, (h.timers _ _).2 ⟨t, hw, rfl⟩, (h.active _ _).2 ⟨t, hw, rfl⟩⟩
  · rintro ⟨ht, hs⟩
    obtain ⟨u, hw, -⟩ := (h.timers _ _).1 hs.1
    have hu := hw.1
    rw [ht] at hu
    cases hu
    exact hw

structure Representation (s : State) : Prop where
  /-- `timers_` and `activeTimers_` hold the same timers, once each -/
  timers : ∀ e ∈ s.timers, ∃ t, s.heap (ofLex e).2 = some t ∧ t.expiration = (ofLex e).1 ∧
    s.InSets (ofLex e).2 t
  active : ∀ k ∈ s.activeTimers, ∃ t, s.heap (ofLex k).1 = some t ∧ t.sequence = (ofLex k).2 ∧
    s.InSets (ofLex k).1 t
  timers_once : (s.timers.toList.map fun e => (ofLex e).2).Nodup
  active_once : (s.activeTimers.toList.map fun k => (ofLex k).1).Nodup
  sizes : s.timers.size = s.activeTimers.size
  /-- a live timer given to the loop is in the sets or in the batch, not in both -/
  one_place : ∀ p t, s.heap p = some t → t.born ∈ s.handed →
    Xor (s.InSets p t) (p ∈ s.batch.map fun e => (ofLex e).2)
  in_sets : ∀ p t, s.heap p = some t → s.InSets p t → t.born ∈ s.handed
  in_batch : ∀ e ∈ s.batch, ∃ t, s.heap (ofLex e).2 = some t ∧ t.born ∈ s.handed
  batch_once : (s.batch.map fun e => (ofLex e).2).Nodup
  /-- no timer is deleted twice, a deleted one is gone, and none is lost -/
  deleted_once : s.deleted.Nodup
  deleted_gone : ∀ p t, s.heap p = some t → t.born ∉ s.deleted
  not_lost : ∀ g ∈ s.handed, g ∈ s.deleted ∨ ∃ p t, s.heap p = some t ∧ t.born = g
  destroyed : s.phase = .destroyed → ∀ g ∈ s.handed, s.deleted.count g = 1

theorem Inv.representation {s : State} (h : Inv s) : Representation s := by
  have hsets := h.owned.sets
  have hmem := h.owned.memory
  have hin : ∀ p t, s.Waiting (addrs s.batch) p t → s.InSets p t := fun p t hw =>
    ((hsets.waiting_iff p t).1 hw).2
  have hwait : ∀ p t, s.heap p = some t → s.InSets p t → s.Waiting (addrs s.batch) p t :=
    fun p t ht hs => (hsets.waiting_iff p t).2 ⟨ht, hs⟩
  refine
    { timers := ?_, active := ?_, timers_once := ?_, active_once := ?_, sizes := hsets.sizes
      one_place := ?_, in_sets := fun p t ht hs => (hwait p t ht hs).2.1, in_batch := ?_
      batch_once := hsets.out_nodup, deleted_once := hmem.deleted_nodup
      deleted_gone := hmem.live, not_lost := hmem.kept, destroyed := ?_ }
  · intro e he
    obtain ⟨t, hw, ht⟩ := (hsets.timers (ofLex e).1 (ofLex e).2).1 he
    exact ⟨t, hw.1, ht, hin _ t hw⟩
  · intro k hk
    obtain ⟨t, hw, ht⟩ := (hsets.active (ofLex k).1 (ofLex k).2).1 hk
    exact ⟨t, hw.1, ht, hin _ t hw⟩
  · refine List.Nodup.map_on ?_ s.timers.nodup
    intro e he e' he' hee
    exact h.owned.entry_inj he he' hee
  · refine List.Nodup.map_on ?_ s.activeTimers.nodup
    intro k hk k' hk' hkk
    obtain ⟨t, hw, ht⟩ := (hsets.active (ofLex k).1 (ofLex k).2).1 hk
    obtain ⟨t', hw', ht'⟩ := (hsets.active (ofLex k').1 (ofLex k').2).1 hk'
    have hh := hw'.1
    rw [← hkk, hw.1] at hh
    cases hh
    exact ofLex.injective (Prod.ext hkk (ht.symm.trans ht'))
  · intro p t ht hb
    by_cases hp : p ∈ s.batch.map fun e => (ofLex e).2
    · exact Or.inr ⟨hp, fun hs => (hwait p t ht hs).2.2 hp⟩
    · exact Or.inl ⟨hin p t ⟨ht, hb, hp⟩, hp⟩
  · intro e he
    exact hsets.out_live _ (List.mem_map.2 ⟨e, he, rfl⟩)
  · intro hd g hg
    exact List.count_eq_one_of_mem hmem.deleted_nodup (h.destroyed hd g hg)

/-- **Representation and ownership.**  In every state of every run the two sets and the
batch own the timers as `Representation` says; no enabled action fails an assertion or
touches a dead timer, and an address that is held denotes the same object until that is
deleted. -/
theorem timerQueue_representation (wall : Timestamp) (mono : Int) (as : List Action) (s : State)
    (hr : machine.run (init wall mono) as = some s) :
    Representation s ∧
    ∀ a, machine.enabled s a = true → ∃ s', machine.step s a = .ok s' ∧ Persists s s' := by
  have h := run_inv hr
  refine ⟨h.representation, fun a he => ?_⟩
  obtain ⟨s', hs', hef⟩ := h.step_effect he
  exact ⟨s', hs', hef.persists⟩

/-- A one-shot timer fires, and a repeating one, whose callback cancels it and adds another.  The
address of the first is used again, for the timer that the destructor finds. -/
def firingRun : List Action :=
  [.newTimer 8 150 .zero, .addTimerInLoop 8, .newTimer 16 150 ⟨true, 500, by decide, by simp⟩,
    .addTimerInLoop 16, .clock 200 200000, .handleRead, .readTimerfd, .runCallback,
    .runCallback, .cancelInLoop ⟨16, 2⟩, .newTimer 24 300 .zero, .addTimerInLoop 24, .reset,
    .newTimer 8 400 .zero, .addTimerInLoop 8, .cancelInLoop ⟨24, 3⟩, .destroy]

theorem firingRun_representation :
    ∃ s, machine.run (init 100 100000) firingRun = some s ∧ s.started = [0, 1] ∧
      s.deleted = [0, 1, 2, 3] ∧ Representation s :=
  ⟨_, rfl, rfl, rfl, (timerQueue_representation 100 100000 firingRun _ rfl).1⟩

end Rawmd.TimerQueue
