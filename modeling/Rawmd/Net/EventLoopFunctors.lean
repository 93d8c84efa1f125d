import Rawmd.Net.EventLoop

/-!
# The order of the pending functors

`Effect` lists what the enabled actions of the loop do.  From it: the functors called so
far, then the rest of the local vector, then `pendingFunctors_`, are the functors in the
order in which they were pushed (`InOrder`), whatever the threads do.  Between two swaps the
first two parts together stay the same and pushes only reach the third, so what is pushed
after the swap of a `doPendingFunctors` waits for a later call.

    enabled s a → step s a = .ok s' → Effect s a s'                     (step_effect)
    what a step does to the functors, in four cases                     (Effect.functors)
    InOrder s → Effect s a s' → InOrder s'                              (InOrder.effect)
    no swap in bs → run s bs = some s' → Extends s s'                   (Extends.run)
-/

namespace Rawmd.EventLoop

variable {φ : Type}

/-! ## What each action does -/

inductive Effect (s : State φ) : Action φ → State φ → Prop where
  | queueInLoop {t : Tid} {cb : φ} : s.mayCall t = true →
      Effect s (.queueInLoop t cb) (s.queueInLoop t cb)
  | runHere {cb : φ} : Effect s (.runInLoop s.threadId cb) s
  | runQueued {t : Tid} {cb : φ} : s.mayCall t = true → t ≠ s.threadId →
      Effect s (.runInLoop t cb) (s.queueInLoop t cb)
  | testWakes {t : Tid} : s.calls t = .pushed →
      t ≠ s.threadId ∨ s.callingPendingFunctors = true →
      Effect s (.testWakeup t) { s with calls := Function.update s.calls t (.waking true) }
  | testSkips : s.calls s.threadId = .pushed → s.callingPendingFunctors = false →
      Effect s (.testWakeup s.threadId)
        { s with calls := Function.update s.calls s.threadId .idle }
  | wakeup {t : Tid} {queued : Bool} : s.calls t = .waking queued →
      Effect s (.wakeup t) (s.wakeup t)
  | quit {t : Tid} : s.mayCall t = true → Effect s (.quit t) (s.setQuit t)
  | loop : s.calls s.threadId = .idle → s.pc = .outside → s.looping = false →
      Effect s (.loop s.threadId)
        { s with looping := true, quit := false, runner := s.threadId, pc := .test }
  | quits : s.calls s.threadId = .idle → s.pc = .test →
      Effect s .testQuit { s with looping := false, pc := .outside }
  | polls : s.calls s.threadId = .idle → s.pc = .test → Effect s .testQuit { s with pc := .poll }
  | pollReturns {active : List ActiveChannel} : s.calls s.threadId = .idle → s.pc = .poll →
      Effect s (.pollReturns active) { s with eventHandling := true, pc := .events active }
  | handleWakeup {active : List ActiveChannel} : s.calls s.threadId = .idle →
      s.pc = .events (.wakeup :: active) → Effect s .handleEvent { s with pc := .reading active }
  | handleOther {n : Nat} {active : List ActiveChannel} : s.calls s.threadId = .idle →
      s.pc = .events (.other n :: active) → Effect s .handleEvent { s with pc := .event active }
  | handleRead {active : List ActiveChannel} : s.calls s.threadId = .idle →
      s.pc = .reading active →
      Effect s .handleRead { s with wakeupFd := 0, pc := .events active }
  | eventReturns {active : List ActiveChannel} : s.calls s.threadId = .idle →
      s.pc = .event active → Effect s .eventReturns { s with pc := .events active }
  | eventsDone : s.calls s.threadId = .idle → s.pc = .events [] →
      Effect s .eventsDone
        { s with eventHandling := false, callingPendingFunctors := true, pc := .swap }
  | swap : s.calls s.threadId = .idle → s.pc = .swap →
      Effect s .swap { s with pendingFunctors := [], pc := .functors s.pendingFunctors }
  | callFunctor {cb : φ} {rest : List φ} : s.calls s.threadId = .idle →
      s.pc = .functors (cb :: rest) →
      Effect s .callFunctor
        { s with pc := .functor rest, executed := s.executed ++ [(s.runner, cb)] }
  | functorReturns {rest : List φ} : s.calls s.threadId = .idle → s.pc = .functor rest →
      Effect s .functorReturns { s with pc := .functors rest }
  | functorsDone : s.calls s.threadId = .idle → s.pc = .functors [] →
      Effect s .functorsDone { s with callingPendingFunctors := false, pc := .test }

theorem step_effect {s s' : State φ} {a : Action φ} (he : (machine φ).enabled s a = true)
    (h : (machine φ).step s a = .ok s') : Effect s a s' := by
  change enabled s a = true at he
  change step s a = .ok s' at h
  cases a with
  | queueInLoop t cb =>
    cases h
    exact .queueInLoop he
  | runInLoop t cb =>
    cases h
    simp only [State.runInLoop]
    split
    · next ht =>
      obtain rfl : s.threadId = t := by simpa [State.isInLoopThread] using ht
      exact .runHere
    · next ht =>
      refine .runQueued he ?_
      rintro rfl
      simp [State.isInLoopThread] at ht
  | testWakeup t =>
    cases h
    have hp : s.calls t = .pushed := of_decide_eq_true he
    simp only [State.testWakeup]
    split
    · next hw =>
      have hw' : s.threadId ≠ t ∨ s.callingPendingFunctors = true := by
        simpa [State.isInLoopThread] using hw
      exact .testWakes hp (hw'.imp_left Ne.symm)
    · next hw =>
      simp only [State.isInLoopThread, Bool.or_eq_true, not_or, Bool.not_eq_true,
        Bool.not_eq_false', beq_iff_eq] at hw
      obtain ⟨rfl, hc⟩ := hw
      exact .testSkips hp hc
  | wakeup t =>
    cases h
    simp only [enabled, Bool.or_eq_true, decide_eq_true_eq] at he
    rcases he with he | he
    · exact .wakeup he
    · exact .wakeup he
  | quit t =>
    cases h
    exact .quit he
  | loop t =>
    simp only [enabled, Bool.and_eq_true, decide_eq_true_eq] at he
    simp only [step] at h
    split at h
    · cases h
    · next hl =>
      split at h
      · next ht =>
        obtain rfl : s.threadId = t := by simpa [State.isInLoopThread] using ht
        cases h
        cases hpc : s.pc <;> simp only [hpc, Bool.false_eq_true, and_false] at he
        exact .loop he.1 hpc (by simpa using hl)
      · cases h
  | testQuit =>
    simp only [enabled, State.loopRuns, Bool.and_eq_true, decide_eq_true_eq] at he
    cases hpc : s.pc <;> simp only [hpc, Bool.false_eq_true, and_false] at he
    simp only [step] at h
    split at h
    · cases h
      exact .quits he.1 hpc
    · cases h
      exact .polls he.1 hpc
  | pollReturns active =>
    simp only [enabled, State.loopRuns, Bool.and_eq_true, decide_eq_true_eq] at he
    cases h
    cases hpc : s.pc <;> simp only [hpc, Bool.false_eq_true, and_false] at he
    exact .pollReturns he.1.1 hpc
  | handleEvent =>
    simp only [enabled, State.loopRuns, Bool.and_eq_true, decide_eq_true_eq] at he
    split at he
    · next c active hpc =>
      cases c with
      | wakeup =>
        simp only [step, hpc] at h
        cases h
        exact .handleWakeup he.1 hpc
      | other n =>
        simp only [step, hpc] at h
        cases h
        exact .handleOther he.1 hpc
    · cases he.2
  | handleRead =>
    simp only [enabled, State.loopRuns, Bool.and_eq_true, decide_eq_true_eq] at he
    cases hpc : s.pc <;> simp only [hpc, Bool.false_eq_true, and_false] at he
    simp only [step, hpc] at h
    cases h
    exact .handleRead he.1 hpc
  | eventReturns =>
    simp only [enabled, State.loopRuns, Bool.and_eq_true, decide_eq_true_eq] at he
    cases hpc : s.pc <;> simp only [hpc, Bool.false_eq_true, and_false] at he
    simp only [step, hpc] at h
    cases h
    exact .eventReturns he.1 hpc
  | eventsDone =>
    simp only [enabled, State.loopRuns, Bool.and_eq_true, decide_eq_true_eq] at he
    split at he
    · next hpc =>
      cases h
      exact .eventsDone he.1 hpc
    · cases he.2
  | swap =>
    simp only [enabled, State.loopRuns, Bool.and_eq_true, decide_eq_true_eq] at he
    cases hpc : s.pc <;> simp only [hpc, Bool.false_eq_true, and_false] at he
    cases h
    exact .swap he.1 hpc
  | callFunctor =>
    simp only [enabled, State.loopRuns, Bool.and_eq_true, decide_eq_true_eq] at he
    split at he
    · next cb rest hpc =>
      simp only [step, hpc] at h
      cases h
      exact .callFunctor he.1 hpc
    · cases he.2
  | functorReturns =>
    simp only [enabled, State.loopRuns, Bool.and_eq_true, decide_eq_true_eq] at he
    cases hpc : s.pc <;> simp only [hpc, Bool.false_eq_true, and_false] at he
    simp only [step, hpc] at h
    cases h
    exact .functorReturns he.1 hpc
  | functorsDone =>
    simp only [enabled, State.loopRuns, Bool.and_eq_true, decide_eq_true_eq] at he
    split at he
    · next hpc =>
      cases h
      exact .functorsDone he.1 hpc
    · cases he.2

theorem Effect.threadId {s s' : State φ} {a : Action φ} (h : Effect s a s') :
    s'.threadId = s.threadId := by
  cases h <;> rfl

theorem run_threadId {tid : Tid} {as : List (Action φ)} {s : State φ}
    (h : (machine φ).run (init tid) as = some s) : s.threadId = tid := by
  have hk : (machine φ).Keeps (fun _ _ _ => True) (fun u => u.threadId = tid) :=
    fun _ _ _ hi _ he hs => (step_effect he hs).threadId.trans hi
  exact hk.run_all rfl h

/-- A step pushes a functor, swaps, calls a functor, or leaves all of them where they are. -/
theorem Effect.functors {s s' : State φ} {a : Action φ} (h : Effect s a s') :
    (∃ t cb, (a = .queueInLoop t cb ∨ a = .runInLoop t cb) ∧ s' = s.queueInLoop t cb) ∨
    (a = .swap ∧ s.localFunctors = [] ∧ s'.localFunctors = s.pendingFunctors ∧
      s'.pendingFunctors = [] ∧ s'.executed = s.executed ∧ s'.queued = s.queued) ∨
    (∃ cb, a = .callFunctor ∧ s.localFunctors = cb :: s'.localFunctors ∧
      s'.pendingFunctors = s.pendingFunctors ∧ s'.executed = s.executed ++ [(s.runner, cb)] ∧
      s'.queued = s.queued) ∨
    (s'.localFunctors = s.localFunctors ∧ s'.pendingFunctors = s.pendingFunctors ∧
      s'.executed = s.executed ∧ s'.queued = s.queued) := by
  cases h with
  | @queueInLoop t cb _ => exact .inl ⟨t, cb, .inl rfl, rfl⟩
  | @runQueued t cb _ _ => exact .inl ⟨t, cb, .inr rfl, rfl⟩
  | swap _ hpc => exact .inr (.inl ⟨rfl, by simp [State.localFunctors, hpc], rfl, rfl, rfl, rfl⟩)
  | @callFunctor cb rest _ hpc =>
    exact .inr (.inr (.inl ⟨cb, rfl, by simp [State.localFunctors, hpc], rfl, rfl, rfl⟩))
  | runHere | testWakes _ _ | testSkips _ _ | wakeup _ | quit _ =>
    exact .inr (.inr (.inr ⟨rfl, rfl, rfl, rfl⟩))
  | loop _ hpc _ | quits _ hpc | polls _ hpc | pollReturns _ hpc | handleWakeup _ hpc
  | handleOther _ hpc | handleRead _ hpc | eventReturns _ hpc | eventsDone _ hpc
  | functorReturns _ hpc | functorsDone _ hpc =>
    -- from one position without local functors to another, or back to the loop over them
    exact .inr (.inr (.inr ⟨by simp [State.localFunctors, hpc], rfl, rfl, rfl⟩))

/-! ## The functors stay in order -/

/-- The called functors, the rest of the local vector and `pendingFunctors_` are the queued
functors; all were called by the loop's thread. -/
structure InOrder (s : State φ) : Prop where
  order : s.executed.map Prod.snd ++ s.localFunctors ++ s.pendingFunctors = s.queued
  runner : s.runner = s.threadId
  thread : ∀ e ∈ s.executed, e.1 = s.threadId

theorem InOrder.init (tid : Tid) : InOrder (init tid : State φ) where
  order := rfl
  runner := rfl
  thread := by simp [EventLoop.init]

/-- The functors that are out of `pendingFunctors_` stay the same, and what is queued from
`s` to `s'` is appended to it. -/
structure Extends (s s' : State φ) : Prop where
  fixed : s'.executed.map Prod.snd ++ s'.localFunctors =
    s.executed.map Prod.snd ++ s.localFunctors
  grows : ∃ new, s'.pendingFunctors = s.pendingFunctors ++ new ∧ s'.queued = s.queued ++ new

namespace Extends

variable {s s' s'' : State φ}

theorem of_eq (hl : s'.executed.map Prod.snd ++ s'.localFunctors =
    s.executed.map Prod.snd ++ s.localFunctors) (hp : s'.pendingFunctors = s.pendingFunctors)
    (hq : s'.queued = s.queued) : Extends s s' :=
  ⟨hl, [], by simp [hp], by simp [hq]⟩

theorem refl (s : State φ) : Extends s s := of_eq rfl rfl rfl

theorem trans (h : Extends s s') (h' : Extends s' s'') : Extends s s'' := by
  obtain ⟨new, hp, hq⟩ := h.grows
  obtain ⟨new', hp', hq'⟩ := h'.grows
  refine ⟨h'.fixed.trans h.fixed, new ++ new', ?_, ?_⟩
  · rw [hp', hp, List.append_assoc]
  · rw [hq', hq, List.append_assoc]

/-- A step other than the swap. -/
theorem effect {a : Action φ} (h : Effect s a s') (ha : a ≠ .swap) : Extends s s' := by
  rcases h.functors with ⟨t, cb, -, rfl⟩ | ⟨hs, -⟩ | ⟨cb, -, hl, hp, he, hq⟩ | ⟨hl, hp, he, hq⟩
  · exact ⟨rfl, [cb], rfl, rfl⟩
  · exact absurd hs ha
  · exact of_eq (by simp [he, hl]) hp hq
  · exact of_eq (by rw [he, hl]) hp hq

theorem run {bs : List (Action φ)} (hb : ∀ b ∈ bs, b ≠ .swap)
    (h : (machine φ).run s bs = some s') : Extends s s' := by
  induction bs generalizing s with
  | nil =>
    cases h
    exact refl _
  | cons b bs ih =>
    obtain ⟨he, u, hu, h⟩ := ((machine φ).run_cons_iff _ _ _ _).1 h
    have h₁ := effect (step_effect he hu) (hb b (by simp))
    exact h₁.trans (ih (fun c hc => hb c (by simp [hc])) h)

theorem order (h : Extends s s')
    (ho : s.executed.map Prod.snd ++ s.localFunctors ++ s.pendingFunctors = s.queued) :
    s'.executed.map Prod.snd ++ s'.localFunctors ++ s'.pendingFunctors = s'.queued := by
  obtain ⟨new, hp, hq⟩ := h.grows
  rw [h.fixed, hp, hq, ← ho, ← List.append_assoc]

end Extends

namespace InOrder

variable {s s' : State φ}

theorem effect {a : Action φ} (h : InOrder s) (he : Effect s a s') : InOrder s' := by
  have horder : s'.executed.map Prod.snd ++ s'.localFunctors ++ s'.pendingFunctors = s'.queued := by
    by_cases ha : a = .swap
    · subst ha
      cases he with
      | swap _ hpc =>
        have ho := h.order
        simp only [State.localFunctors, hpc, List.append_nil] at ho
        simpa [State.localFunctors] using ho
    · exact (Extends.effect he ha).order h.order
  have hrunner : s'.runner = s'.threadId := by
    cases he <;> first | exact h.runner | rfl
  refine ⟨horder, hrunner, fun e hm => ?_⟩
  rw [he.threadId]
  cases he with
  | callFunctor _ _ =>
    rcases List.mem_append.1 hm with hm | hm
    · exact h.thread e hm
    · rw [List.mem_singleton.1 hm]
      exact h.runner
  | _ => exact h.thread e hm

theorem run {as : List (Action φ)} (h : InOrder s) (hr : (machine φ).run s as = some s') :
    InOrder s' := by
  have hk : (machine φ).Keeps (fun _ _ _ => True) InOrder :=
    fun _ _ _ hi _ he hs => hi.effect (step_effect he hs)
  exact hk.run_all h hr

end InOrder

/-! ## The functors that wait -/

/-- The queued functors that have not been called, in order. -/
def State.waiting (s : State φ) : List φ := s.localFunctors ++ s.pendingFunctors

theorem waiting_queueInLoop (s : State φ) (t : Tid) (cb : φ) :
    (s.queueInLoop t cb).waiting = s.waiting ++ [cb] :=
  (List.append_assoc _ _ _).symm

/-- Only pushes and calls change what waits. -/
theorem Effect.waiting {s s' : State φ} {a : Action φ} (h : Effect s a s') :
    (∃ t cb, (a = .queueInLoop t cb ∨ a = .runInLoop t cb) ∧ s'.waiting = s.waiting ++ [cb]) ∨
    (∃ cb, a = .callFunctor ∧ s.localFunctors = cb :: s'.localFunctors ∧
      s.waiting = cb :: s'.waiting) ∨
    s'.waiting = s.waiting := by
  unfold State.waiting
  rcases h.functors with ⟨t, cb, ha, rfl⟩ | ⟨-, hl, hl', hp, -⟩ | ⟨cb, ha, hl, hp, -⟩ | ⟨hl, hp, -⟩
  · exact .inl ⟨t, cb, ha, waiting_queueInLoop s t cb⟩
  · exact .inr (.inr (by rw [hl, hl', hp, List.append_nil, List.nil_append]))
  · exact .inr (.inl ⟨cb, ha, hl, by rw [hl, hp, List.cons_append]⟩)
  · exact .inr (.inr (by rw [hl, hp]))

/-- **The pending functors run once each, in order, on the loop's thread**; up to the next
swap, those in `pendingFunctors_` stay there and new ones are put behind them. -/
theorem pendingFunctors_in_order (tid : Tid) (as : List (Action φ)) (s : State φ)
    (h : (machine φ).run (init tid) as = some s) :
    s.executed.map Prod.snd ++ s.localFunctors ++ s.pendingFunctors = s.queued ∧
      (∀ e ∈ s.executed, e.1 = tid) ∧
      ∀ bs s', (machine φ).run s bs = some s' → (∀ b ∈ bs, b ≠ .swap) →
        s'.executed.map Prod.snd ++ s'.localFunctors =
            s.executed.map Prod.snd ++ s.localFunctors ∧
          ∃ new, s'.pendingFunctors = s.pendingFunctors ++ new ∧ s'.queued = s.queued ++ new := by
  have hi := (InOrder.init tid).run h
  refine ⟨hi.order, ?_, fun bs s' hr hb => ?_⟩
  · rw [← run_threadId h]
    exact hi.thread
  · have hx := Extends.run hb hr
    exact ⟨hx.fixed, hx.grows⟩

/-- Functor 7 is queued by thread 2, and queues 8 when it is called. -/
def requeueRun : List (Action Nat) :=
  [.queueInLoop 2 7, .testWakeup 2, .wakeup 2, .loop 1, .testQuit, .pollReturns [.wakeup],
    .handleEvent, .handleRead, .eventsDone, .swap, .callFunctor, .queueInLoop 1 8]

theorem requeueRun_in_order :
    ∃ s, (machine Nat).run (init 1) requeueRun = some s ∧ s.executed = [(1, 7)] ∧
      s.pendingFunctors = [8] ∧
      s.executed.map Prod.snd ++ s.localFunctors ++ s.pendingFunctors = s.queued :=
  ⟨_, rfl, rfl, rfl, (pendingFunctors_in_order 1 requeueRun _ rfl).1⟩

/-- A functor that thread 2 queues while `doPendingFunctors` is executing, but before its
swap, is run by that call. -/
theorem queueInLoop_before_swap_runs :
    ∃ s s' : State Nat,
      (machine Nat).run (init 1) [.loop 1, .testQuit, .pollReturns [], .eventsDone] = some s ∧
      s.queued = [] ∧
      (machine Nat).run s [.queueInLoop 2 7, .swap, .callFunctor] = some s' ∧
      (machine Nat).StatesMeet (fun u => u.callingPendingFunctors = true) s
        [.queueInLoop 2 7, .swap, .callFunctor] ∧
      s'.executed = [(1, 7)] := by
  refine ⟨_, _, rfl, rfl, rfl, ?_, rfl⟩
  refine ⟨rfl, fun t ht => ?_⟩
  cases ht
  refine ⟨rfl, fun t ht => ?_⟩
  cases ht
  refine ⟨rfl, fun t ht => ?_⟩
  cases ht
  rfl

end Rawmd.EventLoop
