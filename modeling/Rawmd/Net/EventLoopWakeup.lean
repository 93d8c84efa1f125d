import Rawmd.Net.EventLoopFunctors

/-!
# No lost wakeup

When the loop thread is about to block in `poll` with functors pending, the eventfd is
readable or a thread is on its way to write it.  This needs that the loop thread calls
`queueInLoop` only from event callbacks and functors: outside `loop()` its test finds
`isInLoopThread()` and `callingPendingFunctors_ == false` and skips the wakeup, so
the first `poll` after it blocks (`queueInLoop_outside_loop_sleeps`).

    Awake s → Effect s a s' → the condition → Awake s'                  (Awake.effect)
-/

namespace Rawmd.EventLoop

variable {φ : Type}

/-- The loop thread is between the return of `poll` and the swap that follows. -/
def State.BeforeSwap (s : State φ) : Prop :=
  match s.pc with
  | .events _ => True
  | .reading _ => True
  | .event _ => True
  | .swap => True
  | _ => False

/-- The loop thread is in `doPendingFunctors`. -/
def State.InFunctors (s : State φ) : Prop :=
  match s.pc with
  | .swap => True
  | .functors _ => True
  | .functor _ => True
  | _ => False

/-- Thread `t` has pushed a functor and will call `wakeup()` for it. -/
def State.WillWake (s : State φ) (t : Tid) : Prop :=
  s.calls t = .waking true ∨
    s.calls t = .pushed ∧ (t ≠ s.threadId ∨ s.callingPendingFunctors = true)

/-- The loop thread calls `queueInLoop` only inside `loop()`. -/
def QueuesInLoop (s : State φ) (a : Action φ) (_ : State φ) : Prop :=
  match a with
  | .queueInLoop t _ => t = s.threadId → s.looping = true
  | _ => True

instance decidableQueuesInLoop (s : State φ) (a : Action φ) (t : State φ) :
    Decidable (QueuesInLoop s a t) :=
  match a with
  | .queueInLoop u _ => inferInstanceAs (Decidable (u = s.threadId → s.looping = true))
  | .runInLoop _ _ | .testWakeup _ | .wakeup _ | .quit _ | .loop _ | .testQuit
  | .pollReturns _ | .handleEvent | .handleRead | .eventReturns | .eventsDone | .swap
  | .callFunctor | .functorReturns | .functorsDone => inferInstanceAs (Decidable True)

/-- Nothing pending is left to the poll timeout. -/
structure Awake (s : State φ) : Prop where
  looping : s.looping = true ↔ s.pc ≠ .outside
  calling : s.callingPendingFunctors = true ↔ s.InFunctors
  user : s.calls s.threadId ≠ .idle → s.inUserCode = true
  awake : s.BeforeSwap ∨ s.pendingFunctors = [] ∨ 0 < s.wakeupFd ∨ ∃ t, s.WillWake t

theorem eventfdWrite_pos (n : Nat) : 0 < eventfdWrite n := by
  unfold eventfdWrite
  split <;> omega

namespace Awake

variable {s s' : State φ}

theorem init (tid : Tid) : Awake (init tid : State φ) where
  looping := by simp [EventLoop.init]
  calling := by simp [EventLoop.init, State.InFunctors]
  user := by simp [EventLoop.init]
  awake := .inr (.inl rfl)

/-- Only a thread in a call can be on its way to the eventfd. -/
theorem willWake_ne {t u : Tid} (h : s.WillWake t) (hu : s.calls u = .idle) : t ≠ u := by
  rintro rfl
  simp [State.WillWake, hu] at h

theorem willWake_congr {t : Tid} (h : s.WillWake t) (hc : s'.calls t = s.calls t)
    (hid : s'.threadId = s.threadId) (ht : t ≠ s.threadId) : s'.WillWake t := by
  unfold State.WillWake at h ⊢
  rw [hc, hid]
  exact h.imp_right fun hp => ⟨hp.1, .inl ht⟩

/-- A step of the loop thread that leaves the functors and the eventfd alone. -/
theorem move (h : Awake s) (hidle : s.calls s.threadId = .idle) (hcalls : s'.calls = s.calls)
    (hid : s'.threadId = s.threadId) (hp : s'.pendingFunctors = s.pendingFunctors)
    (hfd : s'.wakeupFd = s.wakeupFd) (hb : s.BeforeSwap → s'.BeforeSwap)
    (hl : s'.looping = true ↔ s'.pc ≠ .outside)
    (hc : s'.callingPendingFunctors = true ↔ s'.InFunctors) : Awake s' where
  looping := hl
  calling := hc
  user hn := by
    rw [hcalls, hid] at hn
    exact absurd hidle hn
  awake := by
    rw [hp, hfd]
    refine h.awake.imp hb (Or.imp_right (Or.imp_right ?_))
    rintro ⟨t, ht⟩
    exact ⟨t, willWake_congr ht (by rw [hcalls]) hid (willWake_ne ht hidle)⟩

theorem user_update (h : Awake s) {t : Tid} {c : Call}
    (hc : t = s.threadId → c ≠ .idle → s.inUserCode = true) :
    Function.update s.calls t c s.threadId ≠ .idle → s.inUserCode = true := by
  intro hn
  by_cases ht : t = s.threadId
  · subst ht
    rw [Function.update_self] at hn
    exact hc rfl hn
  · rw [Function.update_of_ne (Ne.symm ht)] at hn
    exact h.user hn

theorem mayCall_idle {t : Tid} (h : s.mayCall t = true) : s.calls t = .idle := by
  simp only [State.mayCall, Bool.and_eq_true, decide_eq_true_eq] at h
  exact h.1

theorem mayCall_user {t : Tid} (h : s.mayCall t = true) (ht : t = s.threadId) :
    s.inUserCode = true := by
  simp only [State.mayCall, State.isInLoopThread, ht, Bool.and_eq_true] at h
  simpa using h.2

theorem queueInLoop (h : Awake s) {t : Tid} {cb : φ} (hm : s.mayCall t = true)
    (ht : t = s.threadId → s.looping = true) : Awake (s.queueInLoop t cb) where
  looping := h.looping
  calling := h.calling
  user := h.user_update fun hid _ => mayCall_user hm hid
  awake := by
    have hpushed : (s.queueInLoop t cb).calls t = .pushed := by simp [State.queueInLoop]
    by_cases hid : t = s.threadId
    · -- in `loop()`, the caller is an event callback or a functor
      have hu := mayCall_user hm hid
      have hpc := h.looping.1 (ht hid)
      cases hp : s.pc with
      | event active => exact .inl (by simp [State.BeforeSwap, State.queueInLoop, hp])
      | functor rest =>
        have hc := h.calling.2 (by simp [State.InFunctors, hp])
        exact .inr (.inr (.inr ⟨t, .inr ⟨hpushed, .inr hc⟩⟩))
      | _ => simp [State.inUserCode, hp] at hu hpc
    · exact .inr (.inr (.inr ⟨t, .inr ⟨hpushed, .inl hid⟩⟩))

theorem effect {a : Action φ} (h : Awake s) (hq : QueuesInLoop s a s') (he : Effect s a s') :
    Awake s' := by
  cases he with
  | queueInLoop hm => exact h.queueInLoop hm hq
  | runHere => exact h
  | runQueued hm ht => exact h.queueInLoop hm fun hid => absurd hid ht
  | @testWakes t hp hw =>
    refine ⟨h.looping, h.calling, h.user_update fun hid _ => ?_, ?_⟩
    · exact h.user (by rw [← hid, hp]; simp)
    · exact .inr (.inr (.inr ⟨t, .inl (by simp)⟩))
  | testSkips hp hc =>
    refine ⟨h.looping, h.calling, h.user_update fun _ hn => absurd rfl hn, ?_⟩
    refine h.awake.imp_right (Or.imp_right (Or.imp_right ?_))
    rintro ⟨t, ht⟩
    have hne : t ≠ s.threadId := by
      rintro rfl
      simp [State.WillWake, hp, hc] at ht
    exact ⟨t, willWake_congr ht (by simp [hne]) rfl hne⟩
  | @wakeup t queued hw =>
    refine ⟨h.looping, h.calling, h.user_update fun _ hn => absurd rfl hn, ?_⟩
    exact .inr (.inr (.inl (eventfdWrite_pos _)))
  | @quit t hm =>
    refine ⟨h.looping, h.calling, h.user_update fun hid _ => mayCall_user hm hid, ?_⟩
    refine h.awake.imp_right (Or.imp_right (Or.imp_right ?_))
    rintro ⟨u, hu⟩
    have hne := willWake_ne hu (mayCall_idle hm)
    refine ⟨u, ?_⟩
    simpa [State.WillWake, State.setQuit, Function.update_of_ne hne] using hu
  | loop hidle hpc _ =>
    exact h.move hidle rfl rfl rfl rfl (by simp [State.BeforeSwap, hpc])
      (by simp) (by simp [h.calling, State.InFunctors, hpc])
  | quits hidle hpc =>
    exact h.move hidle rfl rfl rfl rfl (by simp [State.BeforeSwap, hpc])
      (by simp) (by simp [h.calling, State.InFunctors, hpc])
  | polls hidle hpc =>
    exact h.move hidle rfl rfl rfl rfl (by simp [State.BeforeSwap, hpc])
      (by simp [h.looping, hpc]) (by simp [h.calling, State.InFunctors, hpc])
  | pollReturns hidle hpc =>
    exact h.move hidle rfl rfl rfl rfl (by simp [State.BeforeSwap, hpc])
      (by simp [h.looping, hpc]) (by simp [h.calling, State.InFunctors, hpc])
  | handleWakeup hidle hpc =>
    exact h.move hidle rfl rfl rfl rfl (by simp [State.BeforeSwap, hpc])
      (by simp [h.looping, hpc]) (by simp [h.calling, State.InFunctors, hpc])
  | handleOther hidle hpc =>
    exact h.move hidle rfl rfl rfl rfl (by simp [State.BeforeSwap, hpc])
      (by simp [h.looping, hpc]) (by simp [h.calling, State.InFunctors, hpc])
  | handleRead hidle hpc =>
    refine ⟨?_, ?_, fun hn => absurd hidle hn, .inl trivial⟩
    · simp [h.looping, hpc]
    · simp [h.calling, State.InFunctors, hpc]
  | eventReturns hidle hpc =>
    exact h.move hidle rfl rfl rfl rfl (by simp [State.BeforeSwap, hpc])
      (by simp [h.looping, hpc]) (by simp [h.calling, State.InFunctors, hpc])
  | eventsDone hidle hpc =>
    exact h.move hidle rfl rfl rfl rfl (by simp [State.BeforeSwap, hpc])
      (by simp [h.looping, hpc]) (by simp [State.InFunctors])
  | swap hidle hpc =>
    refine ⟨?_, ?_, fun hn => absurd hidle hn, .inr (.inl rfl)⟩
    · simp [h.looping, hpc]
    · simp [h.calling, State.InFunctors, hpc]
  | callFunctor hidle hpc =>
    exact h.move hidle rfl rfl rfl rfl (by simp [State.BeforeSwap, hpc])
      (by simp [h.looping, hpc]) (by simp [h.calling, State.InFunctors, hpc])
  | functorReturns hidle hpc =>
    exact h.move hidle rfl rfl rfl rfl (by simp [State.BeforeSwap, hpc])
      (by simp [h.looping, hpc]) (by simp [h.calling, State.InFunctors, hpc])
  | functorsDone hidle hpc =>
    exact h.move hidle rfl rfl rfl rfl (by simp [State.BeforeSwap, hpc])
      (by simp [h.looping, hpc]) (by simp [State.InFunctors])

theorem run {as : List (Action φ)} (h : Awake s) (hq : (machine φ).StepsMeet QueuesInLoop s as)
    (hr : (machine φ).run s as = some s') : Awake s' := by
  have hk : (machine φ).Keeps QueuesInLoop Awake :=
    fun _ _ _ hi hq he hs => hi.effect hq (step_effect he hs)
  exact hk.run h hq hr

end Awake

/-- **No lost wakeup**: if the loop thread never calls `queueInLoop` outside `loop()`, a
`poll` entered with functors pending finds the eventfd readable, or a thread is about to
make it so. -/
theorem poll_no_lost_wakeup (tid : Tid) (as : List (Action φ)) (s : State φ)
    (hq : (machine φ).StepsMeet QueuesInLoop (init tid) as)
    (h : (machine φ).run (init tid) as = some s) (hpc : s.pc = .poll)
    (hp : s.pendingFunctors ≠ []) : 0 < s.wakeupFd ∨ ∃ t, s.WillWake t := by
  rcases ((Awake.init tid).run hq h).awake with hb | he | hw
  · simp [State.BeforeSwap, hpc] at hb
  · exact absurd he hp
  · exact hw

/-- Thread 2 has pushed functor 7 and is about to write the eventfd. -/
theorem poll_no_lost_wakeup_foreign :
    ∃ s : State Nat, (machine Nat).run (init 1) [.loop 1, .queueInLoop 2 7, .testQuit] = some s ∧
      s.pendingFunctors = [7] ∧ (0 < s.wakeupFd ∨ ∃ t, s.WillWake t) := by
  refine ⟨_, rfl, rfl, poll_no_lost_wakeup 1 [.loop 1, .queueInLoop 2 7, .testQuit] _ ?_ rfl rfl
    (by simp [State.queueInLoop, init])⟩
  decide

/-- Functor 7 is queued in the loop thread before `loop()`: the first `poll` blocks with it
pending, the eventfd at zero and no thread in any call. -/
theorem queueInLoop_outside_loop_sleeps :
    ∃ s : State Nat,
      (machine Nat).run (init 1) [.queueInLoop 1 7, .testWakeup 1, .loop 1, .testQuit] = some s ∧
      s.pc = .poll ∧ s.pendingFunctors = [7] ∧ s.wakeupFd = 0 ∧ ∀ t, s.calls t = .idle := by
  refine ⟨_, rfl, rfl, rfl, rfl, fun t => ?_⟩
  simp [State.testWakeup, State.queueInLoop, State.isInLoopThread, init]

end Rawmd.EventLoop
