import Rawmd.Net.EventLoopFunctors

/-!
# `net/EventLoopThread.cpp`: an event loop on the stack of its own thread

`owner` is the thread that calls `startLoop` and destroys the object, `thread_` runs
`threadFunc`.  `loop_` is null or points to the loop on the stack of `threadFunc`, which is gone
once that function has returned.  Every other thread, and the init callback, may call the
functions of the loop while it exists (`loopAction`).
-/

namespace Rawmd.EventLoopThread

/-- Where the owner is. -/
inductive OwnerPc where
  /-- before `startLoop` -/
  | idle
  /-- in `startLoop`, about to take the mutex and look at `loop_` -/
  | waiting
  /-- in `cond_.wait()` -/
  | sleeping
  /-- after `startLoop` -/
  | returned
  /-- in `~EventLoopThread`, in `quit()` before its wakeup -/
  | waking
  /-- in `~EventLoopThread`, at `thread_.join()` -/
  | joining
  | joined
deriving DecidableEq

/-- Where `thread_` is. -/
inductive ThreadPc where
  | notStarted
  /-- about to construct the loop -/
  | started
  /-- in the init callback -/
  | callback
  /-- about to take the mutex and set `loop_` -/
  | publish
  /-- about to call `loop.loop()` -/
  | enter
  | looping
  | exited
deriving DecidableEq

structure State (φ : Type) where
  owner : Tid
  tid : Tid
  /-- `thread_.started()` -/
  started : Bool
  /-- `loop_ != NULL` -/
  loopPtr : Bool
  /-- the loop on the stack of `threadFunc` -/
  loop : Option (EventLoop.State φ)
  ownerPc : OwnerPc
  threadPc : ThreadPc
  /-- whether what `startLoop` returned is not null -/
  result : Option Bool

inductive Fault where
  | assertFailed
  | nullPointer
  | dangling
  | loop (e : EventLoop.Fault)
deriving DecidableEq

variable {φ : Type}

/-- The constructor. -/
def init (owner tid : Tid) : State φ := ⟨owner, tid, false, false, none, .idle, .notStarted, none⟩

inductive Action (φ : Type) where
  | startLoop
  /-- the owner has the mutex and tests `loop_ == NULL` -/
  | testLoop
  /-- `cond_.wait()` returns without a notify -/
  | wakeSpuriously
  | construct
  | callbackReturns
  | publish
  | enterLoop
  | loopAction (a : EventLoop.Action φ)
  | threadReturns
  /-- `loop_->quit()` in the destructor, up to its wakeup -/
  | destruct
  /-- the wakeup of that `quit()` -/
  | wakeup
  | join

/-- The thread that an action of the loop belongs to, if it is a call. -/
def caller : EventLoop.Action φ → Option Tid
  | .queueInLoop t _ => some t
  | .runInLoop t _ => some t
  | .testWakeup t => some t
  | .wakeup t => some t
  | .quit t => some t
  | _ => none

/-- Calls of the loop: by the owner only between `startLoop` and the destructor, by the loop
thread outside `loop()` only in the init callback.  `loop()` itself is `enterLoop`. -/
def mayAct (s : State φ) (l : EventLoop.State φ) (a : EventLoop.Action φ) : Bool :=
  match a with
  | .loop _ => false
  | a =>
    match caller a with
    | none => true
    | some t =>
      (decide (t ≠ s.owner) || decide (s.ownerPc = .returned)) &&
        (decide (t ≠ s.tid) || decide (s.threadPc = .callback) || l.looping)

def enabled (s : State φ) : Action φ → Bool
  | .startLoop => decide (s.ownerPc = .idle)
  | .testLoop => decide (s.ownerPc = .waiting)
  | .wakeSpuriously => decide (s.ownerPc = .sleeping)
  | .construct => decide (s.threadPc = .started)
  | .callbackReturns => decide (s.threadPc = .callback)
  | .publish => decide (s.threadPc = .publish)
  | .enterLoop => decide (s.threadPc = .enter)
  | .loopAction a =>
    match s.loop with
    | some l => EventLoop.enabled l a && mayAct s l a
    | none => false
  | .threadReturns =>
    decide (s.threadPc = .looping) &&
      match s.loop with
      | some l =>
        match l.pc with
        | .outside => true
        | _ => false
      | none => false
  | .destruct =>
    (decide (s.ownerPc = .idle) || decide (s.ownerPc = .returned)) &&
      match s.loop with
      | some l => decide (l.calls s.owner = .idle)
      | none => true
  | .wakeup => decide (s.ownerPc = .waking)
  | .join => decide (s.ownerPc = .joining) && (!s.started || decide (s.threadPc = .exited))

def State.liftLoop (s : State φ) (r : Except EventLoop.Fault (EventLoop.State φ)) :
    Except Fault (State φ) :=
  match r with
  | .ok l => .ok { s with loop := some l }
  | .error e => .error (.loop e)

def step (s : State φ) : Action φ → Except Fault (State φ)
  | .startLoop =>
    if s.started then .error .assertFailed
    else .ok { s with started := true, threadPc := .started, ownerPc := .waiting }
  | .testLoop =>
    if s.loopPtr then .ok { s with ownerPc := .returned, result := some s.loopPtr }
    else .ok { s with ownerPc := .sleeping }
  | .wakeSpuriously => .ok { s with ownerPc := .waiting }
  | .construct => .ok { s with loop := some (EventLoop.init s.tid), threadPc := .callback }
  | .callbackReturns => .ok { s with threadPc := .publish }
  | .publish =>
    -- `loop_ = &loop; cond_.notify();`
    .ok { s with
      loopPtr := true
      threadPc := .enter
      ownerPc := if s.ownerPc = .sleeping then .waiting else s.ownerPc }
  | .enterLoop =>
    match s.loop with
    | some l => { s with threadPc := .looping }.liftLoop (EventLoop.step l (.loop s.tid))
    | none => .error .dangling
  | .loopAction a =>
    match s.loop with
    | some l => s.liftLoop (EventLoop.step l a)
    | none => .error .dangling
  | .threadReturns => .ok { s with loop := none, threadPc := .exited }
  | .destruct =>
    if s.loopPtr = false then .error .nullPointer
    else
      match s.loop with
      | some l =>
        .ok { s with
          loop := some (l.setQuit s.owner)
          ownerPc := if l.isInLoopThread s.owner then .joining else .waking }
      | none => .error .dangling
  | .wakeup =>
    match s.loop with
    | some l => .ok { s with loop := some (l.wakeup s.owner), ownerPc := .joining }
    | none => .error .dangling
  | .join => if s.started then .ok { s with ownerPc := .joined } else .error .assertFailed

def machine (φ : Type) : Machine (State φ) (Action φ) Fault := ⟨enabled, step⟩

/-! ## `quit()` and `loop()` -/

/-- The destructor's `quit()` has returned, and the loop thread is at `while (!quit_)` or about to
poll with `quit_ == false`. -/
def Lost (s : State φ) : Prop :=
  (s.ownerPc = .joining ∨ s.ownerPc = .joined) ∧
    ∃ l, s.loop = some l ∧ l.quit = false ∧ (l.pc = .test ∨ l.pc = .poll)

/-- The destructor is called after `loop()` has set `quit_` to false. -/
def QuitsInLoop (s : State φ) (a : Action φ) (_ : State φ) : Prop :=
  match a with
  | .destruct => s.threadPc = .looping
  | _ => True

instance (s : State φ) (a : Action φ) (s' : State φ) : Decidable (QuitsInLoop s a s') :=
  match a with
  | .destruct => inferInstanceAs (Decidable (_ = _))
  | .startLoop | .testLoop | .wakeSpuriously | .construct | .callbackReturns | .publish
  | .enterLoop | .loopAction _ | .threadReturns | .wakeup | .join => isTrue trivial

/-- The destructor is past its `quit_ = true`. -/
def State.quitting (s : State φ) : Bool :=
  decide (s.ownerPc = .waking) || decide (s.ownerPc = .joining) || decide (s.ownerPc = .joined)

structure Quits (s : State φ) : Prop where
  entered : s.quitting = true → s.threadPc = .looping ∨ s.threadPc = .exited
  quit : s.quitting = true → ∀ l, s.loop = some l → l.quit = true

/-- Only `loop()` sets `quit_` back. -/
theorem quit_kept {l l' : EventLoop.State φ} {a : EventLoop.Action φ}
    (he : EventLoop.Effect l a l') (ha : ∀ t, a ≠ .loop t) (h : l.quit = true) :
    l'.quit = true := by
  cases he <;> first | exact h | rfl | exact absurd rfl (ha _)

variable {s s' : State φ}

/-- An action of the loop that is not `loop()`. -/
theorem loopAction_ok {a : EventLoop.Action φ} (he : enabled s (.loopAction a) = true)
    (h : step s (.loopAction a) = .ok s') :
    ∃ l l', s.loop = some l ∧ EventLoop.step l a = .ok l' ∧ EventLoop.Effect l a l' ∧
      (∀ t, a ≠ .loop t) ∧ s' = { s with loop := some l' } := by
  cases hl : s.loop with
  | none =>
    simp only [step, hl] at h
    cases h
  | some l =>
    simp only [enabled, hl, Bool.and_eq_true] at he
    simp only [step, hl, State.liftLoop] at h
    split at h
    · next l' hl' =>
      cases h
      refine ⟨l, l', rfl, hl', EventLoop.step_effect he.1 hl', ?_, rfl⟩
      rintro t rfl
      exact absurd he.2 (by simp [mayAct])
    · cases h

theorem Quits.of_not (h : s.quitting = false) : Quits s where
  entered hq := absurd (h.symm.trans hq) (by decide)
  quit hq := absurd (h.symm.trans hq) (by decide)

/-- Before `loop()` the destructor has not been called. -/
theorem Quits.not_quitting (h : Quits s) (h1 : s.threadPc ≠ .looping) (h2 : s.threadPc ≠ .exited) :
    s.quitting = false := by
  cases hq : s.quitting with
  | false => rfl
  | true => exact absurd (h.entered hq) (fun hor => hor.elim h1 h2)

/-- The step `s'` of the thread before `loop()` leaves the owner where it is. -/
theorem Quits.thread (h : Quits s) (ht : s.threadPc ≠ .looping ∧ s.threadPc ≠ .exited)
    (ho : s'.quitting = s.quitting) : Quits s' :=
  .of_not (ho.trans (h.not_quitting ht.1 ht.2))

theorem Quits.step {a : Action φ} (h : Quits s) (hP : QuitsInLoop s a s')
    (he : enabled s a = true) (hs : step s a = .ok s') : Quits s' := by
  cases a with
  | startLoop =>
    simp only [EventLoopThread.step] at hs
    split at hs
    · cases hs
    · cases hs
      exact .of_not rfl
  | testLoop =>
    simp only [EventLoopThread.step] at hs
    split at hs <;> cases hs <;> exact .of_not rfl
  | wakeSpuriously =>
    cases hs
    exact .of_not rfl
  | construct =>
    cases hs
    have ht : s.threadPc = .started := of_decide_eq_true he
    exact h.thread (by simp [ht]) rfl
  | callbackReturns =>
    cases hs
    have ht : s.threadPc = .callback := of_decide_eq_true he
    exact h.thread (by simp [ht]) rfl
  | publish =>
    cases hs
    have ht : s.threadPc = .publish := of_decide_eq_true he
    refine h.thread (by simp [ht]) ?_
    simp only [State.quitting]
    split
    · next ho => simp [ho]
    · rfl
  | enterLoop =>
    have ht : s.threadPc = .enter := of_decide_eq_true he
    simp only [EventLoopThread.step, State.liftLoop] at hs
    split at hs
    · split at hs
      · cases hs
        exact h.thread (by simp [ht]) rfl
      · cases hs
    · cases hs
  | loopAction a =>
    obtain ⟨l, l', hl, -, heff, ha, rfl⟩ := loopAction_ok he hs
    refine ⟨h.entered, fun hq l'' hl'' => ?_⟩
    obtain rfl := Option.some.inj hl''
    exact quit_kept heff ha (h.quit hq l hl)
  | threadReturns =>
    cases hs
    exact ⟨fun _ => .inr rfl, fun _ l hl => nomatch hl⟩
  | destruct =>
    simp only [EventLoopThread.step] at hs
    split at hs
    · cases hs
    · split at hs
      · cases hs
        refine ⟨fun _ => .inl hP, fun _ l hl => ?_⟩
        obtain rfl := Option.some.inj hl
        rfl
      · cases hs
  | wakeup =>
    have ho : s.ownerPc = .waking := of_decide_eq_true he
    have hq : s.quitting = true := by simp [State.quitting, ho]
    simp only [EventLoopThread.step] at hs
    split at hs
    · next l hl =>
      cases hs
      refine ⟨fun _ => h.entered hq, fun _ l' hl' => ?_⟩
      obtain rfl := Option.some.inj hl'
      exact h.quit hq l hl
    · cases hs
  | join =>
    simp only [enabled, Bool.and_eq_true, decide_eq_true_eq] at he
    have hq : s.quitting = true := by simp [State.quitting, he.1]
    simp only [EventLoopThread.step] at hs
    split at hs
    · cases hs
      exact ⟨fun _ => h.entered hq, fun _ => h.quit hq⟩
    · cases hs

theorem keeps_quits : (machine φ).Keeps QuitsInLoop Quits :=
  fun _ _ _ h hP he hs => h.step hP he hs

/-- **`quit()` is not lost**, in every run in which the destructor calls it after `loop()` has been
entered. -/
theorem eventLoopThread_quit_not_lost (owner tid : Tid) (as : List (Action φ)) (s : State φ)
    (hr : (machine φ).run (init owner tid) as = some s)
    (hP : (machine φ).StepsMeet QuitsInLoop (init owner tid) as) : ¬ Lost s := by
  have h := keeps_quits.run (.of_not rfl) hP hr
  rintro ⟨ho, l, hl, hquit, -⟩
  have hq : s.quitting = true := by
    rcases ho with ho | ho <;> simp [State.quitting, ho]
  rw [h.quit hq l hl] at hquit
  cases hquit

/-- From `startLoop` until `loop_` is published and `startLoop` has returned. -/
def startRun : List (Action Nat) :=
  [.startLoop, .testLoop, .construct, .callbackReturns, .publish, .testLoop]

/-- The destructor is called while the loop thread is in `poll`. -/
def quitInPoll : List (Action Nat) :=
  startRun ++ [.enterLoop, .loopAction .testQuit, .destruct, .wakeup,
    .loopAction (.pollReturns [.wakeup]), .loopAction .handleEvent, .loopAction .handleRead,
    .loopAction .eventsDone, .loopAction .swap, .loopAction .functorsDone]

theorem quitInPoll_not_lost :
    ∃ s, (machine Nat).run (init 1 2) quitInPoll = some s ∧ s.ownerPc = .joining ∧ ¬ Lost s :=
  ⟨_, rfl, rfl, eventLoopThread_quit_not_lost 1 2 quitInPoll _ rfl (by decide)⟩

/-- The destructor is called between the publication of `loop_` and `loop()`. -/
theorem quit_before_loop_lost :
    ∃ s, (machine Nat).run (init 1 2) (startRun ++ [.destruct, .wakeup, .enterLoop]) = some s ∧
      Lost s :=
  ⟨_, rfl, .inl rfl, _, rfl, rfl, .inl rfl⟩

/-! ## The life of the loop -/

/-- `quit_` of the loop that exists. -/
def State.loopQuit (s : State φ) : Bool :=
  match s.loop with
  | some l => l.quit
  | none => false

/-- The destructor's `quit()` has returned. -/
def State.quitReturned (s : State φ) : Bool :=
  decide (s.ownerPc = .joining) || decide (s.ownerPc = .joined)

/-- The destructor is called after `startLoop` has returned, and the loop thread does not find
`quit_` set before the destructor's `quit()` has returned. -/
def orderly (s : State φ) : Action φ → Bool
  | .destruct => decide (s.ownerPc = .returned)
  | .loopAction .testQuit => !s.loopQuit || s.quitReturned
  | _ => true

def Orderly (s : State φ) (a : Action φ) (_ : State φ) : Prop := orderly s a = true

/-- `startLoop` returns a pointer that is not null and does not sleep on one; the destructor uses
`loop_` while it points to a loop that exists, and joins a thread that was started. -/
structure Valid (s : State φ) : Prop where
  result : ∀ b, s.result = some b → b = true
  awake : s.ownerPc = .sleeping → s.loopPtr = false
  quit : s.ownerPc = .returned → s.loopPtr = true ∧ s.loop.isSome = true ∧ s.started = true
  wakeup : s.ownerPc = .waking → s.loopPtr = true ∧ s.loop.isSome = true
  join : s.ownerPc = .joining → s.started = true

def ThreadPc.begun : ThreadPc → Bool
  | .notStarted => false
  | _ => true

def ThreadPc.hasLoop : ThreadPc → Bool
  | .callback | .publish | .enter | .looping => true
  | _ => false

def ThreadPc.published : ThreadPc → Bool
  | .enter | .looping | .exited => true
  | _ => false

def OwnerPc.afterStart : OwnerPc → Bool
  | .returned | .waking | .joining | .joined => true
  | _ => false

structure Live (s : State φ) : Prop where
  started : s.started = s.threadPc.begun
  loop : s.loop.isSome = s.threadPc.hasLoop
  ptr : s.loopPtr = s.threadPc.published
  idle : s.ownerPc = .idle → s.threadPc = .notStarted
  after : s.ownerPc.afterStart = true → s.threadPc.published = true
  awake : s.ownerPc = .sleeping → s.threadPc.published = false
  result : ∀ b, s.result = some b → b = true
  running : s.quitReturned = false → s.threadPc ≠ .exited ∧
    (s.threadPc = .looping → ∀ l, s.loop = some l → l.pc ≠ .outside)

namespace Live

theorem init (owner tid : Tid) : Live (init owner tid : State φ) where
  started := rfl
  loop := rfl
  ptr := rfl
  idle _ := rfl
  after h := nomatch h
  awake h := nomatch h
  result _ h := nomatch h
  running _ := ⟨nofun, nofun⟩

theorem valid (h : Live s) : Valid s := by
  have hlive : s.ownerPc = .returned ∨ s.ownerPc = .waking →
      s.loopPtr = true ∧ s.loop.isSome = true ∧ s.started = true := by
    intro ho
    have hpub : s.threadPc.published = true := by
      apply h.after
      rcases ho with ho | ho <;> rw [ho] <;> rfl
    have hrun := (h.running (by rcases ho with ho | ho <;> simp [State.quitReturned, ho])).1
    rw [h.ptr, h.loop, h.started]
    cases ht : s.threadPc <;> simp_all [ThreadPc.published, ThreadPc.hasLoop, ThreadPc.begun]
  refine ⟨h.result, fun ho => h.ptr.trans (h.awake ho), fun ho => hlive (.inl ho), fun ho => ?_,
    fun ho => ?_⟩
  · obtain ⟨hp, hl, -⟩ := hlive (.inr ho)
    exact ⟨hp, hl⟩
  · have hpub : s.threadPc.published = true := h.after (by rw [ho]; rfl)
    rw [h.started]
    cases ht : s.threadPc <;> simp_all [ThreadPc.published, ThreadPc.begun]

/-- The owner moves and the loop stays where it is in `loop()`. -/
theorem owner (h : Live s) {o : OwnerPc} {l l' : EventLoop.State φ} (hl : s.loop = some l)
    (hpc : l'.pc = l.pc) (hi : o ≠ .idle) (hs : o ≠ .sleeping) (ha : s.ownerPc.afterStart = true)
    (hq : s.quitReturned = false) : Live { s with loop := some l', ownerPc := o } := by
  refine ⟨h.started, ?_, h.ptr, fun ho => absurd ho hi, fun _ => h.after ha,
    fun ho => absurd ho hs, h.result, fun _ => ⟨(h.running hq).1, fun ht m hm => ?_⟩⟩
  · rw [← h.loop, hl]
    rfl
  · obtain rfl := Option.some.inj hm
    rw [hpc]
    exact (h.running hq).2 ht l hl

/-- An action inside `loop()` that does not leave it. -/
theorem outside_kept {l l' : EventLoop.State φ} {a : EventLoop.Action φ}
    (hs : EventLoop.step l a = .ok l') (he : EventLoop.Effect l a l') (ha : ∀ t, a ≠ .loop t)
    (hq : a = .testQuit → l.quit = false) (h : l.pc ≠ .outside) : l'.pc ≠ .outside := by
  cases he with
  | quits =>
    simp only [EventLoop.step, hq rfl] at hs
    have hpc := congrArg EventLoop.State.pc (Except.ok.inj hs)
    cases hpc
  | loop => exact absurd rfl (ha _)
  | queueInLoop => exact h
  | runHere => exact h
  | runQueued => exact h
  | testWakes => exact h
  | testSkips => exact h
  | wakeup => exact h
  | quit => exact h
  | polls | pollReturns | handleWakeup | handleOther | handleRead | eventReturns | eventsDone | swap
  | callFunctor | functorReturns | functorsDone =>
    intro hpc
    cases hpc

theorem loopAction {a : EventLoop.Action φ} (h : Live s) (hP : Orderly s (.loopAction a) s')
    (he : enabled s (.loopAction a) = true) (hs : step s (.loopAction a) = .ok s') : Live s' := by
  obtain ⟨l, l', hl, hstep, heff, ha, rfl⟩ := loopAction_ok he hs
  refine ⟨h.started, ?_, h.ptr, h.idle, h.after, h.awake, h.result,
    fun hq => ⟨(h.running hq).1, fun ht m hm => ?_⟩⟩
  · rw [← h.loop, hl]
    rfl
  · obtain rfl := Option.some.inj hm
    refine outside_kept hstep heff ha ?_ ((h.running hq).2 ht l hl)
    rintro rfl
    -- `quit_` is not set, or the destructor's `quit()` would have returned
    cases hlq : l.quit with
    | false => rfl
    | true =>
      have hloop : s.loopQuit = true := by simp [State.loopQuit, hl, hlq]
      have hq' : s.quitReturned = false := hq
      simp [Orderly, orderly, hloop, hq'] at hP

/-- The loop thread moves on; only `publish` changes what is published. -/
theorem thread (h : Live s) {pc : ThreadPc} {loop : Option (EventLoop.State φ)}
    (hb : s.threadPc.begun = true) (hb' : pc.begun = true)
    (hpub : pc.published = s.threadPc.published) (hloop : loop.isSome = pc.hasLoop)
    (hrun : s.quitReturned = false →
      pc ≠ .exited ∧ (pc = .looping → ∀ l, loop = some l → l.pc ≠ .outside)) :
    Live { s with threadPc := pc, loop := loop } := by
  refine ⟨?_, hloop, ?_, fun ho => ?_, fun ho => ?_, fun ho => ?_, h.result, hrun⟩
  · rw [h.started, hb, hb']
  · rw [h.ptr, hpub]
  · rw [h.idle ho] at hb
    cases hb
  · rw [hpub]
    exact h.after ho
  · rw [hpub]
    exact h.awake ho

/-- `loop()` starts at its test. -/
theorem not_outside_of_loop {l l' : EventLoop.State φ} {t : Tid}
    (h : EventLoop.step l (.loop t) = .ok l') : l'.pc ≠ .outside := by
  simp only [EventLoop.step] at h
  split at h
  · cases h
  · split at h
    · cases h
      intro hpc
      cases hpc
    · cases h

/-- The loop thread leaves `loop()` only after the destructor's `quit()` has returned. -/
theorem quitReturned_of_outside (h : Live s) (he : enabled s .threadReturns = true) :
    s.threadPc = .looping ∧ s.quitReturned = true := by
  simp only [enabled, Bool.and_eq_true, decide_eq_true_eq] at he
  obtain ⟨ht, hout⟩ := he
  refine ⟨ht, ?_⟩
  by_contra hq
  have hrun := (h.running (by simpa using hq)).2 ht
  cases hl : s.loop with
  | none => simp [hl] at hout
  | some l =>
    simp only [hl] at hout
    split at hout
    · next hpc => exact hrun l hl hpc
    · cases hout

theorem step {a : Action φ} (h : Live s) (hP : Orderly s a s') (he : enabled s a = true)
    (hs : step s a = .ok s') : Live s' := by
  cases a with
  | startLoop =>
    have ho : s.ownerPc = .idle := of_decide_eq_true he
    have ht := h.idle ho
    simp only [EventLoopThread.step] at hs
    split at hs
    · cases hs
    · cases hs
      refine ⟨rfl, ?_, ?_, nofun, nofun, nofun, h.result, fun _ => ⟨nofun, nofun⟩⟩
      · rw [h.loop, ht]
        rfl
      · rw [h.ptr, ht]
        rfl
  | testLoop =>
    have ho : s.ownerPc = .waiting := of_decide_eq_true he
    have hrun := h.running (by simp [State.quitReturned, ho])
    simp only [EventLoopThread.step] at hs
    split at hs
    · next hp =>
      cases hs
      refine ⟨h.started, h.loop, h.ptr, nofun, fun _ => h.ptr.symm.trans hp, nofun, ?_,
        fun _ => hrun⟩
      rintro b ⟨⟩
      exact hp
    · next hp =>
      cases hs
      refine ⟨h.started, h.loop, h.ptr, nofun, nofun, fun _ => ?_, h.result, fun _ => hrun⟩
      rw [← h.ptr]
      simpa using hp
  | wakeSpuriously =>
    have ho : s.ownerPc = .sleeping := of_decide_eq_true he
    cases hs
    exact ⟨h.started, h.loop, h.ptr, nofun, nofun, nofun, h.result,
      fun _ => h.running (by simp [State.quitReturned, ho])⟩
  | construct =>
    have ht : s.threadPc = .started := of_decide_eq_true he
    cases hs
    exact h.thread (by rw [ht]; rfl) rfl (by rw [ht]; rfl) rfl (fun _ => ⟨nofun, nofun⟩)
  | callbackReturns =>
    have ht : s.threadPc = .callback := of_decide_eq_true he
    cases hs
    exact h.thread (by rw [ht]; rfl) rfl (by rw [ht]; rfl) (by rw [h.loop, ht]; rfl)
      (fun _ => ⟨nofun, nofun⟩)
  | publish =>
    have ht : s.threadPc = .publish := of_decide_eq_true he
    cases hs
    refine ⟨?_, ?_, rfl, fun ho => ?_, fun _ => rfl, fun ho => ?_, h.result,
      fun _ => ⟨nofun, nofun⟩⟩
    · rw [h.started, ht]
      rfl
    · rw [h.loop, ht]
      rfl
    · simp only at ho
      split at ho
      · cases ho
      · exact absurd (ht.symm.trans (h.idle ho)) (by decide)
    · simp only at ho
      split at ho
      · cases ho
      · next hne => exact absurd ho hne
  | enterLoop =>
    have ht : s.threadPc = .enter := of_decide_eq_true he
    simp only [EventLoopThread.step, State.liftLoop] at hs
    split at hs
    · next l hl =>
      split at hs
      · next l' hl' =>
        cases hs
        refine h.thread (by rw [ht]; rfl) rfl (by rw [ht]; rfl) rfl
          (fun _ => ⟨nofun, fun _ m hm => ?_⟩)
        obtain rfl := Option.some.inj hm
        exact not_outside_of_loop hl'
      · cases hs
    · cases hs
  | loopAction a => exact h.loopAction hP he hs
  | threadReturns =>
    obtain ⟨ht, hq⟩ := h.quitReturned_of_outside he
    cases hs
    refine h.thread (by rw [ht]; rfl) rfl (by rw [ht]; rfl) rfl (fun hq' => ?_)
    exact absurd (hq.symm.trans hq') (by decide)
  | destruct =>
    have ho : s.ownerPc = .returned := of_decide_eq_true hP
    simp only [EventLoopThread.step] at hs
    split at hs
    · cases hs
    · split at hs
      · next l hl =>
        cases hs
        refine h.owner hl rfl ?_ ?_ (by rw [ho]; rfl) (by simp [State.quitReturned, ho])
        · split <;> decide
        · split <;> decide
      · cases hs
  | wakeup =>
    have ho : s.ownerPc = .waking := of_decide_eq_true he
    simp only [EventLoopThread.step] at hs
    split at hs
    · next l hl =>
      cases hs
      exact h.owner hl rfl nofun nofun (by rw [ho]; rfl) (by simp [State.quitReturned, ho])
    · cases hs
  | join =>
    simp only [enabled, Bool.and_eq_true, decide_eq_true_eq] at he
    simp only [EventLoopThread.step] at hs
    split at hs
    · cases hs
      exact ⟨h.started, h.loop, h.ptr, nofun, fun _ => h.after (by rw [he.1]; rfl), nofun, h.result,
        nofun⟩
    · cases hs

end Live

theorem keeps_live : (machine φ).Keeps Orderly Live :=
  fun _ _ _ h hP he hs => h.step hP he hs

/-- **`loop_` is used while it is valid**, in every run in which the destructor comes after
`startLoop` and the loop thread does not find `quit_` set before the destructor's `quit()` has
returned. -/
theorem eventLoopThread_loop_valid (owner tid : Tid) (as : List (Action φ)) (s : State φ)
    (hr : (machine φ).run (init owner tid) as = some s)
    (hP : (machine φ).StepsMeet Orderly (init owner tid) as) : Valid s :=
  (keeps_live.run (Live.init owner tid) hP hr).valid

instance (s : State φ) (a : Action φ) (s' : State φ) : Decidable (Orderly s a s') :=
  inferInstanceAs (Decidable (_ = true))

/-- The loop thread leaves `loop()` after the destructor's wakeup. -/
def quitAndJoin : List (Action Nat) :=
  quitInPoll ++ [.loopAction .testQuit, .threadReturns, .join]

theorem quitAndJoin_valid :
    ∃ s, (machine Nat).run (init 1 2) quitAndJoin = some s ∧ s.ownerPc = .joined ∧ Valid s :=
  ⟨_, rfl, rfl, eventLoopThread_loop_valid 1 2 quitAndJoin _ rfl (by decide)⟩

/-- The destructor of an object whose `startLoop` was never called. -/
theorem destruct_without_startLoop :
    (machine Nat).enabled (init 1 2) .destruct = true ∧
      (machine Nat).step (init 1 2) .destruct = .error .nullPointer :=
  ⟨rfl, rfl⟩

end Rawmd.EventLoopThread
