import Rawmd.Lib.Machine
import Mathlib.Logic.Function.Basic

/-!
# `base/Mutex.h`, `base/Condition.h`

Any threads use one `MutexLock` and conditions tied to it.  Each access to `holder_` is a step of
its own, and so is each time the pthread mutex changes hands.  `pthread_cond_wait` gives the mutex
back without touching `holder_`, and returns with it at any time: after a notify, at the timeout of
`waitForSeconds`, or on its own.

    StatesMeet Accurate ↔ only the thread that locked last returns from wait
                                                                  (holder_accurate_iff)
-/

namespace Rawmd

/-- Thread ids are positive. -/
@[ext]
structure Thread where
  tid : Nat
  tid_pos : 0 < tid
deriving DecidableEq

namespace MutexLock

/-- Where a thread is. -/
inductive Place where
  | outside
  /-- in `lock`, without the mutex -/
  | locking
  /-- in `lock`, with the mutex, before `holder_` is set -/
  | locked
  /-- in `unlock`, after `holder_` is cleared -/
  | unlocking
  /-- in `wait` or `waitForSeconds`, without the mutex -/
  | waiting
deriving DecidableEq, Repr

structure State where
  /-- who has the pthread mutex -/
  owner : Option Thread
  holder : Nat
  place : Thread → Place
  /-- ghost: the thread whose `lock` returned last -/
  lastLock : Option Thread

inductive Fault where
  | assertFailed
deriving DecidableEq, Repr

def init : State := ⟨none, 0, fun _ => .outside, none⟩

namespace State

variable (s : State)

def isLockedByThisThread (t : Thread) : Bool := s.holder == t.tid

def assertLocked (t : Thread) : Except Fault Unit :=
  if s.isLockedByThisThread t then .ok () else .error .assertFailed

/-- The places when `t` goes to `p`. -/
def move (t : Thread) (p : Place) : Thread → Place := Function.update s.place t p

end State

inductive Action where
  | lock (t : Thread)
  /-- `pthread_mutex_lock` returns -/
  | acquire (t : Thread)
  /-- `holder_ = CurrentThread::tid()`, and `lock` returns -/
  | setHolder (t : Thread)
  /-- `unlock` is called, `holder_ = 0` -/
  | clearHolder (t : Thread)
  /-- `pthread_mutex_unlock`, and `unlock` returns -/
  | release (t : Thread)
  /-- `pthread_cond_wait` or `pthread_cond_timedwait` is called -/
  | wait (t : Thread)
  /-- it returns -/
  | wake (t : Thread)
deriving DecidableEq

/-- `unlock` is called by the destructor of a guard and `wait` within its scope, so by a thread
that has the mutex. -/
def enabled (s : State) : Action → Bool
  | .lock t => s.place t == .outside
  | .acquire t => s.place t == .locking && s.owner == none
  | .setHolder t => s.place t == .locked
  | .clearHolder t => s.place t == .outside && s.owner == some t
  | .release t => s.place t == .unlocking
  | .wait t => s.place t == .outside && s.owner == some t
  | .wake t => s.place t == .waiting && s.owner == none

def step (s : State) : Action → Except Fault State
  | .lock t => .ok { s with place := s.move t .locking }
  | .acquire t => .ok { s with place := s.move t .locked, owner := some t }
  | .setHolder t => .ok { s with place := s.move t .outside, holder := t.tid, lastLock := some t }
  | .clearHolder t => .ok { s with place := s.move t .unlocking, holder := 0 }
  | .release t => .ok { s with place := s.move t .outside, owner := none }
  | .wait t => .ok { s with place := s.move t .waiting, owner := none }
  | .wake t => .ok { s with place := s.move t .outside, owner := some t }

def machine : Machine State Action Fault := ⟨enabled, step⟩

/-- Outside the calls, `holder_` tells each thread whether it has the mutex. -/
structure Accurate (s : State) : Prop where
  holder : ∀ t, s.place t = .outside → (s.isLockedByThisThread t = true ↔ s.owner = some t)
  asserts : ∀ t, s.place t = .outside → s.owner = some t → s.assertLocked t = .ok ()

/-- A thread that returns from `wait` was the last one to lock. -/
def WakesLast (s : State) (a : Action) (_ : State) : Prop :=
  match a with
  | .wake t => s.lastLock = some t
  | _ => True

instance : ∀ s a s', Decidable (WakesLast s a s')
  | s, .wake t, _ => inferInstanceAs (Decidable (s.lastLock = some t))
  | _, .lock _, _ | _, .acquire _, _ | _, .setHolder _, _ | _, .clearHolder _, _
  | _, .release _, _ | _, .wait _, _ => isTrue trivial

/-! ## Lemmas -/

theorem accurate_iff (s : State) :
    Accurate s ↔ ∀ t, s.place t = .outside → (s.holder = t.tid ↔ s.owner = some t) := by
  constructor
  · intro h t ht
    rw [← h.holder t ht, State.isLockedByThisThread, beq_iff_eq]
  · intro h
    constructor
    · intro t ht
      rw [← h t ht, State.isLockedByThisThread, beq_iff_eq]
    · intro t ht howner
      have hholder := (h t ht).2 howner
      rw [State.assertLocked, State.isLockedByThisThread, hholder, beq_self_eq_true, if_pos rfl]

variable {s s' : State} {a : Action} {t u : Thread} {p q : Place}

theorem move_cases (h : s.move t p u = q) : (u = t ∧ p = q) ∨ (u ≠ t ∧ s.place u = q) := by
  unfold State.move at h
  by_cases hu : u = t
  · subst hu
    rw [Function.update_self] at h
    exact .inl ⟨rfl, h⟩
  · rw [Function.update_of_ne hu] at h
    exact .inr ⟨hu, h⟩

/-- The mutex is free or with `t`. -/
def OnlyOwner (s : State) (t : Thread) : Prop := ∀ u, s.owner = some u → u = t

theorem onlyOwner_none (h : s.owner = none) : OnlyOwner s t := by
  intro u hu
  rw [h] at hu
  cases hu

theorem onlyOwner_some (h : s.owner = some t) : OnlyOwner s t := by
  intro u hu
  rw [h] at hu
  cases hu
  rfl

/-! ## Accurate states -/

/-- If the mutex is with no other thread before and after a step of `t`, only `t` may be told
something wrong. -/
theorem accurate_moved (hs : Accurate s) (hplace : s'.place = s.move t p)
    (hbefore : OnlyOwner s t) (hafter : OnlyOwner s' t)
    (hholder : s'.holder = s.holder ∨ s'.holder = t.tid ∨ s'.holder = 0) :
    Accurate s' ↔ (p = .outside → (s'.holder = t.tid ↔ s'.owner = some t)) := by
  rw [accurate_iff] at hs ⊢
  constructor
  · intro h hp
    refine h t ?_
    rw [hplace, hp]
    exact Function.update_self ..
  · intro h u hu
    rw [hplace] at hu
    obtain ⟨rfl, hp⟩ | ⟨hne, hu⟩ := move_cases hu
    · exact h hp
    · have hnot : s.holder ≠ u.tid := fun hu' => hne (hbefore u ((hs u hu).1 hu'))
      refine iff_of_false ?_ (fun howner => hne (hafter u howner))
      intro heq
      rcases hholder with hsame | hset | hcleared
      · exact hnot (hsame.symm.trans heq)
      · exact hne (Thread.ext (heq.symm.trans hset))
      · have := u.tid_pos
        omega

/-- What holds between accurate states. -/
structure Tracks (s : State) : Prop where
  locked : ∀ t, s.place t = .locked → s.owner = some t
  unlocking : ∀ t, s.place t = .unlocking → s.owner = some t ∧ s.holder = 0
  lastLock : ∀ t, s.holder = t.tid → s.lastLock = some t
  waiting : ∀ t, s.place t = .waiting → s.lastLock = some t → s.holder = t.tid

theorem Tracks.init : Tracks init where
  locked _ := nofun
  unlocking _ := nofun
  lastLock t h := absurd h (Nat.ne_of_lt t.tid_pos)
  waiting _ := nofun

/-- While the mutex is with no other thread, no other one is amid `lock` or `unlock`. -/
theorem Tracks.moved (hs : Tracks s) (hplace : s'.place = s.move t p)
    (hbefore : OnlyOwner s t) (hlocked : p = .locked → s'.owner = some t)
    (hunlocking : p = .unlocking → s'.owner = some t ∧ s'.holder = 0)
    (hlast : ∀ u, s'.holder = u.tid → s'.lastLock = some u)
    (hwaiting : p = .waiting → s'.lastLock = some t → s'.holder = t.tid)
    (hothers : ∀ u, u ≠ t → s'.lastLock = some u →
      s'.lastLock = s.lastLock ∧ s'.holder = s.holder) :
    Tracks s' where
  locked u hu := by
    rw [hplace] at hu
    obtain ⟨rfl, hp⟩ | ⟨hne, hu⟩ := move_cases hu
    · exact hlocked hp
    · exact absurd (hbefore u (hs.locked u hu)) hne
  unlocking u hu := by
    rw [hplace] at hu
    obtain ⟨rfl, hp⟩ | ⟨hne, hu⟩ := move_cases hu
    · exact hunlocking hp
    · exact absurd (hbefore u (hs.unlocking u hu).1) hne
  lastLock := hlast
  waiting u hu hlock := by
    rw [hplace] at hu
    obtain ⟨rfl, hp⟩ | ⟨hne, hu⟩ := move_cases hu
    · exact hwaiting hp hlock
    · obtain ⟨hsame, hholder⟩ := hothers u hne hlock
      rw [hholder]
      exact hs.waiting u hu (hsame.symm.trans hlock)

/-! ## Steps -/

/-- The only step beside a thread that has the mutex changes nothing but a place. -/
theorem Tracks.lock (hs : Tracks s) (hq : Accurate s) (t : Thread) :
    Tracks { s with place := s.move t .locking } ∧
      Accurate { s with place := s.move t .locking } := by
  have hplace {u : Thread} {q : Place} (h : s.move t .locking u = q) (hne : .locking ≠ q) :
      s.place u = q := by
    obtain ⟨-, hq⟩ | ⟨-, hu⟩ := move_cases h
    · exact absurd hq hne
    · exact hu
  constructor
  · constructor
    · intro u hu
      exact hs.locked u (hplace hu (by decide))
    · intro u hu
      exact hs.unlocking u (hplace hu (by decide))
    · exact hs.lastLock
    · intro u hu
      exact hs.waiting u (hplace hu (by decide))
  · rw [accurate_iff] at hq ⊢
    intro u hu
    exact hq u (hplace hu (by decide))

theorem Tracks.step (hs : Tracks s) (hq : Accurate s) (he : enabled s a = true)
    (h : step s a = .ok s') : Tracks s' ∧ (Accurate s' ↔ WakesLast s a s') := by
  cases a with
  | lock t =>
    cases h
    obtain ⟨htracks, haccurate⟩ := hs.lock hq t
    exact ⟨htracks, iff_of_true haccurate trivial⟩
  | acquire t =>
    cases h
    simp only [enabled, Bool.and_eq_true, beq_iff_eq] at he
    have hbefore : OnlyOwner s t := onlyOwner_none he.2
    constructor
    · exact hs.moved rfl hbefore (fun _ => rfl) nofun hs.lastLock nofun (fun _ _ _ => ⟨rfl, rfl⟩)
    · refine Iff.trans (accurate_moved hq rfl hbefore (onlyOwner_some rfl) (.inl rfl)) ?_
      exact iff_of_true nofun trivial
  | setHolder t =>
    cases h
    simp only [enabled, beq_iff_eq] at he
    have howner := hs.locked t he
    have hbefore := onlyOwner_some howner
    constructor
    · refine hs.moved rfl hbefore nofun nofun ?_ nofun ?_
      · intro u hu
        exact congrArg some (Thread.ext hu)
      · intro u hne hu
        exact absurd (Option.some.inj hu).symm hne
    · refine Iff.trans (accurate_moved hq rfl hbefore hbefore (.inr (.inl rfl))) ?_
      exact iff_of_true (fun _ => iff_of_true rfl howner) trivial
  | clearHolder t =>
    cases h
    simp only [enabled, Bool.and_eq_true, beq_iff_eq] at he
    have hbefore := onlyOwner_some he.2
    have hlast := hs.lastLock t (((accurate_iff s).1 hq t he.1).2 he.2)
    constructor
    · refine hs.moved rfl hbefore nofun (fun _ => ⟨he.2, rfl⟩) ?_ nofun ?_
      · intro u hu
        exact absurd hu (Nat.ne_of_lt u.tid_pos)
      · intro u hne hu
        exact absurd (Option.some.inj (hu.symm.trans hlast)) hne
    · refine Iff.trans (accurate_moved hq rfl hbefore hbefore (.inr (.inr rfl))) ?_
      exact iff_of_true nofun trivial
  | release t =>
    cases h
    simp only [enabled, beq_iff_eq] at he
    obtain ⟨howner, hholder⟩ := hs.unlocking t he
    have hbefore := onlyOwner_some howner
    have hne : s.holder ≠ t.tid := by
      rw [hholder]
      exact Nat.ne_of_lt t.tid_pos
    constructor
    · exact hs.moved rfl hbefore nofun nofun hs.lastLock nofun (fun _ _ _ => ⟨rfl, rfl⟩)
    · refine Iff.trans (accurate_moved hq rfl hbefore (onlyOwner_none rfl) (.inl rfl)) ?_
      exact iff_of_true (fun _ => iff_of_false hne nofun) trivial
  | wait t =>
    cases h
    simp only [enabled, Bool.and_eq_true, beq_iff_eq] at he
    have hbefore := onlyOwner_some he.2
    have hholder := ((accurate_iff s).1 hq t he.1).2 he.2
    constructor
    · exact hs.moved rfl hbefore nofun nofun hs.lastLock (fun _ _ => hholder)
        (fun _ _ _ => ⟨rfl, rfl⟩)
    · refine Iff.trans (accurate_moved hq rfl hbefore (onlyOwner_none rfl) (.inl rfl)) ?_
      exact iff_of_true nofun trivial
  | wake t =>
    cases h
    simp only [enabled, Bool.and_eq_true, beq_iff_eq] at he
    have hbefore : OnlyOwner s t := onlyOwner_none he.2
    constructor
    · exact hs.moved rfl hbefore nofun nofun hs.lastLock nofun (fun _ _ _ => ⟨rfl, rfl⟩)
    · refine Iff.trans (accurate_moved hq rfl hbefore (onlyOwner_some rfl) (.inl rfl)) ?_
      constructor
      · intro h
        exact hs.lastLock t ((h rfl).2 rfl)
      · intro hlast _
        exact iff_of_true (hs.waiting t he.1 hlast) rfl

/-! ## Runs -/

/-- **`holder_` is right as long as no other thread locks while one waits.** -/
theorem holder_accurate_iff (as : List Action) (hr : machine.run init as = some s) :
    machine.StatesMeet Accurate init as ↔ machine.StepsMeet WakesLast init as := by
  have hinit : Accurate init := by
    refine (accurate_iff init).2 fun t _ => ?_
    exact iff_of_false (Nat.ne_of_lt t.tid_pos) nofun
  exact Machine.statesMeet_iff_stepsMeet
    (fun _ _ _ hs hq _ he h => (Tracks.step hs hq he h).1)
    (fun _ _ _ hs hq he h => (Tracks.step hs hq he h).2) Tracks.init hinit hr

def first : Thread := ⟨1, by decide⟩

def second : Thread := ⟨2, by decide⟩

def waitAlone : List Action :=
  [.lock first, .acquire first, .setHolder first, .wait first, .wake first]

theorem waitAlone_accurate :
    ∃ s, machine.run init waitAlone = some s ∧ machine.StatesMeet Accurate init waitAlone := by
  refine ⟨_, rfl, (holder_accurate_iff waitAlone rfl).2 ?_⟩
  decide

/-- The second thread locks and unlocks while the first one waits. -/
def lockedMeanwhile : List Action :=
  [.lock first, .acquire first, .setHolder first, .wait first, .lock second, .acquire second,
    .setHolder second, .clearHolder second, .release second, .wake first]

theorem lockedMeanwhile_inaccurate :
    ∃ s, machine.run init lockedMeanwhile = some s ∧ s.place first = .outside ∧
      s.owner = some first ∧ s.isLockedByThisThread first = false ∧
      s.assertLocked first = .error .assertFailed ∧ ¬ Accurate s := by
  refine ⟨_, rfl, rfl, rfl, rfl, rfl, fun h => ?_⟩
  cases h.asserts first rfl rfl

end MutexLock

end Rawmd
