import Rawmd.Lib.CondVar
import Rawmd.Lib.Machine
import Rawmd.Base.CircularBuffer
import Mathlib.Logic.Function.Basic

/-!
# `base/BoundedBlockingQueue.h`, `base/BlockingQueue.h`

Any threads call `put` and `take`.  A step is what a thread does with the mutex in one go: from
taking it until it waits or returns it (`put`, `take`), or, for a woken thread, from having it
again (`resumePut`, `resumeTake`).  With each comes the choice of the threads that its `notify`
wakes.  Threads that arrive may overtake woken ones.
-/

namespace Rawmd

namespace BoundedBlockingQueue

structure State (α : Type) where
  queue : CircularBuffer α
  notEmpty : CondVar Nat
  notFull : CondVar Nat
  /-- what the threads that wait for `notFull_` want to put -/
  arg : Nat → α
  /-- ghost: the items in the order of their `push_back` -/
  puts : List α
  /-- ghost: the items that `take` returned -/
  taken : List α

inductive Fault where
  | assertFailed
deriving DecidableEq

variable {α : Type} [Inhabited α]

def init (queue : CircularBuffer α) : State α := ⟨queue, .init, .init, fun _ => default, [], []⟩

namespace State

variable (s : State α)

/-- Thread `t` is in no call. -/
def idle (t : Nat) : Bool := !s.notEmpty.blocks t && !s.notFull.blocks t

/-- `put` after its loop. -/
def finishPut (x : α) (p : Nat → Bool) : Except Fault (State α) :=
  if s.queue.full then .error .assertFailed
  else .ok { s with
    queue := (s.queue.pushBack x).2
    notEmpty := s.notEmpty.notify p
    puts := s.puts ++ [x] }

/-- `put` from the test of its loop. -/
def put (t : Nat) (x : α) (p : Nat → Bool) : Except Fault (State α) :=
  if s.queue.full then
    .ok { s with notFull := s.notFull.wait t, arg := Function.update s.arg t x }
  else s.finishPut x p

/-- `take` after its loop. -/
def finishTake (p : Nat → Bool) : Except Fault (State α) :=
  if s.queue.empty then .error .assertFailed
  else .ok { s with
    queue := s.queue.popFront
    notFull := s.notFull.notify p
    taken := s.taken ++ [s.queue.front] }

/-- `take` from the test of its loop. -/
def take (t : Nat) (p : Nat → Bool) : Except Fault (State α) :=
  if s.queue.empty then .ok { s with notEmpty := s.notEmpty.wait t }
  else s.finishTake p

end State

inductive Action (α : Type) where
  | put (t : Nat) (x : α) (p : Nat → Bool)
  | resumePut (t : Nat) (p : Nat → Bool)
  | wakePut (t : Nat)
  | take (t : Nat) (p : Nat → Bool)
  | resumeTake (t : Nat) (p : Nat → Bool)
  | wakeTake (t : Nat)

def enabled (s : State α) : Action α → Bool
  | .put t _ p => s.idle t && s.notEmpty.mayNotify p
  | .resumePut t p => decide (t ∈ s.notFull.woken) && s.notEmpty.mayNotify p
  | .wakePut t => decide (t ∈ s.notFull.waiting)
  | .take t p => s.idle t && s.notFull.mayNotify p
  | .resumeTake t p => decide (t ∈ s.notEmpty.woken) && s.notFull.mayNotify p
  | .wakeTake t => decide (t ∈ s.notEmpty.waiting)

def step (s : State α) : Action α → Except Fault (State α)
  | .put t x p => s.put t x p
  | .resumePut t p => { s with notFull := s.notFull.resume t }.put t (s.arg t) p
  | .wakePut t => .ok { s with notFull := s.notFull.wake t }
  | .take t p => s.take t p
  | .resumeTake t p => { s with notEmpty := s.notEmpty.resume t }.take t p
  | .wakeTake t => .ok { s with notEmpty := s.notEmpty.wake t }

def machine (α : Type) [Inhabited α] : Machine (State α) (Action α) Fault := ⟨enabled, step⟩

/-! ## What holds in every state -/

structure Fair (s : State α) : Prop where
  order : s.taken ++ s.queue.toList = s.puts
  /-- each item has a woken consumer, if one waits -/
  items : s.notEmpty.Covers s.queue.size
  /-- each free cell has a woken producer, if one waits -/
  cells : s.notFull.Covers (s.queue.capacity - 1 - s.queue.size)

variable {s : State α} {t : Nat} {x : α} {p : Nat → Bool}

theorem Fair.init {maxSize : Nat} {queue : CircularBuffer α}
    (h : CircularBuffer.make maxSize = some queue) : Fair (init queue) where
  order := CircularBuffer.toList_make h
  items := .init _
  cells := .init _

/-- Where one more cell is covered before, a `put` keeps the invariant. -/
theorem Fair.put (horder : s.taken ++ s.queue.toList = s.puts)
    (hitems : s.notEmpty.Covers s.queue.size)
    (hcells : s.notFull.Covers (s.queue.capacity - 1 - s.queue.size - 1))
    (hp : s.notEmpty.mayNotify p = true) : ∃ s', s.put t x p = .ok s' ∧ Fair s' := by
  unfold State.put
  cases hf : s.queue.full with
  | true =>
    refine ⟨_, rfl, horder, hitems, ?_⟩
    have hsize := (CircularBuffer.full_iff s.queue).1 hf
    have hzero : s.queue.capacity - 1 - s.queue.size = 0 := by omega
    show CondVar.Covers _ (s.queue.capacity - 1 - s.queue.size)
    rw [hzero]
    exact .zero _
  | false =>
    rw [if_neg (by decide), State.finishPut, if_neg (by rw [hf]; decide)]
    have hsize := CircularBuffer.size_pushBack hf x
    refine ⟨_, rfl, ?_, ?_, ?_⟩
    · show s.taken ++ (s.queue.pushBack x).2.toList = s.puts ++ [x]
      rw [CircularBuffer.toList_pushBack hf, ← List.append_assoc, horder]
    · show (s.notEmpty.notify p).Covers (s.queue.pushBack x).2.size
      rw [hsize]
      exact hitems.notify hp
    · show s.notFull.Covers ((s.queue.pushBack x).2.capacity - 1 - (s.queue.pushBack x).2.size)
      rw [hsize, CircularBuffer.capacity_pushBack]
      exact hcells

theorem Fair.take (horder : s.taken ++ s.queue.toList = s.puts)
    (hitems : s.notEmpty.Covers (s.queue.size - 1))
    (hcells : s.notFull.Covers (s.queue.capacity - 1 - s.queue.size))
    (hp : s.notFull.mayNotify p = true) : ∃ s', s.take t p = .ok s' ∧ Fair s' := by
  unfold State.take
  cases he : s.queue.empty with
  | true =>
    refine ⟨_, rfl, horder, ?_, hcells⟩
    show CondVar.Covers _ s.queue.size
    rw [(CircularBuffer.empty_iff s.queue).1 he]
    exact .zero _
  | false =>
    rw [if_neg (by decide), State.finishTake, if_neg (by rw [he]; decide)]
    have hsize := CircularBuffer.size_popFront he
    refine ⟨_, rfl, ?_, ?_, ?_⟩
    · show s.taken ++ [s.queue.front] ++ s.queue.popFront.toList = s.puts
      rw [List.append_assoc, List.singleton_append, ← CircularBuffer.toList_popFront he]
      exact horder
    · exact hitems.mono (by show s.queue.popFront.size ≤ _; omega)
    · refine (hcells.notify hp).mono ?_
      show s.queue.popFront.capacity - 1 - s.queue.popFront.size ≤ _
      rw [CircularBuffer.capacity_popFront]
      omega

theorem Fair.safe : (machine α).Safe Fair := by
  intro s a h he
  cases a with
  | put t x p =>
    obtain ⟨-, hp⟩ := (Bool.and_eq_true ..).mp he
    exact Fair.put h.order h.items (h.cells.mono (Nat.sub_le _ _)) hp
  | resumePut t p =>
    obtain ⟨ht, hp⟩ := (Bool.and_eq_true ..).mp he
    exact Fair.put h.order h.items (h.cells.resume (of_decide_eq_true ht)) hp
  | wakePut t => exact ⟨_, rfl, h.order, h.items, h.cells.wake t⟩
  | take t p =>
    obtain ⟨-, hp⟩ := (Bool.and_eq_true ..).mp he
    exact Fair.take h.order (h.items.mono (Nat.sub_le _ _)) h.cells hp
  | resumeTake t p =>
    obtain ⟨ht, hp⟩ := (Bool.and_eq_true ..).mp he
    exact Fair.take h.order (h.items.resume (of_decide_eq_true ht)) h.cells hp
  | wakeTake t => exact ⟨_, rfl, h.order, h.items.wake t, h.cells⟩

/-! ## What is put -/

/-- The item with which a call of `put` comes. -/
def Action.item : Action α → Option α
  | .put _ x _ => some x
  | _ => none

/-- The item that a step puts. -/
def pushed (s : State α) : Action α → List α
  | .put _ x _ => if s.queue.full then [] else [x]
  | .resumePut t _ => if s.queue.full then [] else [s.arg t]
  | _ => []

/-- The items that were put, and those with which threads wait. -/
def State.offered (s : State α) : List α :=
  s.puts ++ (s.notFull.waiting ++ s.notFull.woken).map s.arg

omit [Inhabited α] in
theorem put_cases {s' : State α} (h : s.put t x p = .ok s') :
    (s.queue.full = true ∧
      s' = { s with notFull := s.notFull.wait t, arg := Function.update s.arg t x }) ∨
    (s.queue.full = false ∧ s' = { s with
      queue := (s.queue.pushBack x).2
      notEmpty := s.notEmpty.notify p
      puts := s.puts ++ [x] }) := by
  unfold State.put at h
  split at h
  · next hfull =>
    cases h
    exact .inl ⟨hfull, rfl⟩
  · next hfull =>
    rw [State.finishPut, if_neg hfull] at h
    cases h
    exact .inr ⟨Bool.not_eq_true _ ▸ hfull, rfl⟩

theorem take_cases {s' : State α} (h : s.take t p = .ok s') :
    (s.queue.empty = true ∧ s' = { s with notEmpty := s.notEmpty.wait t }) ∨
    (s.queue.empty = false ∧ s' = { s with
      queue := s.queue.popFront
      notFull := s.notFull.notify p
      taken := s.taken ++ [s.queue.front] }) := by
  unfold State.take at h
  split at h
  · next hempty =>
    cases h
    exact .inl ⟨hempty, rfl⟩
  · next hempty =>
    rw [State.finishTake, if_neg hempty] at h
    cases h
    exact .inr ⟨Bool.not_eq_true _ ▸ hempty, rfl⟩

theorem puts_step {a : Action α} {s' : State α} (h : step s a = .ok s') :
    s'.puts = s.puts ++ pushed s a := by
  cases a with
  | put t x p =>
    rw [pushed]
    rcases put_cases h with ⟨hf, rfl⟩ | ⟨hf, rfl⟩
    · rw [if_pos hf, List.append_nil]
    · rw [if_neg (by rw [hf]; decide)]
  | resumePut t p =>
    rw [pushed]
    rcases put_cases h with ⟨hf, rfl⟩ | ⟨hf, rfl⟩
    · rw [if_pos hf, List.append_nil]
    · have hf' : s.queue.full = false := hf
      rw [if_neg (by rw [hf']; decide)]
  | take t p =>
    obtain ⟨-, rfl⟩ | ⟨-, rfl⟩ := take_cases h <;> exact (List.append_nil _).symm
  | resumeTake t p =>
    obtain ⟨-, rfl⟩ | ⟨-, rfl⟩ := take_cases h <;> exact (List.append_nil _).symm
  | wakePut t =>
    cases h
    exact (List.append_nil _).symm
  | wakeTake t =>
    cases h
    exact (List.append_nil _).symm

omit [Inhabited α] in
/-- A thread that comes with `x`, to the items of the others, puts it or waits with it. -/
theorem offered_put {s' : State α}
    (hothers : ∀ u ∈ s.notFull.waiting ++ s.notFull.woken,
      Function.update s.arg t x u = s.arg u)
    (h : s.put t x p = .ok s') : s'.offered.Perm (s.offered ++ [x]) := by
  rcases put_cases h with ⟨-, rfl⟩ | ⟨-, rfl⟩
  · have hperm := (CondVar.wait_perm s.notFull t).map (Function.update s.arg t x)
    refine (hperm.append_left s.puts).trans ?_
    rw [List.map_append, List.map_congr_left hothers, List.map_singleton, Function.update_self,
      ← List.append_assoc]
    rfl
  · show (s.puts ++ [x] ++ (s.notFull.waiting ++ s.notFull.woken).map s.arg).Perm
      (s.puts ++ (s.notFull.waiting ++ s.notFull.woken).map s.arg ++ [x])
    rw [List.append_assoc, List.append_assoc]
    exact List.perm_append_comm.append_left _

omit [Inhabited α] in
theorem offered_congr {s' : State α} (hputs : s'.puts = s.puts) (harg : s'.arg = s.arg)
    (hwaits : (s'.notFull.waiting ++ s'.notFull.woken).Perm
      (s.notFull.waiting ++ s.notFull.woken)) : s'.offered.Perm s.offered := by
  unfold State.offered
  rw [hputs, harg]
  exact (hwaits.map _).append_left _

theorem offered_take {s' : State α} (h : s.take t p = .ok s') : s'.offered.Perm s.offered := by
  rcases take_cases h with ⟨-, rfl⟩ | ⟨-, rfl⟩
  · exact List.Perm.refl _
  · exact offered_congr rfl rfl (CondVar.notify_perm s.notFull p)

omit [Inhabited α] in
/-- A thread that is back from its `wait` no longer waits with its item. -/
theorem offered_resume (ht : t ∈ s.notFull.woken) :
    (State.offered { s with notFull := s.notFull.resume t } ++ [s.arg t]).Perm s.offered := by
  have hperm := ((CondVar.resume_perm ht).map s.arg).append_left s.puts
  rw [List.map_append, List.map_singleton, ← List.append_assoc] at hperm
  exact hperm

theorem offered_step {a : Action α} {s' : State α} (he : enabled s a = true)
    (h : step s a = .ok s') : s'.offered.Perm (s.offered ++ a.item.toList) := by
  cases a with
  | put t x p =>
    have hidle := ((Bool.and_eq_true ..).mp he).1
    simp only [State.idle, Bool.and_eq_true, Bool.not_eq_true'] at hidle
    refine offered_put (fun u hu => Function.update_of_ne ?_ x s.arg) h
    rintro rfl
    exact CondVar.blocks_eq_false_iff.1 hidle.2 hu
  | resumePut t p =>
    have ht := of_decide_eq_true ((Bool.and_eq_true ..).mp he).1
    show s'.offered.Perm (s.offered ++ [])
    rw [List.append_nil]
    refine List.Perm.trans ?_ (offered_resume ht)
    exact offered_put (fun u _ => by rw [Function.update_eq_self]) h
  | wakePut t =>
    cases h
    refine List.Perm.trans ?_ (List.Perm.of_eq (List.append_nil _).symm)
    exact offered_congr rfl rfl (CondVar.wake_perm (of_decide_eq_true he))
  | take t p =>
    refine List.Perm.trans ?_ (List.Perm.of_eq (List.append_nil _).symm)
    exact offered_take h
  | resumeTake t p =>
    refine List.Perm.trans ?_ (List.Perm.of_eq (List.append_nil _).symm)
    have hperm := offered_take (s := { s with notEmpty := s.notEmpty.resume t }) h
    exact hperm
  | wakeTake t =>
    cases h
    refine List.Perm.trans ?_ (List.Perm.of_eq (List.append_nil _).symm)
    exact List.Perm.refl _

theorem puts_run {queue : CircularBuffer α} {as : List (Action α)}
    (hr : (machine α).run (init queue) as = some s) :
    s.puts = (machine α).history pushed (init queue) as := by
  have hstep : ∀ (s : State α) (l : List α) a s', s.puts = l → enabled s a = true →
      step s a = .ok s' → s'.puts = l ++ pushed s a := by
    rintro s l a s' rfl - hs
    exact puts_step hs
  exact Machine.run_history (I := fun s l => s.puts = l) (l := []) hstep rfl hr

theorem offered_run {queue : CircularBuffer α} {as : List (Action α)}
    (hr : (machine α).run (init queue) as = some s) :
    s.offered.Perm (as.filterMap Action.item) := by
  have hstep : ∀ (s : State α) (l : List α) a s', s.offered.Perm l → enabled s a = true →
      step s a = .ok s' → s'.offered.Perm (l ++ a.item.toList) :=
    fun s l a s' hl he hs => (offered_step he hs).trans (hl.append_right _)
  exact Machine.run_filterMap (I := fun s l => s.offered.Perm l) (l := []) hstep (.refl _) hr

end BoundedBlockingQueue

namespace BlockingQueue

structure State (α : Type) where
  /-- `std::deque<T>` -/
  queue : List α
  notEmpty : CondVar Nat
  /-- ghost: the items in the order of their `push_back` -/
  puts : List α
  /-- ghost: the items that `take` returned -/
  taken : List α

inductive Fault where
  | assertFailed
deriving DecidableEq

variable {α : Type}

def init : State α := ⟨[], .init, [], []⟩

namespace State

variable (s : State α)

def put (x : α) (p : Nat → Bool) : State α :=
  { s with queue := s.queue ++ [x], notEmpty := s.notEmpty.notify p, puts := s.puts ++ [x] }

/-- `take` after its loop. -/
def finishTake : Except Fault (State α) :=
  match s.queue with
  | [] => .error .assertFailed
  | front :: rest => .ok { s with queue := rest, taken := s.taken ++ [front] }

/-- `take` from the test of its loop. -/
def take (t : Nat) : Except Fault (State α) :=
  if s.queue.isEmpty then .ok { s with notEmpty := s.notEmpty.wait t }
  else s.finishTake

end State

inductive Action (α : Type) where
  | put (t : Nat) (x : α) (p : Nat → Bool)
  | take (t : Nat)
  | resumeTake (t : Nat)
  | wakeTake (t : Nat)

def enabled (s : State α) : Action α → Bool
  | .put t _ p => !s.notEmpty.blocks t && s.notEmpty.mayNotify p
  | .take t => !s.notEmpty.blocks t
  | .resumeTake t => decide (t ∈ s.notEmpty.woken)
  | .wakeTake t => decide (t ∈ s.notEmpty.waiting)

def step (s : State α) : Action α → Except Fault (State α)
  | .put _ x p => .ok (s.put x p)
  | .take t => s.take t
  | .resumeTake t => { s with notEmpty := s.notEmpty.resume t }.take t
  | .wakeTake t => .ok { s with notEmpty := s.notEmpty.wake t }

def machine (α : Type) : Machine (State α) (Action α) Fault := ⟨enabled, step⟩

structure Fair (s : State α) : Prop where
  order : s.taken ++ s.queue = s.puts
  items : s.notEmpty.Covers s.queue.length

variable {s : State α} {t : Nat}

theorem Fair.take (horder : s.taken ++ s.queue = s.puts)
    (hitems : s.notEmpty.Covers (s.queue.length - 1)) : ∃ s', s.take t = .ok s' ∧ Fair s' := by
  unfold State.take State.finishTake
  cases hq : s.queue with
  | nil =>
    rw [hq] at horder
    exact ⟨_, rfl, horder, .zero _⟩
  | cons front rest =>
    rw [hq] at horder hitems
    refine ⟨_, rfl, ?_, hitems⟩
    show s.taken ++ [front] ++ rest = s.puts
    rw [List.append_assoc]
    exact horder

theorem Fair.safe : (machine α).Safe Fair := by
  intro s a h he
  cases a with
  | put t x p =>
    obtain ⟨-, hp⟩ := (Bool.and_eq_true ..).mp he
    refine ⟨_, rfl, ?_, ?_⟩
    · show s.taken ++ (s.queue ++ [x]) = s.puts ++ [x]
      rw [← List.append_assoc, h.order]
    · show (s.notEmpty.notify p).Covers (s.queue ++ [x]).length
      rw [List.length_append]
      exact h.items.notify hp
  | take t => exact Fair.take h.order (h.items.mono (Nat.sub_le _ _))
  | resumeTake t => exact Fair.take h.order (h.items.resume (of_decide_eq_true he))
  | wakeTake t => exact ⟨_, rfl, h.order, h.items.wake t⟩

/-- The item with which a call of `put` comes. -/
def Action.item : Action α → Option α
  | .put _ x _ => some x
  | _ => none

theorem puts_take {s' : State α} (h : s.take t = .ok s') : s'.puts = s.puts := by
  unfold State.take State.finishTake at h
  cases hq : s.queue with
  | nil =>
    rw [hq] at h
    cases h
    rfl
  | cons front rest =>
    rw [hq] at h
    cases h
    rfl

theorem puts_step {a : Action α} {s' : State α} (h : step s a = .ok s') :
    s'.puts = s.puts ++ a.item.toList := by
  cases a with
  | put t x p =>
    cases h
    rfl
  | take t => exact (puts_take h).trans (List.append_nil _).symm
  | resumeTake t => exact (puts_take h).trans (List.append_nil _).symm
  | wakeTake t =>
    cases h
    exact (List.append_nil _).symm

theorem puts_run {as : List (Action α)} (hr : (machine α).run init as = some s) :
    s.puts = as.filterMap Action.item := by
  have hstep : ∀ (s : State α) (l : List α) a s', s.puts = l → enabled s a = true →
      step s a = .ok s' → s'.puts = l ++ a.item.toList := by
    rintro s l a s' rfl - hs
    exact puts_step hs
  exact Machine.run_filterMap (I := fun s l => s.puts = l) (l := []) hstep rfl hr

end BlockingQueue

/-! ## Both queues -/

/-- **Items come out once and in the order in which they were put, no thread sleeps beside work for
it, and the asserts hold**, for both queues and any interleaving of any threads.  The items put are
those of the steps that put one; with each other item that came, its thread waits. -/
theorem blockingQueues_fair (α : Type) [Inhabited α] :
    (∀ (maxSize : Nat) (queue : CircularBuffer α) (as : List (BoundedBlockingQueue.Action α))
      (s : BoundedBlockingQueue.State α), CircularBuffer.make maxSize = some queue →
      (BoundedBlockingQueue.machine α).run (BoundedBlockingQueue.init queue) as = some s →
        s.taken ++ s.queue.toList = s.puts ∧
        s.puts = (BoundedBlockingQueue.machine α).history BoundedBlockingQueue.pushed
          (BoundedBlockingQueue.init queue) as ∧
        (s.puts ++ (s.notFull.waiting ++ s.notFull.woken).map s.arg).Perm
          (as.filterMap BoundedBlockingQueue.Action.item) ∧
        s.notEmpty.NoSleeper (!s.queue.empty) ∧ s.notFull.NoSleeper (!s.queue.full) ∧
        ∀ a, BoundedBlockingQueue.enabled s a = true →
          ∃ s', BoundedBlockingQueue.step s a = .ok s') ∧
    ∀ (as : List (BlockingQueue.Action α)) (s : BlockingQueue.State α),
      (BlockingQueue.machine α).run BlockingQueue.init as = some s →
        s.taken ++ s.queue = s.puts ∧ s.puts = as.filterMap BlockingQueue.Action.item ∧
        s.notEmpty.NoSleeper (!s.queue.isEmpty) ∧
        ∀ a, BlockingQueue.enabled s a = true → ∃ s', BlockingQueue.step s a = .ok s' := by
  constructor
  · intro maxSize queue as s hq hr
    have h := BoundedBlockingQueue.Fair.safe.run (.init hq) hr
    have hlt := CircularBuffer.size_lt s.queue
    refine ⟨h.order, BoundedBlockingQueue.puts_run hr, BoundedBlockingQueue.offered_run hr,
      h.items.noSleeper fun he => ?_, h.cells.noSleeper fun hf => ?_, fun a he => ?_⟩
    · have hne : s.queue.size ≠ 0 := by
        rw [ne_eq, ← CircularBuffer.empty_iff]
        simpa using he
      omega
    · have hne : s.queue.size + 1 ≠ s.queue.capacity := by
        rw [ne_eq, ← CircularBuffer.full_iff]
        simpa using hf
      omega
    · obtain ⟨s', hs', -⟩ := BoundedBlockingQueue.Fair.safe s a h he
      exact ⟨s', hs'⟩
  · intro as s hr
    have h := BlockingQueue.Fair.safe.run ⟨rfl, .init _⟩ hr
    refine ⟨h.order, BlockingQueue.puts_run hr, h.items.noSleeper fun he => ?_, fun a he => ?_⟩
    · exact List.length_pos_of_ne_nil (by simpa using he)
    · obtain ⟨s', hs', -⟩ := BlockingQueue.Fair.safe s a h he
      exact ⟨s', hs'⟩

/-- Capacity 2 holds one item: thread 2 waits with the item 8, is woken by the `take` of thread 3
and overtaken by thread 4. -/
def overtaken : List (BoundedBlockingQueue.Action Nat) :=
  [.put 1 7 fun _ => true, .put 2 8 fun _ => true, .take 3 fun _ => true, .put 4 9 fun _ => true,
    .resumePut 2 fun _ => true, .take 3 fun _ => true]

/-- Threads 1 and 2 wait; thread 1 wakes up spuriously and waits again, and thread 2 is notified. -/
def wokenTwice : List (BlockingQueue.Action Nat) :=
  [.take 1, .take 2, .wakeTake 1, .resumeTake 1, .put 3 7 (· == 2), .put 3 8 fun _ => true,
    .resumeTake 1]

theorem overtaken_fair :
    (∃ queue s, CircularBuffer.make 2 = some queue ∧
      (BoundedBlockingQueue.machine Nat).run (BoundedBlockingQueue.init queue) overtaken = some s ∧
      s.taken = [7, 9] ∧ s.notFull.woken = [2] ∧ s.taken ++ s.queue.toList = s.puts ∧
      (s.puts ++ (s.notFull.waiting ++ s.notFull.woken).map s.arg).Perm [7, 8, 9]) ∧
    ∃ s, (BlockingQueue.machine Nat).run BlockingQueue.init wokenTwice = some s ∧
      s.taken = [7] ∧ s.notEmpty.woken = [2] ∧ s.taken ++ s.queue = s.puts ∧ s.puts = [7, 8] := by
  have hbounded := (blockingQueues_fair Nat).1 2 _ overtaken _ rfl rfl
  have hunbounded := (blockingQueues_fair Nat).2 wokenTwice _ rfl
  exact ⟨⟨_, _, rfl, rfl, rfl, rfl, hbounded.1, hbounded.2.2.1⟩, _, rfl, rfl, rfl, hunbounded.1,
    hunbounded.2.1⟩

end Rawmd
