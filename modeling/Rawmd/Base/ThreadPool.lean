import Rawmd.Lib.CondVar
import Rawmd.Lib.Machine
import Mathlib.Data.List.Nodup
import Mathlib.Logic.Function.Basic

/-!
# `base/ThreadPool.cpp`

The pool after `start(n)`: workers `0 .. n - 1`, tasks from any threads, and one `stop()` from a
thread that is not a worker.  A task is an `std::function`, which may be empty; a worker calls
what is not (`if (task)`).  `running_` is read without the mutex in the loop of `runInThread`
and with it in `take`.  A task is known by the number of its `push_back`.
-/

namespace Rawmd.ThreadPool

/-- An `std::function<void ()>`. -/
abbrev Task (φ : Type) := Option φ

/-- Where a worker is. -/
inductive Pc (φ : Type) where
  /-- at `while (running_)` -/
  | test
  /-- at the mutex of `take` -/
  | take
  /-- in `cond_.wait()` -/
  | blocked
  /-- after `take`, with what it returned: a task of the queue, or an empty one -/
  | holding (task : Option (Nat × Task φ))
  /-- in `task()` -/
  | running (k : Nat)
  | exited

inductive StopPc where
  | notCalled
  /-- at the joins -/
  | joining
  | returned
deriving DecidableEq

structure State (φ : Type) where
  numThreads : Nat
  workers : Nat → Pc φ
  cond : CondVar Nat
  queue : List (Task φ)
  running : Bool
  stopPc : StopPc
  /-- ghost: the tasks in the order of their `push_back` -/
  pushed : List (Task φ)
  /-- ghost: the tasks in the order in which they were taken from `queue_` -/
  taken : List (Task φ)
  /-- ghost: the tasks whose worker is through with them -/
  finished : List Nat
  /-- ghost: the tasks whose execution began, and those whose execution ended -/
  begun : List Nat
  executed : List Nat

variable {φ : Type}

/-- After `start(numThreads)`. -/
def start (numThreads : Nat) : State φ :=
  ⟨numThreads, fun _ => .test, .init, [], true, .notCalled, [], [], [], [], []⟩

namespace State

variable (s : State φ)

def setWorker (w : Nat) (pc : Pc φ) : State φ :=
  { s with workers := Function.update s.workers w pc }

/-- `run`, where `cond_.notify()` wakes the chosen workers.  Without workers the caller runs the
task itself. -/
def run (task : Task φ) (p : Nat → Bool) : State φ :=
  if s.numThreads = 0 then s
  else { s with
    queue := s.queue ++ [task]
    cond := s.cond.notify p
    pushed := s.pushed ++ [task] }

/-- `take` from the test of its loop. -/
def take (w : Nat) : State φ :=
  if s.queue.isEmpty && s.running then { s.setWorker w .blocked with cond := s.cond.wait w }
  else
    match s.queue with
    | [] => s.setWorker w (.holding none)
    | front :: rest =>
      { s.setWorker w (.holding (some (s.taken.length, front))) with
        queue := rest
        taken := s.taken ++ [front] }

/-- `if (task) task();`, up to the call. -/
def callTask (w : Nat) (task : Option (Nat × Task φ)) : State φ :=
  match task with
  | some (k, some _) => { s.setWorker w (.running k) with begun := s.begun ++ [k] }
  | some (k, none) => { s.setWorker w .test with finished := s.finished ++ [k] }
  | none => s.setWorker w .test

def taskReturns (w k : Nat) : State φ :=
  { s.setWorker w .test with finished := s.finished ++ [k], executed := s.executed ++ [k] }

/-- The critical section of `stop`. -/
def stop : State φ := { s with running := false, cond := s.cond.notifyAll, stopPc := .joining }

end State

inductive Action (φ : Type) where
  | run (task : Task φ) (p : Nat → Bool)
  | testRunning (w : Nat)
  | take (w : Nat)
  | resume (w : Nat)
  | wake (w : Nat)
  | callTask (w : Nat)
  | taskReturns (w : Nat)
  | stop
  | stopReturns

def enabled (s : State φ) : Action φ → Bool
  | .run _ p => s.cond.mayNotify p
  | .testRunning w =>
    decide (w < s.numThreads) &&
      match s.workers w with
      | .test => true
      | _ => false
  | .take w =>
    decide (w < s.numThreads) &&
      match s.workers w with
      | .take => true
      | _ => false
  | .resume w =>
    decide (w < s.numThreads) && decide (w ∈ s.cond.woken) &&
      match s.workers w with
      | .blocked => true
      | _ => false
  | .wake w => decide (w ∈ s.cond.waiting)
  | .callTask w =>
    decide (w < s.numThreads) &&
      match s.workers w with
      | .holding _ => true
      | _ => false
  | .taskReturns w =>
    decide (w < s.numThreads) &&
      match s.workers w with
      | .running _ => true
      | _ => false
  | .stop => decide (s.stopPc = .notCalled)
  | .stopReturns =>
    decide (s.stopPc = .joining) &&
      (List.range s.numThreads).all fun w =>
        match s.workers w with
        | .exited => true
        | _ => false

def step (s : State φ) : Action φ → Except Empty (State φ)
  | .run task p => .ok (s.run task p)
  | .testRunning w => .ok (s.setWorker w (if s.running then .take else .exited))
  | .take w => .ok (s.take w)
  | .resume w => .ok ({ s with cond := s.cond.resume w }.take w)
  | .wake w => .ok { s with cond := s.cond.wake w }
  | .callTask w =>
    match s.workers w with
    | .holding task => .ok (s.callTask w task)
    | _ => .ok s
  | .taskReturns w =>
    match s.workers w with
    | .running k => .ok (s.taskReturns w k)
    | _ => .ok s
  | .stop => .ok s.stop
  | .stopReturns => .ok { s with stopPc := .returned }

def machine (φ : Type) : Machine (State φ) (Action φ) Empty := ⟨enabled, step⟩

/-! ## The queue and the condition -/

/-- The order of the tasks, and who sleeps. -/
structure Queued (s : State φ) : Prop where
  order : s.taken ++ s.queue = s.pushed
  covers : s.cond.Covers s.queue.length
  stopped : s.running = false → s.cond.waiting = []

theorem Queued.take {s : State φ} {w : Nat} (horder : s.taken ++ s.queue = s.pushed)
    (hcovers : s.cond.Covers (s.queue.length - 1))
    (hstopped : s.running = false → s.cond.waiting = []) : Queued (s.take w) := by
  unfold State.take
  split
  · next hc =>
    rw [Bool.and_eq_true, List.isEmpty_iff] at hc
    obtain ⟨hq, hr⟩ := hc
    refine ⟨horder, ?_, fun hr' => ?_⟩
    · show CondVar.Covers _ s.queue.length
      rw [hq]
      exact .zero _
    · exact absurd (hr.symm.trans hr') (by decide)
  · split
    · next hq =>
      refine ⟨horder, ?_, hstopped⟩
      show s.cond.Covers s.queue.length
      rw [hq]
      exact .zero _
    · next front rest hq =>
      rw [hq] at horder hcovers
      refine ⟨?_, hcovers, hstopped⟩
      show s.taken ++ [front] ++ rest = s.pushed
      rw [List.append_assoc]
      exact horder

theorem Queued.step {s s' : State φ} {a : Action φ} (h : Queued s) (he : enabled s a = true)
    (hs : step s a = .ok s') : Queued s' := by
  cases a with
  | run task p =>
    cases hs
    unfold State.run
    split
    · exact h
    · refine ⟨?_, ?_, fun hr => ?_⟩
      · show s.taken ++ (s.queue ++ [task]) = s.pushed ++ [task]
        rw [← List.append_assoc, h.order]
      · show (s.cond.notify p).Covers (s.queue ++ [task]).length
        rw [List.length_append]
        exact h.covers.notify he
      · show (s.cond.waiting.filter _) = []
        rw [h.stopped hr]
        rfl
  | testRunning w =>
    cases hs
    exact ⟨h.order, h.covers, h.stopped⟩
  | take w =>
    cases hs
    exact .take h.order (h.covers.mono (Nat.sub_le _ _)) h.stopped
  | resume w =>
    cases hs
    simp only [enabled, Bool.and_eq_true, decide_eq_true_eq] at he
    exact .take h.order (h.covers.resume he.1.2) h.stopped
  | wake w =>
    cases hs
    refine ⟨h.order, h.covers.wake w, fun hr => ?_⟩
    show s.cond.waiting.erase w = []
    rw [h.stopped hr]
    rfl
  | callTask w =>
    simp only [ThreadPool.step] at hs
    split at hs
    · cases hs
      unfold State.callTask
      split <;> exact ⟨h.order, h.covers, h.stopped⟩
    · cases hs
      exact h
  | taskReturns w =>
    simp only [ThreadPool.step] at hs
    split at hs
    · cases hs
      exact ⟨h.order, h.covers, h.stopped⟩
    · cases hs
      exact h
  | stop =>
    cases hs
    have hw := CondVar.waiting_notifyAll s.cond
    exact ⟨h.order, fun hne => absurd hw hne, fun _ => hw⟩
  | stopReturns =>
    cases hs
    exact ⟨h.order, h.covers, h.stopped⟩

/-! ## The tasks that were taken -/

/-- The first `len` tasks are each finished or with one of `n` workers, `task w` being that of
worker `w`. -/
structure Assigned (n : Nat) (task : Nat → Option Nat) (finished : List Nat) (len : Nat) :
    Prop where
  lt : ∀ w k, task w = some k → w < n ∧ k < len
  inj : ∀ v w k, task v = some k → task w = some k → v = w
  apart : ∀ w k, task w = some k → k ∉ finished
  cover : ∀ k < len, k ∈ finished ∨ ∃ w, task w = some k
  finished_lt : ∀ k ∈ finished, k < len

namespace Assigned

variable {n len w k : Nat} {task : Nat → Option Nat} {finished : List Nat}

/-- Worker `w` gets the next task. -/
theorem grab (h : Assigned n task finished len) (hw : task w = none) (hlt : w < n) :
    Assigned n (Function.update task w (some len)) finished (len + 1) := by
  have hold : ∀ {v k}, Function.update task w (some len) v = some k → v ≠ w → task v = some k := by
    intro v k hv hne
    rwa [Function.update_of_ne hne] at hv
  have hnew : ∀ {k}, Function.update task w (some len) w = some k → k = len := by
    intro k hk
    rw [Function.update_self] at hk
    exact (Option.some.inj hk).symm
  refine ⟨fun v k hv => ?_, fun u v k hu hv => ?_, fun v k hv hk => ?_, fun k hk => ?_,
    fun k hk => Nat.lt_succ_of_lt (h.finished_lt k hk)⟩
  · by_cases hvw : v = w
    · subst hvw
      rw [hnew hv]
      exact ⟨hlt, Nat.lt_succ_self len⟩
    · obtain ⟨h1, h2⟩ := h.lt v k (hold hv hvw)
      exact ⟨h1, Nat.lt_succ_of_lt h2⟩
  · by_cases huw : u = w
    · by_cases hvw : v = w
      · rw [huw, hvw]
      · have := (h.lt v k (hold hv hvw)).2
        subst huw
        rw [hnew hu] at this
        exact absurd this (Nat.lt_irrefl _)
    · by_cases hvw : v = w
      · have := (h.lt u k (hold hu huw)).2
        subst hvw
        rw [hnew hv] at this
        exact absurd this (Nat.lt_irrefl _)
      · exact h.inj u v k (hold hu huw) (hold hv hvw)
  · by_cases hvw : v = w
    · subst hvw
      rw [hnew hv] at hk
      exact absurd (h.finished_lt len hk) (Nat.lt_irrefl _)
    · exact h.apart v k (hold hv hvw) hk
  · rcases Nat.lt_succ_iff_lt_or_eq.1 hk with hk | rfl
    · refine (h.cover k hk).imp_right ?_
      rintro ⟨v, hv⟩
      refine ⟨v, ?_⟩
      rw [Function.update_of_ne, hv]
      rintro rfl
      rw [hw] at hv
      cases hv
    · exact .inr ⟨w, Function.update_self ..⟩

/-- Worker `w` is through with its task. -/
theorem finish (h : Assigned n task finished len) (hw : task w = some k) :
    Assigned n (Function.update task w none) (finished ++ [k]) len := by
  have hold : ∀ {v j}, Function.update task w none v = some j → v ≠ w ∧ task v = some j := by
    intro v j hv
    have hne : v ≠ w := by
      rintro rfl
      rw [Function.update_self] at hv
      cases hv
    rw [Function.update_of_ne hne] at hv
    exact ⟨hne, hv⟩
  refine ⟨fun v j hv => h.lt v j (hold hv).2,
    fun u v j hu hv => h.inj u v j (hold hu).2 (hold hv).2, fun v j hv hj => ?_, fun j hj => ?_,
    fun j hj => ?_⟩
  · obtain ⟨hne, hv⟩ := hold hv
    rcases List.mem_append.1 hj with hj | hj
    · exact h.apart v j hv hj
    · rw [List.mem_singleton] at hj
      subst hj
      exact hne (h.inj v w j hv hw)
  · rcases h.cover j hj with hj | ⟨v, hv⟩
    · exact .inl (List.mem_append_left _ hj)
    · by_cases hvw : v = w
      · subst hvw
        rw [hw] at hv
        cases hv
        exact .inl (List.mem_append_right _ (List.mem_singleton_self k))
      · exact .inr ⟨v, (Function.update_of_ne hvw _ _).trans hv⟩
  · rcases List.mem_append.1 hj with hj | hj
    · exact h.finished_lt j hj
    · rw [List.mem_singleton.1 hj]
      exact (h.lt w k hw).2

end Assigned

/-- The task that a worker at `pc` has. -/
def Pc.task : Pc φ → Option Nat
  | .holding (some (k, _)) => some k
  | .running k => some k
  | _ => none

def State.task (s : State φ) (w : Nat) : Option Nat := (s.workers w).task

theorem task_setWorker (s : State φ) (w : Nat) (pc : Pc φ) :
    (s.setWorker w pc).task = Function.update s.task w pc.task := by
  funext v
  show (Function.update s.workers w pc v).task = _
  rw [Function.update_apply, Function.update_apply]
  split <;> rfl

structure Handed (s : State φ) : Prop where
  assigned : Assigned s.numThreads s.task s.finished s.taken.length
  held : ∀ w k task, s.workers w = .holding (some (k, task)) → s.taken[k]? = some task
  begun : ∀ k ∈ s.begun, k ∈ s.executed ∨ ∃ w, s.workers w = .running k
  begunNodup : s.begun.Nodup
  executed : ∀ k ∈ s.executed, k ∈ s.finished
  executedNodup : s.executed.Nodup
  /-- what is finished without being executed was empty -/
  skipped : ∀ k ∈ s.finished, k ∈ s.executed ∨ s.taken[k]? = some none

namespace Handed

variable {s : State φ} {w k : Nat} {pc : Pc φ}

theorem start (numThreads : Nat) : Handed (start numThreads : State φ) where
  assigned := ⟨nofun, nofun, nofun, fun _ h => absurd h (Nat.not_lt_zero _), nofun⟩
  held := nofun
  begun := nofun
  begunNodup := .nil
  executed := nofun
  executedNodup := .nil
  skipped := nofun

/-- The other workers stay where they are. -/
theorem setWorker_ne (s : State φ) (pc : Pc φ) {v : Nat} (h : v ≠ w) :
    (s.setWorker w pc).workers v = s.workers v :=
  Function.update_of_ne h _ _

theorem setWorker_self (s : State φ) (w : Nat) (pc : Pc φ) : (s.setWorker w pc).workers w = pc :=
  Function.update_self ..

/-- A worker that runs nothing moves, and does not come to hold another task than it did. -/
theorem held_setWorker (h : Handed s)
    (hpc : ∀ k task, pc = .holding (some (k, task)) → s.taken[k]? = some task) (v k : Nat)
    (task : Task φ) (hv : (s.setWorker w pc).workers v = .holding (some (k, task))) :
    s.taken[k]? = some task := by
  by_cases hvw : v = w
  · subst hvw
    rw [setWorker_self] at hv
    exact hpc k task hv
  · rw [setWorker_ne s pc hvw] at hv
    exact h.held v k task hv

theorem begun_setWorker (h : Handed s) (hw : ∀ k, s.workers w ≠ .running k) (k : Nat)
    (hk : k ∈ s.begun) : k ∈ s.executed ∨ ∃ v, (s.setWorker w pc).workers v = .running k := by
  refine (h.begun k hk).imp_right ?_
  rintro ⟨v, hv⟩
  refine ⟨v, ?_⟩
  rw [setWorker_ne, hv]
  rintro rfl
  exact hw k hv

theorem move (h : Handed s) (hw : s.task w = none) (hpc : pc.task = none) :
    Handed (s.setWorker w pc) := by
  refine ⟨?_, h.held_setWorker fun k task heq => ?_, h.begun_setWorker fun k hk => ?_, h.begunNodup,
    h.executed, h.executedNodup, h.skipped⟩
  · rw [task_setWorker, hpc, ← hw, Function.update_eq_self]
    exact h.assigned
  · rw [heq] at hpc
    cases hpc
  · rw [State.task, hk] at hw
    cases hw

/-- A worker takes the front of the queue. -/
theorem grab (h : Handed s) (hw : s.task w = none) (hlt : w < s.numThreads) (front : Task φ)
    (rest : List (Task φ)) :
    Handed { s.setWorker w (.holding (some (s.taken.length, front))) with
      queue := rest, taken := s.taken ++ [front] } := by
  have hget : ∀ (k : Nat) (task : Task φ), s.taken[k]? = some task →
      (s.taken ++ [front])[k]? = some task := by
    intro k task hk
    obtain ⟨hklt, -⟩ := List.getElem?_eq_some_iff.1 hk
    rw [List.getElem?_append_left hklt, hk]
  refine ⟨?_, fun v k task hv => ?_, h.begun_setWorker fun k hk => ?_, h.begunNodup, h.executed,
    h.executedNodup, fun k hk => (h.skipped k hk).imp_right (hget k none)⟩
  · show Assigned s.numThreads (s.setWorker w _).task s.finished (s.taken ++ [front]).length
    rw [task_setWorker, List.length_append]
    exact h.assigned.grab hw hlt
  · show (s.taken ++ [front])[k]? = some task
    by_cases hvw : v = w
    · subst hvw
      have heq := (setWorker_self s v _).symm.trans hv
      cases heq
      rw [List.getElem?_append_right (Nat.le_refl _), Nat.sub_self]
      rfl
    · exact hget k task (h.held v k task ((setWorker_ne s _ hvw).symm.trans hv))
  · rw [State.task, hk] at hw
    cases hw

/-- The call of a task that is not empty. -/
theorem begin (h : Handed s) {f : φ} (hw : s.workers w = .holding (some (k, some f))) :
    Handed { s.setWorker w (.running k) with begun := s.begun ++ [k] } := by
  have htask : s.task w = some k := by rw [State.task, hw]; rfl
  have hnot : k ∉ s.begun := by
    intro hk
    rcases h.begun k hk with hk | ⟨v, hv⟩
    · exact h.assigned.apart w k htask (h.executed k hk)
    · have hvw : v = w := h.assigned.inj v w k (by rw [State.task, hv]; rfl) htask
      rw [hvw, hw] at hv
      cases hv
  refine ⟨?_, h.held_setWorker nofun, fun j hj => ?_, ?_, h.executed, h.executedNodup, h.skipped⟩
  · show Assigned s.numThreads (s.setWorker w _).task s.finished s.taken.length
    have hsame : (Pc.running k : Pc φ).task = s.task w := htask.symm
    rw [task_setWorker, hsame, Function.update_eq_self]
    exact h.assigned
  · rcases List.mem_append.1 hj with hj | hj
    · refine h.begun_setWorker (fun i hi => ?_) j hj
      rw [hw] at hi
      cases hi
    · rw [List.mem_singleton] at hj
      subst hj
      exact .inr ⟨w, setWorker_self s w _⟩
  · show (s.begun ++ [k]).Nodup
    rw [← List.concat_eq_append]
    exact h.begunNodup.concat hnot

/-- An empty task is dropped. -/
theorem skip (h : Handed s) (hw : s.workers w = .holding (some (k, none))) :
    Handed { s.setWorker w .test with finished := s.finished ++ [k] } := by
  have htask : s.task w = some k := by rw [State.task, hw]; rfl
  refine ⟨?_, h.held_setWorker nofun, h.begun_setWorker fun i hi => ?_, h.begunNodup,
    fun j hj => List.mem_append_left _ (h.executed j hj), h.executedNodup, fun j hj => ?_⟩
  · show Assigned s.numThreads (s.setWorker w _).task (s.finished ++ [k]) s.taken.length
    rw [task_setWorker]
    exact h.assigned.finish htask
  · rw [hw] at hi
    cases hi
  · rcases List.mem_append.1 hj with hj | hj
    · exact h.skipped j hj
    · rw [List.mem_singleton] at hj
      subst hj
      exact .inr (h.held w j none hw)

theorem taskReturns (h : Handed s) (hw : s.workers w = .running k) :
    Handed (s.taskReturns w k) := by
  have htask : s.task w = some k := by rw [State.task, hw]; rfl
  have hnot : k ∉ s.executed := fun hk => h.assigned.apart w k htask (h.executed k hk)
  refine ⟨?_, h.held_setWorker nofun, fun j hj => ?_, h.begunNodup, fun j hj => ?_, ?_,
    fun j hj => ?_⟩
  · show Assigned s.numThreads (s.setWorker w _).task (s.finished ++ [k]) s.taken.length
    rw [task_setWorker]
    exact h.assigned.finish htask
  · rcases h.begun j hj with hj | ⟨v, hv⟩
    · exact .inl (List.mem_append_left _ hj)
    · by_cases hvw : v = w
      · rw [hvw, hw] at hv
        cases hv
        exact .inl (List.mem_append_right _ (List.mem_singleton_self k))
      · exact .inr ⟨v, (setWorker_ne s _ hvw).trans hv⟩
  · rcases List.mem_append.1 hj with hj | hj
    · exact List.mem_append_left _ (h.executed j hj)
    · exact List.mem_append_right _ hj
  · show (s.executed ++ [k]).Nodup
    rw [← List.concat_eq_append]
    exact h.executedNodup.concat hnot
  · rcases List.mem_append.1 hj with hj | hj
    · exact (h.skipped j hj).imp_left (List.mem_append_left _)
    · exact .inl (List.mem_append_right _ hj)

/-- Changes of the rest of the pool. -/
theorem congr {s' : State φ} (h : Handed s) (hn : s'.numThreads = s.numThreads)
    (hw : s'.workers = s.workers) (ht : s'.taken = s.taken) (hf : s'.finished = s.finished)
    (hb : s'.begun = s.begun) (he : s'.executed = s.executed) : Handed s' := by
  obtain ⟨ha, hheld, hbegun, hbn, hex, hen, hskip⟩ := h
  have hta : s'.task = s.task := funext fun v => congrArg Pc.task (congrFun hw v)
  refine ⟨?_, ?_, ?_, ?_, ?_, ?_, ?_⟩
  · rwa [hn, hta, hf, ht]
  · rwa [hw, ht]
  · rwa [hb, he, hw]
  · rwa [hb]
  · rwa [he, hf]
  · rwa [he]
  · rwa [hf, he, ht]

theorem take (h : Handed s) (hw : s.task w = none) (hlt : w < s.numThreads) :
    Handed (s.take w) := by
  unfold State.take
  split
  · exact (h.move hw rfl).congr rfl rfl rfl rfl rfl rfl
  · split
    · exact h.move hw rfl
    · exact h.grab hw hlt _ _

theorem step {s' : State φ} {a : Action φ} (h : Handed s) (he : enabled s a = true)
    (hs : step s a = .ok s') : Handed s' := by
  cases a with
  | run task p =>
    cases hs
    unfold State.run
    split
    · exact h
    · exact h.congr rfl rfl rfl rfl rfl rfl
  | testRunning w =>
    cases hs
    simp only [enabled, Bool.and_eq_true, decide_eq_true_eq] at he
    refine h.move ?_ ?_
    · rw [State.task]
      split at he
      · next hw => rw [hw]; rfl
      · cases he.2
    · split <;> rfl
  | take w =>
    cases hs
    simp only [enabled, Bool.and_eq_true, decide_eq_true_eq] at he
    refine h.take ?_ he.1
    rw [State.task]
    split at he
    · next hw => rw [hw]; rfl
    · cases he.2
  | resume w =>
    cases hs
    simp only [enabled, Bool.and_eq_true, decide_eq_true_eq] at he
    have hc : Handed { s with cond := s.cond.resume w } := h.congr rfl rfl rfl rfl rfl rfl
    refine hc.take ?_ he.1.1
    show (s.workers w).task = none
    split at he
    · next hw => rw [hw]; rfl
    · cases he.2
  | wake w =>
    cases hs
    exact h.congr rfl rfl rfl rfl rfl rfl
  | callTask w =>
    simp only [ThreadPool.step] at hs
    split at hs
    · next task hw =>
      cases hs
      unfold State.callTask
      split
      · exact h.begin hw
      · exact h.skip hw
      · exact h.move (by rw [State.task, hw]; rfl) rfl
    · cases hs
      exact h
  | taskReturns w =>
    simp only [ThreadPool.step] at hs
    split at hs
    · next k hw =>
      cases hs
      exact h.taskReturns hw
    · cases hs
      exact h
  | stop =>
    cases hs
    exact h.congr rfl rfl rfl rfl rfl rfl
  | stopReturns =>
    cases hs
    exact h.congr rfl rfl rfl rfl rfl rfl

end Handed

/-! ## Runs -/

/-- What holds in every state of the pool. -/
structure Sound (s : State φ) : Prop where
  queued : Queued s
  handed : Handed s
  joined : s.stopPc = .returned → ∀ w < s.numThreads, s.workers w = .exited

/-- The worker whose step an action is. -/
def Action.worker : Action φ → Option Nat
  | .testRunning w | .take w | .resume w | .callTask w | .taskReturns w => some w
  | .run _ _ | .wake _ | .stop | .stopReturns => none

section Worker

variable {s s' : State φ} {a : Action φ} {w : Nat}

theorem worker_enabled (he : enabled s a = true) (ha : a.worker = some w) :
    w < s.numThreads ∧ s.workers w ≠ .exited := by
  cases a <;> cases ha
  all_goals
    simp only [enabled, Bool.and_eq_true, decide_eq_true_eq] at he
    obtain ⟨hlt, hpc⟩ := he
    refine ⟨by omega, fun hx => ?_⟩
    rw [hx] at hpc
    cases hpc

theorem stopPc_take (s : State φ) (w : Nat) : (s.take w).stopPc = s.stopPc := by
  unfold State.take
  split
  · rfl
  · split <;> rfl

theorem stopPc_callTask (s : State φ) (w : Nat) (task : Option (Nat × Task φ)) :
    (s.callTask w task).stopPc = s.stopPc := by
  unfold State.callTask
  split <;> rfl

/-- Workers do not move `stop`. -/
theorem stopPc_worker (ha : a.worker = some w) (hs : step s a = .ok s') :
    s'.stopPc = s.stopPc := by
  cases a with
  | run task p => cases ha
  | testRunning v =>
    cases hs
    rfl
  | take v =>
    cases hs
    exact stopPc_take s v
  | resume v =>
    cases hs
    exact stopPc_take _ v
  | wake v => cases ha
  | callTask v =>
    simp only [ThreadPool.step] at hs
    split at hs
    · cases hs
      exact stopPc_callTask s v _
    · cases hs
      rfl
  | taskReturns v =>
    simp only [ThreadPool.step] at hs
    split at hs <;> cases hs <;> rfl
  | stop => cases ha
  | stopReturns => cases ha

end Worker

/-- When all workers have exited nothing of them can happen any more. -/
theorem Sound.joined_step {s s' : State φ} {a : Action φ} (h : Sound s) (he : enabled s a = true)
    (hs : step s a = .ok s') (hret : s'.stopPc = .returned) :
    ∀ w < s'.numThreads, s'.workers w = .exited := by
  cases hw : a.worker with
  | some w =>
    obtain ⟨hlt, hne⟩ := worker_enabled he hw
    rw [stopPc_worker hw hs] at hret
    exact absurd (h.joined hret w hlt) hne
  | none =>
    cases a with
    | run task p =>
      cases hs
      unfold State.run at hret ⊢
      split at hret
      · next hn =>
        rw [if_pos hn]
        exact h.joined hret
      · next hn =>
        rw [if_neg hn]
        exact h.joined hret
    | wake w =>
      cases hs
      exact h.joined hret
    | stop =>
      cases hs
      cases hret
    | stopReturns =>
      cases hs
      simp only [enabled, Bool.and_eq_true, List.all_eq_true, List.mem_range] at he
      intro w hw
      have hx := he.2 w hw
      split at hx
      · next hpc => exact hpc
      · cases hx
    | testRunning w => cases hw
    | take w => cases hw
    | resume w => cases hw
    | callTask w => cases hw
    | taskReturns w => cases hw

theorem keeps_sound : (machine φ).Keeps (fun _ _ _ => True) Sound :=
  fun _ _ _ h _ he hs => ⟨h.queued.step he hs, h.handed.step he hs, h.joined_step he hs⟩

theorem Sound.start (numThreads : Nat) : Sound (start numThreads : State φ) :=
  ⟨⟨rfl, .init _, nofun⟩, .start numThreads, nofun⟩

/-- What has begun was taken. -/
theorem Handed.begun_lt {s : State φ} (h : Handed s) {k : Nat} (hk : k ∈ s.begun) :
    k < s.taken.length := by
  rcases h.begun k hk with hk | ⟨w, hw⟩
  · exact h.assigned.finished_lt k (h.executed k hk)
  · exact (h.assigned.lt w k (by rw [State.task, hw]; rfl)).2

theorem Sound.executed_of_taken {s : State φ} (h : Sound s) (hret : s.stopPc = .returned) {j : Nat}
    {f : φ} (hj : j < s.taken.length) (hf : s.pushed[j]? = some (some f)) :
    s.executed.count j = 1 := by
  refine List.count_eq_one_of_mem h.handed.executedNodup ?_
  have hfin : j ∈ s.finished := by
    refine (h.handed.assigned.cover j hj).resolve_right ?_
    rintro ⟨w, hw⟩
    obtain ⟨hlt, -⟩ := h.handed.assigned.lt w j hw
    rw [State.task, h.joined hret w hlt] at hw
    cases hw
  refine (h.handed.skipped j hfin).resolve_right fun hnone => ?_
  rw [← h.queued.order, List.getElem?_append_left hj, hnone] at hf
  cases hf

/-- **Tasks are taken in the order of `run`, each is called at most once, no worker sleeps beside
work, and `stop` leaves none asleep; when it returns, all tasks queued before one that began
have been executed once.** -/
theorem threadPool_in_order (numThreads : Nat) (as : List (Action φ)) (s : State φ)
    (hr : (machine φ).run (start numThreads) as = some s) :
    s.taken ++ s.queue = s.pushed ∧
    (∀ k, s.begun.count k ≤ 1 ∧ s.executed.count k ≤ 1) ∧
    (s.running = true → s.cond.NoSleeper (!s.queue.isEmpty)) ∧
    (s.running = false → s.cond.waiting = []) ∧
    (s.stopPc = .returned → ∀ k ∈ s.begun, ∀ j ≤ k, ∀ f, s.pushed[j]? = some (some f) →
      s.executed.count j = 1) := by
  have h := keeps_sound.run_all (.start numThreads) hr
  refine ⟨h.queued.order, fun k => ⟨?_, ?_⟩, fun _ => h.queued.covers.noSleeper fun hq => ?_,
    h.queued.stopped, fun hret k hk j hjk f hf => ?_⟩
  · exact List.nodup_iff_count_le_one.1 h.handed.begunNodup k
  · exact List.nodup_iff_count_le_one.1 h.handed.executedNodup k
  · exact List.length_pos_of_ne_nil (by simpa using hq)
  · exact h.executed_of_taken hret (Nat.lt_of_le_of_lt hjk (h.handed.begun_lt hk)) hf

/-- Worker 0 waits and is woken for task 0; worker 1 takes task 1 and begins first. -/
def twoWorkers : List (Action Nat) :=
  [.testRunning 0, .take 0, .run (some 7) fun _ => true, .run (some 8) fun _ => true, .resume 0,
    .testRunning 1, .take 1, .callTask 1, .stop, .callTask 0, .taskReturns 0, .taskReturns 1,
    .testRunning 0, .testRunning 1, .stopReturns]

theorem twoWorkers_in_order :
    ∃ s, (machine Nat).run (start 2) twoWorkers = some s ∧ s.begun = [1, 0] ∧
      s.executed.count 0 = 1 :=
  ⟨_, rfl, rfl, (threadPool_in_order 2 twoWorkers _ rfl).2.2.2.2 rfl 1 (by decide) 0 (by decide) 7
    rfl⟩

end Rawmd.ThreadPool
