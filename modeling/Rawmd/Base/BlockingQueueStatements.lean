import Rawmd.Lib.Monitor
import Rawmd.Base.BlockingQueue

/-!
# `base/BoundedBlockingQueue.h`, `base/BlockingQueue.h`: statement by statement

`put` and `take` as in the source, where each statement is a step of its own and any other threads
run in between.  Whenever nobody has the mutex, the queue is one to which its calls lead, each of
them in one step and in the order of their returns.

    Agrees f s → takesOf f.returned ++ f.data.toList = putsOf f.returned
                                                                  (statements_refine)
-/

namespace Rawmd

/-- What the calls of a queue return, with what was put. -/
inductive QueueResult (α : Type) where
  | put (x : α)
  | take (x : α)
  | flag (b : Bool)
  | number (n : Nat)

namespace QueueResult

variable {α : Type}

def putOf : Nat × QueueResult α → Option α
  | (_, .put x) => some x
  | _ => none

def takeOf : Nat × QueueResult α → Option α
  | (_, .take x) => some x
  | _ => none

end QueueResult

/-- The items that were put, in the order in which the calls returned. -/
def putsOf {α : Type} (returned : List (Nat × QueueResult α)) : List α :=
  returned.filterMap QueueResult.putOf

def takesOf {α : Type} (returned : List (Nat × QueueResult α)) : List α :=
  returned.filterMap QueueResult.takeOf

namespace BoundedBlockingQueue

/-- Where a thread goes on when it has the mutex: at the test of its loop. -/
inductive Call (α : Type) where
  | put (x : α)
  | take
  | empty
  | full
  | size
  | capacity

inductive Cond where
  | notEmpty
  | notFull
deriving DecidableEq

variable {α : Type} [Inhabited α]

def code : Call α → Monitor.Block (CircularBuffer α) (Call α) Cond (QueueResult α) Fault
  | .put x =>
    .read fun queue =>
      if queue.full then .wait .notFull (.put x)
      else .read fun queue =>
        if queue.full then .fail .assertFailed
        else .write (fun queue => (queue.pushBack x).2) (.notify .notEmpty false (.ret (.put x)))
  | .take =>
    .read fun queue =>
      if queue.empty then .wait .notEmpty .take
      else .read fun queue =>
        if queue.empty then .fail .assertFailed
        else .read fun queue =>
          .write CircularBuffer.popFront (.notify .notFull false (.ret (.take queue.front)))
  | .empty => .read fun queue => .ret (.flag queue.empty)
  | .full => .read fun queue => .ret (.flag queue.full)
  | .size => .read fun queue => .ret (.number queue.size)
  | .capacity => .read fun queue => .ret (.number queue.capacity)

abbrev Statements (α : Type) :=
  Monitor.Fine (CircularBuffer α) (Call α) Cond (QueueResult α) Fault Nat

abbrev Calls (α : Type) := Monitor.Atomic (CircularBuffer α) (Call α) Cond (QueueResult α) Nat

def statements (α : Type) [Inhabited α] :
    Machine (Statements α) (Monitor.Fine.Action (Call α) Cond Nat) Fault := Monitor.fine Nat code

/-- The queue, and what came of the calls. -/
structure Agrees (f : Statements α) (s : State α) : Prop where
  queue : f.data = s.queue
  notEmpty : CondVar.Same (f.conds .notEmpty) s.notEmpty
  notFull : CondVar.Same (f.conds .notFull) s.notFull
  puts : putsOf f.returned = s.puts
  taken : takesOf f.returned = s.taken

/-! ## Whole calls -/

/-- A thread waits where its call does, with the item `y` if that is a `put`. -/
def WaitsWith (y : α) : Option (Cond × Call α) → Prop
  | none => True
  | some (.notFull, .put x) => x = y
  | some (.notEmpty, .take) => True
  | some _ => False

structure Stands (a : Calls α) (s : State α) : Prop where
  queue : a.data = s.queue
  notEmpty : a.conds .notEmpty = s.notEmpty
  notFull : a.conds .notFull = s.notFull
  puts : putsOf a.returned = s.puts
  taken : takesOf a.returned = s.taken
  asleep : ∀ t, WaitsWith (s.arg t) (a.asleep t)

/-- A block to its end, with the conditions there. -/
abbrev Outcome (α : Type) :=
  Except Fault (CircularBuffer α × (Cond → CondVar Nat) × Monitor.End (Call α) Cond (QueueResult α))

variable {queue : CircularBuffer α} {cs : Cond → CondVar Nat} {ps : List (Nat → Bool)}
  {r : Outcome α} {x : α}

theorem run_put (h : (code (.put x)).run queue cs ps = some r) :
    (queue.full = true ∧ r = .ok (queue, cs, .wait .notFull (.put x))) ∨
    (queue.full = false ∧ ∃ p, (cs .notEmpty).mayNotify p = true ∧
      r = .ok ((queue.pushBack x).2, Monitor.notify cs .notEmpty p, .ret (.put x))) := by
  simp only [code, Monitor.Block.run] at h
  by_cases hfull : queue.full = true
  · rw [if_pos hfull] at h
    cases ps with
    | nil =>
      cases h
      exact .inl ⟨hfull, rfl⟩
    | cons p ps => cases h
  · rw [if_neg hfull, Monitor.Block.run, if_neg hfull] at h
    cases ps with
    | nil => cases h
    | cons p ps =>
      simp only [Monitor.Block.run] at h
      split at h
      · next hp =>
        cases ps with
        | nil =>
          cases h
          exact .inr ⟨Bool.not_eq_true _ ▸ hfull, p, hp, rfl⟩
        | cons p' ps => cases h
      · cases h

theorem run_take (h : (code .take).run queue cs ps = some r) :
    (queue.empty = true ∧ r = .ok (queue, cs, .wait .notEmpty .take)) ∨
    (queue.empty = false ∧ ∃ p, (cs .notFull).mayNotify p = true ∧
      r = .ok (queue.popFront, Monitor.notify cs .notFull p, .ret (.take queue.front))) := by
  simp only [code, Monitor.Block.run] at h
  by_cases hempty : queue.empty = true
  · rw [if_pos hempty] at h
    cases ps with
    | nil =>
      cases h
      exact .inl ⟨hempty, rfl⟩
    | cons p ps => cases h
  · rw [if_neg hempty, Monitor.Block.run, if_neg hempty] at h
    cases ps with
    | nil => cases h
    | cons p ps =>
      simp only [Monitor.Block.run] at h
      split at h
      · next hp =>
        cases ps with
        | nil =>
          cases h
          exact .inr ⟨Bool.not_eq_true _ ▸ hempty, p, hp, rfl⟩
        | cons p' ps => cases h
      · cases h

/-- The other calls only look. -/
theorem run_look {c : Call α} (hc : ∀ x, c ≠ .put x) (hc' : c ≠ .take)
    (h : (code c).run queue cs ps = some r) :
    ∃ v, r = .ok (queue, cs, .ret v) ∧
      ∀ l t, putsOf (l ++ [(t, v)]) = putsOf l ∧ takesOf (l ++ [(t, v)]) = takesOf l := by
  have hnone (b : Bool) (n : Nat) (l : List (Nat × QueueResult α)) (t : Nat) :
      (putsOf (l ++ [(t, .flag b)]) = putsOf l ∧ takesOf (l ++ [(t, .flag b)]) = takesOf l) ∧
      putsOf (l ++ [(t, .number n)]) = putsOf l ∧ takesOf (l ++ [(t, .number n)]) = takesOf l := by
    refine ⟨⟨?_, ?_⟩, ?_, ?_⟩ <;>
    · refine (List.filterMap_append ..).trans ?_
      exact List.append_nil _
  cases ps with
  | cons p ps =>
    cases c with
    | put x => exact absurd rfl (hc x)
    | take => exact absurd rfl hc'
    | empty | full | size | capacity => cases h
  | nil =>
    cases c with
    | put x => exact absurd rfl (hc x)
    | take => exact absurd rfl hc'
    | empty | full =>
      cases h
      exact ⟨.flag _, rfl, fun l t => (hnone _ 0 l t).1⟩
    | size | capacity =>
      cases h
      exact ⟨.number _, rfl, fun l t => (hnone true _ l t).2⟩

/-! ## A step of the queue for each -/

variable {a : Calls α} {s : State α} {t : Nat}

omit [Inhabited α] in
theorem Stands.asleep_update (h : Stands a s) (t : Nat) {x : α} {y : Option (Cond × Call α)}
    (hy : WaitsWith x y) (u : Nat) :
    WaitsWith (Function.update s.arg t x u) (Function.update a.asleep t y u) := by
  by_cases hut : u = t
  · subst hut
    rw [Function.update_self, Function.update_self]
    exact hy
  · rw [Function.update_of_ne hut, Function.update_of_ne hut]
    exact h.asleep u

omit [Inhabited α] in
/-- Where the thread `t` does not wait with an item. -/
theorem Stands.asleep_update' (h : Stands a s) (t : Nat) {y : Option (Cond × Call α)}
    (hy : WaitsWith (s.arg t) y) (u : Nat) :
    WaitsWith (s.arg u) (Function.update a.asleep t y u) := by
  have hu := h.asleep_update t hy u
  rwa [Function.update_eq_self] at hu

theorem Stands.put (h : Stands a s) (hr : (code (.put x)).run a.data a.conds ps = some r) :
    ∃ e p s', r = .ok e ∧ s.notEmpty.mayNotify p = true ∧ s.put t x p = .ok s' ∧
      Stands (a.finish t e) s' := by
  unfold State.put State.finishPut
  rw [← h.queue]
  rcases run_put hr with ⟨hfull, rfl⟩ | ⟨hfull, p, hp, rfl⟩
  · refine ⟨_, fun _ => true, _, rfl, ?_, if_pos hfull, ?_⟩
    · exact CondVar.mayNotify_true _
    · constructor
      · rfl
      · exact h.notEmpty
      · exact congrArg (CondVar.wait · t) h.notFull
      · exact h.puts
      · exact h.taken
      · exact h.asleep_update t rfl
  · rw [hfull]
    refine ⟨_, p, _, rfl, ?_, rfl, ?_⟩
    · rw [← h.notEmpty]
      exact hp
    · constructor
      · rfl
      · exact congrArg (CondVar.notify · p) h.notEmpty
      · exact h.notFull
      · exact (List.filterMap_append ..).trans (congrArg (· ++ [x]) h.puts)
      · exact (List.filterMap_append ..).trans ((List.append_nil _).trans h.taken)
      · exact h.asleep_update' t trivial

theorem Stands.take (h : Stands a s) (hr : (code .take).run a.data a.conds ps = some r) :
    ∃ e p s', r = .ok e ∧ s.notFull.mayNotify p = true ∧ s.take t p = .ok s' ∧
      Stands (a.finish t e) s' := by
  unfold State.take State.finishTake
  rw [← h.queue]
  rcases run_take hr with ⟨hempty, rfl⟩ | ⟨hempty, p, hp, rfl⟩
  · refine ⟨_, fun _ => true, _, rfl, ?_, if_pos hempty, ?_⟩
    · exact CondVar.mayNotify_true _
    · constructor
      · rfl
      · exact congrArg (CondVar.wait · t) h.notEmpty
      · exact h.notFull
      · exact h.puts
      · exact h.taken
      · exact h.asleep_update' t trivial
  · rw [hempty]
    refine ⟨_, p, _, rfl, ?_, rfl, ?_⟩
    · rw [← h.notFull]
      exact hp
    · constructor
      · rfl
      · exact h.notEmpty
      · exact congrArg (CondVar.notify · p) h.notFull
      · exact (List.filterMap_append ..).trans ((List.append_nil _).trans h.puts)
      · exact (List.filterMap_append ..).trans (congrArg (· ++ [a.data.front]) h.taken)
      · exact h.asleep_update' t trivial

theorem Stands.look (h : Stands a s) {c : Call α} (hc : ∀ x, c ≠ .put x) (hc' : c ≠ .take)
    (hr : (code c).run a.data a.conds ps = some r) :
    ∃ e, r = .ok e ∧ Stands (a.finish t e) s := by
  obtain ⟨v, rfl, hv⟩ := run_look hc hc' hr
  refine ⟨_, rfl, ?_⟩
  constructor
  · exact h.queue
  · exact h.notEmpty
  · exact h.notFull
  · exact (hv a.returned t).1.trans h.puts
  · exact (hv a.returned t).2.trans h.taken
  · exact h.asleep_update' t trivial

/-! ## Runs -/

def Refines (a : Calls α) (s : State α) : Prop := Monitor.Sleepers a ∧ Stands a s

omit [Inhabited α] in
theorem Stands.idle (h : Stands a s) (hs : Monitor.Sleepers a) (hnone : a.asleep t = none) :
    s.idle t = true := by
  unfold State.idle
  rw [← h.notEmpty, ← h.notFull, hs.blocks_eq_false hnone, hs.blocks_eq_false hnone]
  rfl

omit [Inhabited α] in
/-- A thread that has the mutex again, before it goes on. -/
theorem Stands.resume (h : Stands a s) {i : Cond} {c : Call α} (hsome : a.asleep t = some (i, c))
    (hwoken : t ∈ (a.conds i).woken) :
    (i = .notFull ∧ c = .put (s.arg t) ∧ t ∈ s.notFull.woken ∧
      Stands { a with conds := Monitor.resume a.conds i t }
        { s with notFull := s.notFull.resume t }) ∨
    (i = .notEmpty ∧ c = .take ∧ t ∈ s.notEmpty.woken ∧
      Stands { a with conds := Monitor.resume a.conds i t }
        { s with notEmpty := s.notEmpty.resume t }) := by
  have hwaits := h.asleep t
  rw [hsome] at hwaits
  match i, c, hwaits with
  | .notFull, .put x, hwaits =>
    cases hwaits
    refine .inl ⟨rfl, rfl, ?_, ?_⟩
    · rw [← h.notFull]
      exact hwoken
    · exact ⟨h.queue, h.notEmpty, congrArg (CondVar.resume · t) h.notFull, h.puts, h.taken,
        h.asleep⟩
  | .notEmpty, .take, _ =>
    refine .inr ⟨rfl, rfl, ?_, ?_⟩
    · rw [← h.notEmpty]
      exact hwoken
    · exact ⟨h.queue, congrArg (CondVar.resume · t) h.notEmpty, h.notFull, h.puts, h.taken,
        h.asleep⟩

theorem Stands.wake (h : Stands a s) {i : Cond} {u : Nat} (hu : u ∈ (a.conds i).waiting) :
    ∃ b s', (machine α).run s [b] = some s' ∧
      Stands { a with conds := Monitor.wake a.conds i u } s' := by
  cases i with
  | notEmpty =>
    rw [h.notEmpty] at hu
    refine ⟨.wakeTake u, _, Machine.run_single _ (decide_eq_true hu) rfl, ?_⟩
    exact ⟨h.queue, congrArg (CondVar.wake · u) h.notEmpty, h.notFull, h.puts, h.taken, h.asleep⟩
  | notFull =>
    rw [h.notFull] at hu
    refine ⟨.wakePut u, _, Machine.run_single _ (decide_eq_true hu) rfl, ?_⟩
    exact ⟨h.queue, h.notEmpty, congrArg (CondVar.wake · u) h.notFull, h.puts, h.taken, h.asleep⟩

/-- What a block does, a step of the queue does. -/
theorem Stands.run (h : Stands a s) {c : Call α} (hr : (code c).run a.data a.conds ps = some r) :
    ∃ e, r = .ok e ∧
      ((∃ x p s', c = .put x ∧ s.notEmpty.mayNotify p = true ∧ s.put t x p = .ok s' ∧
        Stands (a.finish t e) s') ∨
      (∃ p s', c = .take ∧ s.notFull.mayNotify p = true ∧ s.take t p = .ok s' ∧
        Stands (a.finish t e) s') ∨
      (∀ x, c ≠ .put x) ∧ c ≠ .take ∧ Stands (a.finish t e) s) := by
  by_cases hput : ∃ x, c = .put x
  · obtain ⟨x, rfl⟩ := hput
    obtain ⟨e, p, s', he, hp, hs', hstands⟩ := h.put hr
    exact ⟨e, he, .inl ⟨x, p, s', rfl, hp, hs', hstands⟩⟩
  · by_cases htake : c = .take
    · subst htake
      obtain ⟨e, p, s', he, hp, hs', hstands⟩ := h.take hr
      exact ⟨e, he, .inr (.inl ⟨p, s', rfl, hp, hs', hstands⟩)⟩
    · have hput' : ∀ x, c ≠ .put x := fun x hx => hput ⟨x, hx⟩
      obtain ⟨e, he, hstands⟩ := h.look hput' htake hr
      exact ⟨e, he, .inr (.inr ⟨hput', htake, hstands⟩)⟩

theorem atomic_simulates : (Monitor.atomic Nat (code (α := α))).Simulates (machine α) Refines := by
  refine Monitor.atomic_simulates_of ?_ ?_ ?_
  · intro a s t c ps o hs h hnone ho
    have hidle := h.idle hs hnone
    obtain ⟨e, rfl, ⟨x, p, s', rfl, hp, hs', hstands⟩ | ⟨p, s', rfl, hp, hs', hstands⟩ |
      ⟨-, -, hstands⟩⟩ := h.run (t := t) ho
    · refine ⟨s', [.put t x p], Machine.run_single _ ?_ hs', hstands⟩
      exact (Bool.and_eq_true ..).mpr ⟨hidle, hp⟩
    · refine ⟨s', [.take t p], Machine.run_single _ ?_ hs', hstands⟩
      exact (Bool.and_eq_true ..).mpr ⟨hidle, hp⟩
    · exact ⟨s, [], rfl, hstands⟩
  · intro a s t i c ps o hs h hsome hwoken ho
    rcases h.resume hsome hwoken with ⟨rfl, rfl, hw, hres⟩ | ⟨rfl, rfl, hw, hres⟩
    · obtain ⟨e, p, s', rfl, hp, hs', hstands⟩ := hres.put (t := t) ho
      refine ⟨s', [.resumePut t p], Machine.run_single _ ?_ hs', hstands⟩
      exact (Bool.and_eq_true ..).mpr ⟨decide_eq_true hw, hp⟩
    · obtain ⟨e, p, s', rfl, hp, hs', hstands⟩ := hres.take (t := t) ho
      refine ⟨s', [.resumeTake t p], Machine.run_single _ ?_ hs', hstands⟩
      exact (Bool.and_eq_true ..).mpr ⟨decide_eq_true hw, hp⟩
  · intro a s i u hs h hmem
    obtain ⟨b, s', hrun, hstands⟩ := h.wake hmem
    exact ⟨s', [b], hrun, hstands⟩

theorem Stands.agrees {f : Statements α} (h : Stands a s) (hf : Monitor.Follows code f a)
    (hm : f.mutex = none) : Agrees f s := by
  obtain ⟨hdata, hconds⟩ := hf.free hm
  constructor
  · exact hdata.trans h.queue
  · rw [← h.notEmpty]
    exact hconds .notEmpty
  · rw [← h.notFull]
    exact hconds .notFull
  · rw [hf.returned]
    exact h.puts
  · rw [hf.returned]
    exact h.taken

theorem Refines.init (queue : CircularBuffer α) :
    Refines (Monitor.Atomic.init queue : Calls α) (init queue) :=
  ⟨.init queue, rfl, rfl, rfl, rfl, rfl, fun _ => trivial⟩

theorem statements_exec {maxSize : Nat} {queue : CircularBuffer α}
    (hq : CircularBuffer.make maxSize = some queue)
    {as : List (Monitor.Fine.Action (Call α) Cond Nat)} {r : Except Fault (Statements α)}
    (hr : (statements α).exec (.init queue) as = some r) :
    ∃ f, r = .ok f ∧ (f.mutex = none → ∃ bs s, (machine α).run (init queue) bs = some s ∧
      Fair s ∧ Agrees f s) := by
  have hsafe := Fair.safe (α := α)
  have hsim := (Monitor.fine_simulates (code (α := α))).trans atomic_simulates
  rcases hsim.exec ⟨_, Monitor.Follows.init code queue, Refines.init queue⟩ hr with
    ⟨f, s, bs, rfl, hs, a, hf, hrefines⟩ | ⟨e, bs, rfl, hs⟩
  · exact ⟨f, rfl, fun hm => ⟨bs, s, hs, hsafe.run (.init hq) hs, hrefines.2.agrees hf hm⟩⟩
  · obtain ⟨_, hok, -⟩ := hsafe.exec (.init hq) hs
    cases hok

end BoundedBlockingQueue

namespace BlockingQueue

/-- Where a thread goes on when it has the mutex. -/
inductive Call (α : Type) where
  | put (x : α)
  | take
  | size

variable {α : Type}

def code : Call α → Monitor.Block (List α) (Call α) Unit (QueueResult α) Fault
  | .put x => .write (fun queue => queue ++ [x]) (.notify () false (.ret (.put x)))
  | .take =>
    .read fun queue =>
      if queue.isEmpty then .wait () .take
      else .read fun queue =>
        match queue with
        | [] => .fail .assertFailed
        | front :: _ => .write List.tail (.ret (.take front))
  | .size => .read fun queue => .ret (.number queue.length)

abbrev Statements (α : Type) := Monitor.Fine (List α) (Call α) Unit (QueueResult α) Fault Nat

abbrev Calls (α : Type) := Monitor.Atomic (List α) (Call α) Unit (QueueResult α) Nat

def statements (α : Type) : Machine (Statements α) (Monitor.Fine.Action (Call α) Unit Nat) Fault :=
  Monitor.fine Nat code

/-- The queue, and what came of the calls. -/
structure Agrees (f : Statements α) (s : State α) : Prop where
  queue : f.data = s.queue
  notEmpty : CondVar.Same (f.conds ()) s.notEmpty
  puts : putsOf f.returned = s.puts
  taken : takesOf f.returned = s.taken

structure Stands (a : Calls α) (s : State α) : Prop where
  queue : a.data = s.queue
  notEmpty : a.conds () = s.notEmpty
  puts : putsOf a.returned = s.puts
  taken : takesOf a.returned = s.taken
  /-- only `take` waits -/
  asleep : ∀ t i c, a.asleep t = some (i, c) → c = .take

abbrev Outcome (α : Type) :=
  Except Fault (List α × (Unit → CondVar Nat) × Monitor.End (Call α) Unit (QueueResult α))

variable {queue : List α} {cs : Unit → CondVar Nat} {ps : List (Nat → Bool)} {r : Outcome α}
  {x : α} {a : Calls α} {s : State α} {t : Nat}

theorem run_put (h : (code (.put x)).run queue cs ps = some r) :
    ∃ p, (cs ()).mayNotify p = true ∧
      r = .ok (queue ++ [x], Monitor.notify cs () p, .ret (.put x)) := by
  simp only [code, Monitor.Block.run] at h
  cases ps with
  | nil => cases h
  | cons p ps =>
    simp only [Monitor.Block.run] at h
    split at h
    · next hp =>
      cases ps with
      | nil =>
        cases h
        exact ⟨p, hp, rfl⟩
      | cons p' ps => cases h
    · cases h

theorem run_take (h : (code .take).run queue cs ps = some r) :
    (queue = [] ∧ r = .ok (queue, cs, .wait () .take)) ∨
    ∃ front rest, queue = front :: rest ∧ r = .ok (rest, cs, .ret (.take front)) := by
  simp only [code, Monitor.Block.run] at h
  cases queue with
  | nil =>
    cases ps with
    | nil =>
      cases h
      exact .inl ⟨rfl, rfl⟩
    | cons p ps => cases h
  | cons front rest =>
    cases ps with
    | nil =>
      cases h
      exact .inr ⟨front, rest, rfl, rfl⟩
    | cons p ps => cases h

theorem run_size (h : (code .size).run queue cs ps = some r) :
    r = .ok (queue, cs, .ret (.number queue.length)) := by
  cases ps with
  | nil =>
    cases h
    rfl
  | cons p ps => cases h

theorem Stands.asleep_update (h : Stands a s) (t : Nat) {y : Option (Unit × Call α)}
    (hy : ∀ i c, y = some (i, c) → c = .take) (u : Nat) (i : Unit) (c : Call α)
    (hu : Function.update a.asleep t y u = some (i, c)) : c = .take := by
  by_cases hut : u = t
  · subst hut
    rw [Function.update_self] at hu
    exact hy i c hu
  · rw [Function.update_of_ne hut] at hu
    exact h.asleep u i c hu

theorem Stands.put (h : Stands a s) (hr : (code (.put x)).run a.data a.conds ps = some r) :
    ∃ e p, r = .ok e ∧ s.notEmpty.mayNotify p = true ∧ Stands (a.finish t e) (s.put x p) := by
  obtain ⟨p, hp, rfl⟩ := run_put hr
  refine ⟨_, p, rfl, h.notEmpty ▸ hp, ?_⟩
  constructor
  · exact congrArg (· ++ [x]) h.queue
  · exact congrArg (CondVar.notify · p) h.notEmpty
  · exact (List.filterMap_append ..).trans (congrArg (· ++ [x]) h.puts)
  · exact (List.filterMap_append ..).trans ((List.append_nil _).trans h.taken)
  · exact h.asleep_update t (fun _ _ hnone => by cases hnone)

theorem Stands.take (h : Stands a s) (hr : (code .take).run a.data a.conds ps = some r) :
    ∃ e s', r = .ok e ∧ s.take t = .ok s' ∧ Stands (a.finish t e) s' := by
  unfold State.take State.finishTake
  rw [← h.queue]
  rcases run_take hr with ⟨hnil, rfl⟩ | ⟨front, rest, hcons, rfl⟩
  · rw [hnil]
    refine ⟨_, _, rfl, rfl, ?_⟩
    constructor
    · rfl
    · exact congrArg (CondVar.wait · t) h.notEmpty
    · exact h.puts
    · exact h.taken
    · refine h.asleep_update t (fun _ _ hsome => ?_)
      cases hsome
      rfl
  · rw [hcons]
    refine ⟨_, _, rfl, rfl, ?_⟩
    constructor
    · rfl
    · exact h.notEmpty
    · exact (List.filterMap_append ..).trans ((List.append_nil _).trans h.puts)
    · exact (List.filterMap_append ..).trans (congrArg (· ++ [front]) h.taken)
    · exact h.asleep_update t (fun _ _ hnone => by cases hnone)

theorem Stands.size (h : Stands a s) (hr : (code .size).run a.data a.conds ps = some r) :
    ∃ e, r = .ok e ∧ Stands (a.finish t e) s := by
  cases run_size hr
  refine ⟨_, rfl, ?_⟩
  constructor
  · exact h.queue
  · exact h.notEmpty
  · exact (List.filterMap_append ..).trans ((List.append_nil _).trans h.puts)
  · exact (List.filterMap_append ..).trans ((List.append_nil _).trans h.taken)
  · exact h.asleep_update t (fun _ _ hnone => by cases hnone)

def Refines (a : Calls α) (s : State α) : Prop := Monitor.Sleepers a ∧ Stands a s

theorem atomic_simulates : (Monitor.atomic Nat (code (α := α))).Simulates (machine α) Refines := by
  refine Monitor.atomic_simulates_of ?_ ?_ ?_
  · intro a s t c ps o hs h hnone ho
    have hidle : (!s.notEmpty.blocks t) = true := by
      rw [← h.notEmpty, hs.blocks_eq_false hnone]
      rfl
    cases c with
    | put x =>
      obtain ⟨e, p, rfl, hp, hstands⟩ := h.put (t := t) ho
      refine ⟨_, [.put t x p], Machine.run_single _ ?_ rfl, hstands⟩
      exact (Bool.and_eq_true ..).mpr ⟨hidle, hp⟩
    | take =>
      obtain ⟨e, s', rfl, hs', hstands⟩ := h.take (t := t) ho
      exact ⟨s', [.take t], Machine.run_single _ hidle hs', hstands⟩
    | size =>
      obtain ⟨e, rfl, hstands⟩ := h.size (t := t) ho
      exact ⟨s, [], rfl, hstands⟩
  · intro a s t i c ps o hs h hsome hwoken ho
    obtain rfl := h.asleep t i c hsome
    have hres : Stands { a with conds := Monitor.resume a.conds i t }
        { s with notEmpty := s.notEmpty.resume t } :=
      ⟨h.queue, congrArg (CondVar.resume · t) h.notEmpty, h.puts, h.taken, h.asleep⟩
    obtain ⟨e, s', rfl, hs', hstands⟩ := hres.take (t := t) ho
    have hwoken' : t ∈ s.notEmpty.woken := h.notEmpty ▸ hwoken
    exact ⟨s', [.resumeTake t], Machine.run_single _ (decide_eq_true hwoken') hs', hstands⟩
  · intro a s i u hs h hmem
    have hmem' : u ∈ s.notEmpty.waiting := h.notEmpty ▸ hmem
    refine ⟨_, [.wakeTake u], Machine.run_single _ (decide_eq_true hmem') rfl, ?_⟩
    exact ⟨h.queue, congrArg (CondVar.wake · u) h.notEmpty, h.puts, h.taken, h.asleep⟩

theorem Stands.agrees {f : Statements α} (h : Stands a s) (hf : Monitor.Follows code f a)
    (hm : f.mutex = none) : Agrees f s := by
  obtain ⟨hdata, hconds⟩ := hf.free hm
  constructor
  · exact hdata.trans h.queue
  · rw [← h.notEmpty]
    exact hconds ()
  · rw [hf.returned]
    exact h.puts
  · rw [hf.returned]
    exact h.taken

theorem Refines.init : Refines (Monitor.Atomic.init [] : Calls α) init :=
  ⟨.init [], rfl, rfl, rfl, rfl, fun _ _ _ hnone => by cases hnone⟩

theorem Fair.init : Fair (BlockingQueue.init : State α) := ⟨rfl, .init _⟩

theorem statements_exec {as : List (Monitor.Fine.Action (Call α) Unit Nat)}
    {r : Except Fault (Statements α)} (hr : (statements α).exec (.init []) as = some r) :
    ∃ f, r = .ok f ∧ (f.mutex = none → ∃ bs s, (machine α).run init bs = some s ∧
      Fair s ∧ Agrees f s) := by
  have hsafe := Fair.safe (α := α)
  have hsim := (Monitor.fine_simulates (code (α := α))).trans atomic_simulates
  rcases hsim.exec ⟨_, Monitor.Follows.init code [], Refines.init⟩ hr with
    ⟨f, s, bs, rfl, hs, a, hf, hrefines⟩ | ⟨e, bs, rfl, hs⟩
  · exact ⟨f, rfl, fun hm => ⟨bs, s, hs, hsafe.run .init hs, hrefines.2.agrees hf hm⟩⟩
  · obtain ⟨_, hok, -⟩ := hsafe.exec .init hs
    cases hok

end BlockingQueue

/-! ## Both queues -/

/-- **`put` and `take` take effect at once**: however their statements are interleaved with those
of other threads, no assert fails, and whenever nobody has the mutex, the queue and what the calls
returned are as if each call, up to a wait or its return, had been one step. -/
theorem statements_refine (α : Type) [Inhabited α] :
    (∀ (maxSize : Nat) (queue : CircularBuffer α)
      (as : List (Monitor.Fine.Action (BoundedBlockingQueue.Call α) BoundedBlockingQueue.Cond Nat))
      (r : Except BoundedBlockingQueue.Fault (BoundedBlockingQueue.Statements α)),
      CircularBuffer.make maxSize = some queue →
      (BoundedBlockingQueue.statements α).exec (.init queue) as = some r →
        ∃ f, r = .ok f ∧ (f.mutex = none →
          takesOf f.returned ++ f.data.toList = putsOf f.returned ∧
          ∃ bs s,
            (BoundedBlockingQueue.machine α).run (BoundedBlockingQueue.init queue) bs = some s ∧
              BoundedBlockingQueue.Agrees f s)) ∧
    ∀ (as : List (Monitor.Fine.Action (BlockingQueue.Call α) Unit Nat))
      (r : Except BlockingQueue.Fault (BlockingQueue.Statements α)),
      (BlockingQueue.statements α).exec (.init []) as = some r →
        ∃ f, r = .ok f ∧ (f.mutex = none →
          takesOf f.returned ++ f.data = putsOf f.returned ∧
          ∃ bs s, (BlockingQueue.machine α).run BlockingQueue.init bs = some s ∧
            BlockingQueue.Agrees f s) := by
  constructor
  · intro maxSize queue as r hq hr
    obtain ⟨f, hok, hf⟩ := BoundedBlockingQueue.statements_exec hq hr
    refine ⟨f, hok, fun hm => ?_⟩
    obtain ⟨bs, s, hs, hfair, hagrees⟩ := hf hm
    refine ⟨?_, bs, s, hs, hagrees⟩
    rw [hagrees.taken, hagrees.puts, hagrees.queue]
    exact hfair.order
  · intro as r hr
    obtain ⟨f, hok, hf⟩ := BlockingQueue.statements_exec hr
    refine ⟨f, hok, fun hm => ?_⟩
    obtain ⟨bs, s, hs, hfair, hagrees⟩ := hf hm
    refine ⟨?_, bs, s, hs, hagrees⟩
    rw [hagrees.taken, hagrees.puts, hagrees.queue]
    exact hfair.order

/-- Thread 1 wakes up spuriously while thread 2 is between its `push_back` and its `notify`. -/
def wokenBetween :
    List (Monitor.Fine.Action (BoundedBlockingQueue.Call Nat) BoundedBlockingQueue.Cond Nat) :=
  let all : Nat → Bool := fun _ => true
  [.call 1 .take, .lock 1, .next 1 all, .next 1 all, .call 2 (.put 7), .lock 2, .next 2 all,
    .next 2 all, .next 2 all, .wake .notEmpty 1, .call 3 .size, .next 2 all, .next 2 all, .lock 3,
    .next 3 all, .next 3 all, .relock 1, .next 1 all, .next 1 all, .next 1 all, .next 1 all,
    .next 1 all, .next 1 all]

/-- The same, where the item is taken by a thread that comes before the woken one is back. -/
def overtakenBetween : List (Monitor.Fine.Action (BlockingQueue.Call Nat) Unit Nat) :=
  let all : Nat → Bool := fun _ => true
  [.call 1 .take, .lock 1, .next 1 all, .next 1 all, .call 2 (.put 7), .lock 2, .next 2 all,
    .wake () 1, .call 3 .take, .next 2 all, .next 2 all, .lock 3, .next 3 all, .next 3 all,
    .next 3 all, .next 3 all, .relock 1, .next 1 all, .next 1 all]

theorem wokenBetween_refines :
    (∃ queue f, CircularBuffer.make 2 = some queue ∧
      (BoundedBlockingQueue.statements Nat).exec (.init queue) wokenBetween = some (.ok f) ∧
      f.mutex = none ∧ takesOf f.returned = [7] ∧
      takesOf f.returned ++ f.data.toList = putsOf f.returned) ∧
    ∃ f, (BlockingQueue.statements Nat).exec (.init []) overtakenBetween = some (.ok f) ∧
      f.mutex = none ∧ f.returned.map Prod.fst = [2, 3] ∧ (f.conds ()).waiting = [1] ∧
      takesOf f.returned ++ f.data = putsOf f.returned := by
  obtain ⟨f, hf, hrest⟩ := (statements_refine Nat).1 2 _ wokenBetween _ rfl rfl
  obtain ⟨g, hg, hrest'⟩ := (statements_refine Nat).2 overtakenBetween _ rfl
  cases hf
  cases hg
  exact ⟨⟨_, _, rfl, rfl, rfl, rfl, (hrest rfl).1⟩, _, rfl, rfl, rfl, rfl, (hrest' rfl).1⟩

end Rawmd
