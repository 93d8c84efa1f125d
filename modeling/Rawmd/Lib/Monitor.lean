import Rawmd.Lib.CondVar
import Rawmd.Lib.Machine
import Mathlib.Data.List.Basic
import Mathlib.Logic.Function.Basic

/-!
# Monitors

An object with one mutex and condition variables.  A call holds the mutex from its first statement
to its last, save while it waits.  `Monitor.fine` interleaves the single statements of the calls of
any threads; in `Monitor.atomic` a thread does in one step all that it does from having the mutex
until it waits or returns.  What happens to the object in the meantime are spurious wakeups, which
can as well come before the step (`Leads.wake`).

    fine.Simulates atomic Follows                                       (fine_simulates)

`Follows f a`: when the mutex is free, the object is the same in both, and the same threads wait;
in between, `a` is as it was when the thread inside got the mutex.
-/

/-! ## Condition variables up to the order of the woken threads -/

namespace CondVar

variable {τ : Type} {cv cv' cv'' : CondVar τ} {p : τ → Bool}

structure Same (cv cv' : CondVar τ) : Prop where
  waiting : cv.waiting = cv'.waiting
  woken : cv.woken.Perm cv'.woken

theorem Same.refl (cv : CondVar τ) : Same cv cv := ⟨rfl, .refl _⟩

theorem Same.symm (h : Same cv cv') : Same cv' cv := ⟨h.waiting.symm, h.woken.symm⟩

theorem Same.trans (h : Same cv cv') (h' : Same cv' cv'') : Same cv cv'' :=
  ⟨h.waiting.trans h'.waiting, h.woken.trans h'.woken⟩

theorem Same.wait (h : Same cv cv') (t : τ) : Same (cv.wait t) (cv'.wait t) :=
  ⟨congrArg (· ++ [t]) h.waiting, h.woken⟩

theorem Same.notify (h : Same cv cv') (p : τ → Bool) : Same (cv.notify p) (cv'.notify p) := by
  refine ⟨congrArg (List.filter _) h.waiting, ?_⟩
  show (cv.woken ++ cv.waiting.filter p).Perm (cv'.woken ++ cv'.waiting.filter p)
  rw [h.waiting]
  exact h.woken.append_right _

/-- `p` chooses the threads that a notify wakes: all of them, or at least one. -/
def allows (cv : CondVar τ) (all : Bool) (p : τ → Bool) : Bool :=
  if all then cv.waiting.all p else cv.mayNotify p

theorem Same.allows (h : Same cv cv') (all : Bool) (p : τ → Bool) :
    cv.allows all p = cv'.allows all p := by
  rw [CondVar.allows, CondVar.allows, CondVar.mayNotify, CondVar.mayNotify, h.waiting]

theorem mayNotify_true (cv : CondVar τ) : cv.mayNotify (fun _ => true) = true := by
  unfold CondVar.mayNotify
  cases cv.waiting with
  | nil => rfl
  | cons t ts => rfl

variable [DecidableEq τ] {t u : τ}

theorem Same.wake (h : Same cv cv') (t : τ) : Same (cv.wake t) (cv'.wake t) :=
  ⟨congrArg (List.erase · t) h.waiting, h.woken.append_right _⟩

theorem Same.resume (h : Same cv cv') (t : τ) : Same (cv.resume t) (cv'.resume t) :=
  ⟨h.waiting, h.woken.erase t⟩

theorem resume_wake (ht : t ∈ cv.woken) : (cv.wake u).resume t = (cv.resume t).wake u := by
  rw [CondVar.wake, CondVar.resume, CondVar.resume, CondVar.wake, List.erase_append_left _ ht]

theorem filter_erase_of_neg {l : List τ} (h : p u = false) :
    (l.erase u).filter p = l.filter p := by
  induction l with
  | nil => rfl
  | cons a l ih =>
    by_cases hau : a = u
    · subst hau
      rw [List.erase_cons_head, List.filter_cons_of_neg (by rw [h]; decide)]
    · rw [List.erase_cons_tail (by simpa using hau), List.filter_cons, List.filter_cons, ih]

/-- The thread that wakes up is not one that was notified, so it can wake up before. -/
theorem wake_notify (hu : u ∈ (cv.notify p).waiting) :
    Same ((cv.wake u).notify p) ((cv.notify p).wake u) := by
  have hp : p u = false := by simpa using (List.mem_filter.1 hu).2
  refine ⟨?_, ?_⟩
  · exact (List.erase_filter ..).symm
  · show (cv.woken ++ [u] ++ (cv.waiting.erase u).filter p).Perm
      (cv.woken ++ cv.waiting.filter p ++ [u])
    rw [filter_erase_of_neg hp, List.append_assoc, List.append_assoc]
    exact List.perm_append_comm.append_left _

theorem allows_wake (hu : u ∈ (cv.notify p).waiting) {all : Bool}
    (ha : cv.allows all p = true) : (cv.wake u).allows all p = true := by
  have hp : p u = false := by simpa using (List.mem_filter.1 hu).2
  have hmem := (List.mem_filter.1 hu).1
  unfold CondVar.allows at ha ⊢
  split at ha
  · next hall =>
    rw [List.all_eq_true] at ha
    rw [ha u hmem] at hp
    cases hp
  · next hall =>
    rw [if_neg hall]
    rw [mayNotify, Bool.or_eq_true, List.isEmpty_iff, List.any_eq_true] at ha ⊢
    rcases ha with he | ⟨v, hv, hpv⟩
    · rw [he] at hmem
      cases hmem
    · have hvu : v ≠ u := by
        rintro rfl
        rw [hp] at hpv
        cases hpv
      exact .inr ⟨v, (List.mem_erase_of_ne hvu).2 hv, hpv⟩

/-! ## How often a thread is in it -/

/-- How often `t` waits, or was woken and is not back. -/
def count (cv : CondVar τ) (t : τ) : Nat := (cv.waiting ++ cv.woken).count t

theorem count_notify (cv : CondVar τ) (p : τ → Bool) (t : τ) :
    (cv.notify p).count t = cv.count t :=
  (notify_perm cv p).count_eq t

theorem count_wait (cv : CondVar τ) (t u : τ) :
    (cv.wait t).count u = cv.count u + if t = u then 1 else 0 := by
  simp only [count, CondVar.wait, List.count_append, List.count_singleton, beq_iff_eq]
  omega

theorem count_wake (cv : CondVar τ) (hu : u ∈ cv.waiting) (t : τ) :
    (cv.wake u).count t = cv.count t :=
  (wake_perm hu).count_eq t

theorem count_resume (cv : CondVar τ) (ht : t ∈ cv.woken) (u : τ) :
    (cv.resume t).count u = cv.count u - if t = u then 1 else 0 := by
  simp only [count, CondVar.resume, List.count_append]
  by_cases htu : t = u
  · subst htu
    have hpos := List.count_pos_iff.2 ht
    rw [if_pos rfl, List.count_erase_self]
    omega
  · rw [if_neg htu, List.count_erase_of_ne (Ne.symm htu)]
    omega

theorem blocks_eq (cv : CondVar τ) (t : τ) : cv.blocks t = decide (0 < cv.count t) := by
  rw [CondVar.blocks, ← Bool.decide_or, count, decide_eq_decide, List.count_pos_iff,
    List.mem_append]

end CondVar

namespace Monitor

/-! ## Programs -/

/-- What a call does with the mutex, from a control point `π` to its next wait or its return:
it reads and writes the data `σ`, and notifies the conditions `ι`. -/
inductive Block (σ π ι ω ε : Type) where
  | read (k : σ → Block σ π ι ω ε)
  | write (f : σ → σ) (k : Block σ π ι ω ε)
  | notify (i : ι) (all : Bool) (k : Block σ π ι ω ε)
  /-- `wait` on `i`, which goes on at `p` -/
  | wait (i : ι) (p : π)
  | ret (v : ω)
  | fail (e : ε)

inductive End (π ι ω : Type) where
  | wait (i : ι) (p : π)
  | ret (v : ω)

variable {σ π ι ω ε τ : Type}

/-- The conditions after a `notify` of the threads that `p` chooses. -/
def notify [DecidableEq ι] (cs : ι → CondVar τ) (i : ι) (p : τ → Bool) : ι → CondVar τ :=
  Function.update cs i ((cs i).notify p)

def wake [DecidableEq ι] [DecidableEq τ] (cs : ι → CondVar τ) (i : ι) (u : τ) : ι → CondVar τ :=
  Function.update cs i ((cs i).wake u)

def resume [DecidableEq ι] [DecidableEq τ] (cs : ι → CondVar τ) (i : ι) (t : τ) :
    ι → CondVar τ :=
  Function.update cs i ((cs i).resume t)

def wait [DecidableEq ι] (cs : ι → CondVar τ) (i : ι) (t : τ) : ι → CondVar τ :=
  Function.update cs i ((cs i).wait t)

/-- A whole block, where `ps` are the choices of its notifies. -/
def Block.run [DecidableEq ι] :
    Block σ π ι ω ε → σ → (ι → CondVar τ) → List (τ → Bool) →
      Option (Except ε (σ × (ι → CondVar τ) × End π ι ω))
  | .read k, d, cs, ps => (k d).run d cs ps
  | .write f k, d, cs, ps => k.run (f d) cs ps
  | .notify i all k, d, cs, p :: ps =>
    if (cs i).allows all p then k.run d (Monitor.notify cs i p) ps else none
  | .notify .., _, _, [] => none
  | .wait i p, d, cs, [] => some (.ok (d, cs, .wait i p))
  | .ret v, d, cs, [] => some (.ok (d, cs, .ret v))
  | .fail e, _, _, [] => some (.error e)
  | .wait .., _, _, _ :: _ | .ret _, _, _, _ :: _ | .fail _, _, _, _ :: _ => none

/-! ## A step for each statement -/

/-- Where a thread is. -/
inductive Place (σ π ι ω ε : Type) where
  | outside
  /-- called, and at the mutex -/
  | entering (p : π)
  /-- with the mutex, before what is left of its block -/
  | inside (b : Block σ π ι ω ε)
  | waiting (i : ι) (p : π)

structure Fine (σ π ι ω ε τ : Type) where
  data : σ
  conds : ι → CondVar τ
  mutex : Option τ
  place : τ → Place σ π ι ω ε
  /-- ghost: what the calls returned, in that order -/
  returned : List (τ × ω)

namespace Fine

inductive Action (π ι τ : Type) where
  | call (t : τ) (p : π)
  | lock (t : τ)
  /-- the next statement of the thread that has the mutex; the last one gives the mutex back -/
  | next (t : τ) (choice : τ → Bool)
  /-- a spurious wakeup -/
  | wake (i : ι) (u : τ)
  /-- `wait` returns, with the mutex -/
  | relock (t : τ)

def init (d : σ) : Fine σ π ι ω ε τ := ⟨d, fun _ => .init, none, fun _ => .outside, []⟩

variable [DecidableEq ι] [DecidableEq τ]

def enabled (f : Fine σ π ι ω ε τ) : Action π ι τ → Bool
  | .call t _ =>
    match f.place t with
    | .outside => true
    | _ => false
  | .lock t =>
    match f.place t with
    | .entering _ => decide (f.mutex = none)
    | _ => false
  | .next t choice =>
    match f.place t with
    | .inside (.notify i all _) => (f.conds i).allows all choice
    | .inside _ => true
    | _ => false
  | .wake i u => decide (u ∈ (f.conds i).waiting)
  | .relock t =>
    match f.place t with
    | .waiting i _ => decide (f.mutex = none) && decide (t ∈ (f.conds i).woken)
    | _ => false

def setPlace (f : Fine σ π ι ω ε τ) (t : τ) (q : Place σ π ι ω ε) : Fine σ π ι ω ε τ :=
  { f with place := Function.update f.place t q }

/-- One statement of the thread `t`. -/
def next (f : Fine σ π ι ω ε τ) (t : τ) (choice : τ → Bool) :
    Block σ π ι ω ε → Except ε (Fine σ π ι ω ε τ)
  | .read k => .ok (f.setPlace t (.inside (k f.data)))
  | .write g k => .ok { f.setPlace t (.inside k) with data := g f.data }
  | .notify i _ k => .ok { f.setPlace t (.inside k) with conds := Monitor.notify f.conds i choice }
  | .wait i p =>
    .ok { f.setPlace t (.waiting i p) with conds := Monitor.wait f.conds i t, mutex := none }
  | .ret v => .ok { f.setPlace t .outside with mutex := none, returned := f.returned ++ [(t, v)] }
  | .fail e => .error e

def step (code : π → Block σ π ι ω ε) (f : Fine σ π ι ω ε τ) :
    Action π ι τ → Except ε (Fine σ π ι ω ε τ)
  | .call t p => .ok (f.setPlace t (.entering p))
  | .lock t =>
    match f.place t with
    | .entering p => .ok { f.setPlace t (.inside (code p)) with mutex := some t }
    | _ => .ok f
  | .next t choice =>
    match f.place t with
    | .inside b => f.next t choice b
    | _ => .ok f
  | .wake i u => .ok { f with conds := Monitor.wake f.conds i u }
  | .relock t =>
    match f.place t with
    | .waiting i p =>
      .ok { f.setPlace t (.inside (code p)) with
        conds := Monitor.resume f.conds i t
        mutex := some t }
    | _ => .ok f

end Fine

def fine (τ : Type) [DecidableEq ι] [DecidableEq τ] (code : π → Block σ π ι ω ε) :
    Machine (Fine σ π ι ω ε τ) (Fine.Action π ι τ) ε := ⟨Fine.enabled, Fine.step code⟩

/-! ## A step for each block -/

structure Atomic (σ π ι ω τ : Type) where
  data : σ
  conds : ι → CondVar τ
  /-- what the threads that wait do wait for, and where they go on -/
  asleep : τ → Option (ι × π)
  returned : List (τ × ω)

namespace Atomic

inductive Action (π ι τ : Type) where
  | enter (t : τ) (p : π) (choices : List (τ → Bool))
  | resume (t : τ) (choices : List (τ → Bool))
  | wake (i : ι) (u : τ)

def init (d : σ) : Atomic σ π ι ω τ := ⟨d, fun _ => .init, fun _ => none, []⟩

variable [DecidableEq ι] [DecidableEq τ]

def finish (a : Atomic σ π ι ω τ) (t : τ) :
    σ × (ι → CondVar τ) × End π ι ω → Atomic σ π ι ω τ
  | (d, cs, .wait i p) =>
    { a with
      data := d
      conds := Monitor.wait cs i t
      asleep := Function.update a.asleep t (some (i, p)) }
  | (d, cs, .ret v) =>
    { a with
      data := d
      conds := cs
      asleep := Function.update a.asleep t none
      returned := a.returned ++ [(t, v)] }

/-- What the block that the action executes comes to. -/
def result (code : π → Block σ π ι ω ε) (a : Atomic σ π ι ω τ) :
    Action π ι τ → Option (Except ε (Atomic σ π ι ω τ))
  | .enter t p choices =>
    if a.asleep t = none then
      ((code p).run a.data a.conds choices).map (Except.map (a.finish t))
    else none
  | .resume t choices =>
    match a.asleep t with
    | some (i, p) =>
      if t ∈ (a.conds i).woken then
        ((code p).run a.data (Monitor.resume a.conds i t) choices).map (Except.map (a.finish t))
      else none
    | none => none
  | .wake i u =>
    if u ∈ (a.conds i).waiting then some (.ok { a with conds := Monitor.wake a.conds i u })
    else none

end Atomic

def atomic (τ : Type) [DecidableEq ι] [DecidableEq τ] (code : π → Block σ π ι ω ε) :
    Machine (Atomic σ π ι ω τ) (Atomic.Action π ι τ) ε where
  enabled a b := (a.result code b).isSome
  step a b := (a.result code b).getD (.ok a)

/-! ## The same conditions -/

/-- Up to the order of the woken threads. -/
def SameConds (cs cs' : ι → CondVar τ) : Prop := ∀ i, CondVar.Same (cs i) (cs' i)

section

variable {cs cs' cs'' : ι → CondVar τ}

theorem SameConds.refl (cs : ι → CondVar τ) : SameConds cs cs := fun i => .refl (cs i)

theorem SameConds.symm (h : SameConds cs cs') : SameConds cs' cs := fun i => (h i).symm

theorem SameConds.trans (h : SameConds cs cs') (h' : SameConds cs' cs'') : SameConds cs cs'' :=
  fun i => (h i).trans (h' i)

variable [DecidableEq ι]

/-- What changes one condition, and the same one up to the order, keeps all of them the same. -/
theorem SameConds.update (h : SameConds cs cs') {i : ι} {cv cv' : CondVar τ}
    (hcv : CondVar.Same cv cv') :
    SameConds (Function.update cs i cv) (Function.update cs' i cv') := by
  intro j
  by_cases hj : j = i
  · subst hj
    rw [Function.update_self, Function.update_self]
    exact hcv
  · rw [Function.update_of_ne hj, Function.update_of_ne hj]
    exact h j

theorem SameConds.notify (h : SameConds cs cs') (i : ι) (p : τ → Bool) :
    SameConds (Monitor.notify cs i p) (Monitor.notify cs' i p) := h.update ((h i).notify p)

theorem SameConds.wait (h : SameConds cs cs') (i : ι) (t : τ) :
    SameConds (Monitor.wait cs i t) (Monitor.wait cs' i t) := h.update ((h i).wait t)

variable [DecidableEq τ]

theorem SameConds.wake (h : SameConds cs cs') (i : ι) (u : τ) :
    SameConds (Monitor.wake cs i u) (Monitor.wake cs' i u) := h.update ((h i).wake u)

theorem SameConds.resume (h : SameConds cs cs') (i : ι) (t : τ) :
    SameConds (Monitor.resume cs i t) (Monitor.resume cs' i t) := h.update ((h i).resume t)

variable {i j : ι} {t u : τ} {p : τ → Bool}

omit [DecidableEq τ] in
theorem mem_waiting_of_notify (hu : u ∈ (Monitor.notify cs j p i).waiting) :
    u ∈ (cs i).waiting := by
  unfold Monitor.notify at hu
  by_cases hij : i = j
  · subst hij
    rw [Function.update_self] at hu
    exact List.mem_of_mem_filter hu
  · rwa [Function.update_of_ne hij] at hu

/-- A thread that wakes up after a notify can as well wake up before. -/
theorem wake_notify (hu : u ∈ (Monitor.notify cs j p i).waiting) :
    SameConds (Monitor.notify (Monitor.wake cs i u) j p)
      (Monitor.wake (Monitor.notify cs j p) i u) := by
  intro k
  unfold Monitor.notify Monitor.wake at *
  by_cases hij : i = j
  · subst hij
    rw [Function.update_self] at hu
    simp only [Function.update_self, Function.update_idem]
    by_cases hk : k = i
    · subst hk
      rw [Function.update_self, Function.update_self]
      exact CondVar.wake_notify hu
    · rw [Function.update_of_ne hk, Function.update_of_ne hk]
      exact .refl _
  · rw [Function.update_of_ne (Ne.symm hij), Function.update_of_ne hij,
      Function.update_comm hij]
    exact .refl _

theorem allows_wake (hu : u ∈ (Monitor.notify cs j p i).waiting) {all : Bool}
    (ha : (cs j).allows all p = true) : (Monitor.wake cs i u j).allows all p = true := by
  unfold Monitor.wake
  by_cases hij : i = j
  · subst hij
    rw [Monitor.notify, Function.update_self] at hu
    rw [Function.update_self]
    exact CondVar.allows_wake hu ha
  · rwa [Function.update_of_ne (Ne.symm hij)]

/-- A thread wakes up beside one that returns from its wait. -/
theorem resume_wake (ht : t ∈ (cs i).woken) :
    Monitor.resume (Monitor.wake cs j u) i t = Monitor.wake (Monitor.resume cs i t) j u := by
  unfold Monitor.resume Monitor.wake
  by_cases hij : i = j
  · subst hij
    simp only [Function.update_self, Function.update_idem]
    rw [CondVar.resume_wake ht]
  · rw [Function.update_of_ne hij, Function.update_of_ne (Ne.symm hij), Function.update_comm hij]

theorem mem_waiting_resume (hu : u ∈ (Monitor.resume cs i t j).waiting) :
    u ∈ (cs j).waiting := by
  unfold Monitor.resume at hu
  by_cases hij : j = i
  · subst hij
    rwa [Function.update_self] at hu
  · rwa [Function.update_of_ne hij] at hu

theorem mem_woken_wake (ht : t ∈ (cs i).woken) : t ∈ (Monitor.wake cs j u i).woken := by
  unfold Monitor.wake
  by_cases hij : i = j
  · subst hij
    rw [Function.update_self]
    exact List.mem_append_left _ ht
  · rwa [Function.update_of_ne hij]

end

/-! ## Within a block -/

/-- A part of a block, from its beginning at `b₀`: the choices made so far, and what is left. -/
inductive Leads [DecidableEq ι] (b₀ : Block σ π ι ω ε) (d₀ : σ) (cs₀ : ι → CondVar τ) :
    List (τ → Bool) → Block σ π ι ω ε → σ → (ι → CondVar τ) → Prop where
  | start : Leads b₀ d₀ cs₀ [] b₀ d₀ cs₀
  | read {ps k d cs} (h : Leads b₀ d₀ cs₀ ps (.read k) d cs) : Leads b₀ d₀ cs₀ ps (k d) d cs
  | write {ps g k d cs} (h : Leads b₀ d₀ cs₀ ps (.write g k) d cs) : Leads b₀ d₀ cs₀ ps k (g d) cs
  | notify {ps i all k d cs p} (h : Leads b₀ d₀ cs₀ ps (.notify i all k) d cs)
    (hp : (cs i).allows all p = true) :
    Leads b₀ d₀ cs₀ (ps ++ [p]) k d (Monitor.notify cs i p)

section

variable [DecidableEq ι] {b₀ b : Block σ π ι ω ε} {d₀ d : σ} {cs₀ cs cs' : ι → CondVar τ}
  {ps : List (τ → Bool)}

/-- The rest of the block ends as the whole of it does. -/
theorem Leads.run (h : Leads b₀ d₀ cs₀ ps b d cs) (qs : List (τ → Bool)) :
    b₀.run d₀ cs₀ (ps ++ qs) = b.run d cs qs := by
  induction h generalizing qs with
  | start => rfl
  | read _ ih => exact ih qs
  | write _ ih => exact ih qs
  | @notify ps i all k d cs p _ hp ih =>
    rw [List.append_assoc, List.singleton_append, ih (p :: qs)]
    show (if (cs i).allows all p then _ else none) = _
    rw [if_pos hp]

variable [DecidableEq τ] {i : ι} {u : τ}

/-- A spurious wakeup within the block can as well come before it. -/
theorem Leads.wake (h : Leads b₀ d₀ cs₀ ps b d cs) (hu : u ∈ (cs i).waiting) :
    u ∈ (cs₀ i).waiting ∧
      ∃ cs', Leads b₀ d₀ (Monitor.wake cs₀ i u) ps b d cs' ∧
        SameConds cs' (Monitor.wake cs i u) := by
  induction h with
  | start => exact ⟨hu, _, .start, .refl _⟩
  | read _ ih =>
    obtain ⟨hmem, cs', hleads, hsame⟩ := ih hu
    exact ⟨hmem, cs', hleads.read, hsame⟩
  | write _ ih =>
    obtain ⟨hmem, cs', hleads, hsame⟩ := ih hu
    exact ⟨hmem, cs', hleads.write, hsame⟩
  | @notify ps j all k d cs p _ hp ih =>
    obtain ⟨hmem, cs', hleads, hsame⟩ := ih (mem_waiting_of_notify hu)
    have hallows : (cs' j).allows all p = true := by
      rw [(hsame j).allows]
      exact allows_wake hu hp
    exact ⟨hmem, _, hleads.notify hallows, (hsame.notify j p).trans (wake_notify hu)⟩

end

/-! ## The blocks in the place of their statements -/

section

variable [DecidableEq ι] [DecidableEq τ] {code : π → Block σ π ι ω ε}

/-- What the thread `t` has done since it got the mutex, where `a` is the object at that time. -/
def Within (code : π → Block σ π ι ω ε) (a : Atomic σ π ι ω τ) (t : τ) (b : Block σ π ι ω ε)
    (d : σ) (cs : ι → CondVar τ) : Prop :=
  ∃ p cs₀ ps cs', (a.asleep t = none ∧ cs₀ = a.conds ∨
      ∃ i, a.asleep t = some (i, p) ∧ t ∈ (a.conds i).woken ∧ cs₀ = Monitor.resume a.conds i t) ∧
    Leads (code p) a.data cs₀ ps b d cs' ∧ SameConds cs cs'

/-- The threads without the mutex are where they are in `a`. -/
def Apart (a : Atomic σ π ι ω τ) (t : τ) : Place σ π ι ω ε → Prop
  | .outside | .entering _ => a.asleep t = none
  | .inside _ => False
  | .waiting i p => a.asleep t = some (i, p)

structure Follows (code : π → Block σ π ι ω ε) (f : Fine σ π ι ω ε τ) (a : Atomic σ π ι ω τ) :
    Prop where
  returned : f.returned = a.returned
  apart : ∀ t, f.mutex ≠ some t → Apart a t (f.place t)
  free : f.mutex = none → f.data = a.data ∧ SameConds f.conds a.conds
  held : ∀ t, f.mutex = some t →
    ∃ b, f.place t = .inside b ∧ Within code a t b f.data f.conds

theorem Follows.init (code : π → Block σ π ι ω ε) (d : σ) :
    Follows (τ := τ) code (Fine.init d) (Atomic.init d) where
  returned := rfl
  apart _ _ := rfl
  free _ := ⟨rfl, .refl _⟩
  held _ h := by cases h

variable {a : Atomic σ π ι ω τ} {f : Fine σ π ι ω ε τ} {t u : τ} {b : Block σ π ι ω ε} {d : σ}
  {cs : ι → CondVar τ} {i : ι}

/-- The end of a block is a step of `atomic`. -/
theorem Within.result (h : Within code a t b d cs) :
    ∃ (act : Atomic.Action π ι τ) (cs' : ι → CondVar τ), SameConds cs cs' ∧
      a.result code act = (b.run d cs' []).map (Except.map (a.finish t)) := by
  obtain ⟨p, cs₀, ps, cs', henter, hleads, hsame⟩ := h
  have hrun := hleads.run []
  rw [List.append_nil] at hrun
  rcases henter with ⟨hnone, rfl⟩ | ⟨i, hsome, hwoken, rfl⟩
  · refine ⟨.enter t p ps, cs', hsame, ?_⟩
    rw [Atomic.result, if_pos hnone, hrun]
  · refine ⟨.resume t ps, cs', hsame, ?_⟩
    simp only [Atomic.result, hsome]
    rw [if_pos hwoken, hrun]

theorem Within.wake (h : Within code a t b d cs) (hu : u ∈ (cs i).waiting) :
    u ∈ (a.conds i).waiting ∧
      Within code { a with conds := Monitor.wake a.conds i u } t b d (Monitor.wake cs i u) := by
  obtain ⟨p, cs₀, ps, cs', henter, hleads, hsame⟩ := h
  rw [(hsame i).waiting] at hu
  obtain ⟨hmem, cs'', hleads', hsame'⟩ := hleads.wake hu
  have hsame'' : SameConds (Monitor.wake cs i u) cs'' := (hsame.wake i u).trans hsame'.symm
  rcases henter with ⟨hnone, rfl⟩ | ⟨j, hsome, hwoken, rfl⟩
  · exact ⟨hmem, p, _, ps, cs'', .inl ⟨hnone, rfl⟩, hleads', hsame''⟩
  · rw [← resume_wake hwoken] at hleads'
    exact ⟨mem_waiting_resume hmem, p, _, ps, cs'',
      .inr ⟨j, hsome, mem_woken_wake hwoken, rfl⟩, hleads', hsame''⟩

theorem Follows.mutex_of_inside (h : Follows code f a) (hb : f.place t = .inside b) :
    f.mutex = some t := by
  by_contra hm
  have hapart := h.apart t hm
  rw [hb] at hapart
  exact hapart

omit [DecidableEq ι] [DecidableEq τ] in
theorem Apart.congr {a' : Atomic σ π ι ω τ} {q : Place σ π ι ω ε} (h : Apart a t q)
    (ha : a'.asleep t = a.asleep t) : Apart a' t q := by
  cases q with
  | outside | entering _ | waiting _ _ => exact ha.trans h
  | inside _ => exact h

/-- The thread `t` is in its block. -/
theorem Follows.enter {f' : Fine σ π ι ω ε τ} (hreturned : f'.returned = a.returned)
    (hapart : ∀ u, u ≠ t → Apart a u (f.place u))
    (hplace : f'.place = Function.update f.place t (.inside b)) (hmutex : f'.mutex = some t)
    (hwithin : Within code a t b f'.data f'.conds) : Follows code f' a := by
  constructor
  · exact hreturned
  · intro u hu
    have hne : u ≠ t := by
      rintro rfl
      exact hu hmutex
    rw [hplace, Function.update_of_ne hne]
    exact hapart u hne
  · intro hnone
    rw [hmutex] at hnone
    cases hnone
  · intro u hu
    rw [hmutex] at hu
    cases hu
    exact ⟨b, by rw [hplace, Function.update_self], hwithin⟩

/-- The thread `t` is through with its block. -/
theorem Follows.leave {f' : Fine σ π ι ω ε τ} {a' : Atomic σ π ι ω τ} {q : Place σ π ι ω ε}
    {x : Option (ι × π)} (hreturned : f'.returned = a'.returned)
    (hapart : ∀ u, u ≠ t → Apart a u (f.place u))
    (hplace : f'.place = Function.update f.place t q) (hmutex : f'.mutex = none)
    (hasleep : a'.asleep = Function.update a.asleep t x) (hq : Apart a' t q)
    (hdata : f'.data = a'.data) (hconds : SameConds f'.conds a'.conds) : Follows code f' a' := by
  constructor
  · exact hreturned
  · intro u _
    rw [hplace]
    by_cases hne : u = t
    · subst hne
      rwa [Function.update_self]
    · rw [Function.update_of_ne hne]
      exact (hapart u hne).congr (by rw [hasleep, Function.update_of_ne hne])
  · exact fun _ => ⟨hdata, hconds⟩
  · intro u hu
    rw [hmutex] at hu
    cases hu

theorem atomic_run {act : Atomic.Action π ι τ} {a' : Atomic σ π ι ω τ}
    (h : a.result code act = some (.ok a')) : (atomic τ code).run a [act] = some a' := by
  refine Machine.run_single _ ?_ ?_
  · show (a.result code act).isSome = true
    rw [h]
    rfl
  · show (a.result code act).getD (.ok a) = .ok a'
    rw [h]
    rfl

theorem atomic_exec_error {act : Atomic.Action π ι τ} {e : ε}
    (h : a.result code act = some (.error e)) :
    (atomic τ code).exec a [act] = some (.error e) := by
  refine Machine.exec_single_error ?_ ?_
  · show (a.result code act).isSome = true
    rw [h]
    rfl
  · show (a.result code act).getD (.ok a) = .error e
    rw [h]
    rfl

/-- One statement of the thread that has the mutex: within its block nothing happens in `a`, and
at the end of the block, all of it. -/
theorem Follows.next (h : Follows code f a) (hb : f.place t = .inside b) {choice : τ → Bool}
    (hchoice : ∀ i all k, b = .notify i all k → (f.conds i).allows all choice = true) :
    (∃ f' a' bs, f.next t choice b = .ok f' ∧ (atomic τ code).run a bs = some a' ∧
      Follows code f' a') ∨
    ∃ e bs, f.next t choice b = .error e ∧ (atomic τ code).exec a bs = some (.error e) := by
  have hm := h.mutex_of_inside hb
  obtain ⟨b', hb', hwithin⟩ := h.held t hm
  rw [hb] at hb'
  cases hb'
  have hapart : ∀ u, u ≠ t → Apart a u (f.place u) := by
    intro u hu
    refine h.apart u ?_
    rw [hm]
    intro heq
    exact hu (Option.some.inj heq).symm
  have hwithin' := hwithin
  obtain ⟨p, cs₀, ps, cs', henter, hleads, hsame⟩ := hwithin'
  cases b with
  | read k =>
    refine .inl ⟨_, a, [], rfl, rfl, ?_⟩
    exact .enter (f := f) h.returned hapart rfl hm
      ⟨p, cs₀, ps, cs', henter, hleads.read, hsame⟩
  | write g k =>
    refine .inl ⟨_, a, [], rfl, rfl, ?_⟩
    exact .enter (f := f) h.returned hapart rfl hm
      ⟨p, cs₀, ps, cs', henter, hleads.write, hsame⟩
  | notify i all k =>
    have hallows : (cs' i).allows all choice = true := by
      rw [← (hsame i).allows]
      exact hchoice i all k rfl
    refine .inl ⟨_, a, [], rfl, rfl, ?_⟩
    exact .enter (f := f) h.returned hapart rfl hm
      ⟨p, cs₀, ps ++ [choice], _, henter, hleads.notify hallows, hsame.notify i choice⟩
  | wait i p' =>
    obtain ⟨act, cs'', hsame', hresult⟩ := hwithin.result
    refine .inl ⟨_, _, [act], rfl, atomic_run hresult, ?_⟩
    exact .leave (f := f) h.returned hapart rfl rfl rfl (Function.update_self ..) rfl
      (hsame'.wait i t)
  | ret v =>
    obtain ⟨act, cs'', hsame', hresult⟩ := hwithin.result
    refine .inl ⟨_, _, [act], rfl, atomic_run hresult, ?_⟩
    exact .leave (f := f) (congrArg (· ++ [(t, v)]) h.returned) hapart rfl rfl rfl
      (Function.update_self ..) rfl hsame'
  | fail e =>
    obtain ⟨act, cs'', -, hresult⟩ := hwithin.result
    exact .inr ⟨e, [act], rfl, atomic_exec_error hresult⟩

theorem Follows.call (h : Follows code f a) (hout : f.place t = .outside) (p : π) :
    Follows code (f.setPlace t (.entering p)) a := by
  refine ⟨h.returned, fun u hu => ?_, h.free, fun u hu => ?_⟩
  · show Apart a u (Function.update f.place t (.entering p) u)
    by_cases hut : u = t
    · subst hut
      rw [Function.update_self]
      have hapart := h.apart u hu
      rw [hout] at hapart
      exact hapart
    · rw [Function.update_of_ne hut]
      exact h.apart u hu
  · obtain ⟨b, hb, hwithin⟩ := h.held u hu
    have hne : u ≠ t := by
      rintro rfl
      rw [hout] at hb
      cases hb
    refine ⟨b, ?_, hwithin⟩
    show Function.update f.place t (.entering p) u = _
    rw [Function.update_of_ne hne, hb]

theorem Follows.apart_of_free (h : Follows code f a) (hm : f.mutex = none) (t : τ) :
    Apart a t (f.place t) := by
  refine h.apart t ?_
  rw [hm]
  intro heq
  cases heq

theorem Follows.lock (h : Follows code f a) {p : π} (hp : f.place t = .entering p)
    (hm : f.mutex = none) :
    Follows code { f.setPlace t (.inside (code p)) with mutex := some t } a := by
  have hapart := h.apart_of_free hm t
  rw [hp] at hapart
  obtain ⟨hdata, hsame⟩ := h.free hm
  refine .enter (f := f) h.returned (fun u _ => h.apart_of_free hm u) rfl rfl ?_
  refine ⟨p, a.conds, [], a.conds, .inl ⟨hapart, rfl⟩, ?_, hsame⟩
  show Leads (code p) a.data a.conds [] (code p) f.data a.conds
  rw [hdata]
  exact .start

theorem Follows.relock (h : Follows code f a) {p : π} (hp : f.place t = .waiting i p)
    (hm : f.mutex = none) (hwoken : t ∈ (f.conds i).woken) :
    Follows code { f.setPlace t (.inside (code p)) with
      conds := Monitor.resume f.conds i t
      mutex := some t } a := by
  have hapart := h.apart_of_free hm t
  rw [hp] at hapart
  obtain ⟨hdata, hsame⟩ := h.free hm
  refine .enter (f := f) h.returned (fun u _ => h.apart_of_free hm u) rfl rfl ?_
  refine ⟨p, _, [], _, .inr ⟨i, hapart, (hsame i).woken.mem_iff.1 hwoken, rfl⟩, ?_,
    hsame.resume i t⟩
  show Leads (code p) a.data _ [] (code p) f.data _
  rw [hdata]
  exact .start

/-- A spurious wakeup is one in `a`, also while another thread is in its block. -/
theorem Follows.wake (h : Follows code f a) (hu : u ∈ (f.conds i).waiting) :
    u ∈ (a.conds i).waiting ∧
      Follows code { f with conds := Monitor.wake f.conds i u }
        { a with conds := Monitor.wake a.conds i u } := by
  have hmem : u ∈ (a.conds i).waiting := by
    cases hm : f.mutex with
    | none =>
      rw [← ((h.free hm).2 i).waiting]
      exact hu
    | some t =>
      obtain ⟨b, -, hwithin⟩ := h.held t hm
      exact (hwithin.wake hu).1
  refine ⟨hmem, h.returned, fun t ht => (h.apart t ht).congr rfl, fun hm => ?_, fun t ht => ?_⟩
  · obtain ⟨hdata, hsame⟩ := h.free hm
    exact ⟨hdata, hsame.wake i u⟩
  · obtain ⟨b, hb, hwithin⟩ := h.held t ht
    exact ⟨b, hb, (hwithin.wake hu).2⟩

/-- What the environment allows, and what it leads to. -/
theorem Fine.step_cases (code : π → Block σ π ι ω ε) {act : Fine.Action π ι τ}
    (he : f.enabled act = true) :
    (∃ t p, f.place t = .outside ∧ f.step code act = .ok (f.setPlace t (.entering p))) ∨
    (∃ t p, f.place t = .entering p ∧ f.mutex = none ∧
      f.step code act = .ok { f.setPlace t (.inside (code p)) with mutex := some t }) ∨
    (∃ t choice b, f.place t = .inside b ∧
      (∀ i all k, b = .notify i all k → (f.conds i).allows all choice = true) ∧
      f.step code act = f.next t choice b) ∨
    (∃ i u, u ∈ (f.conds i).waiting ∧
      f.step code act = .ok { f with conds := Monitor.wake f.conds i u }) ∨
    ∃ t i p, f.place t = .waiting i p ∧ f.mutex = none ∧ t ∈ (f.conds i).woken ∧
      f.step code act = .ok { f.setPlace t (.inside (code p)) with
        conds := Monitor.resume f.conds i t
        mutex := some t } := by
  cases act with
  | call t p =>
    simp only [Fine.enabled] at he
    split at he
    · next hout => exact .inl ⟨t, p, hout, rfl⟩
    · cases he
  | lock t =>
    simp only [Fine.enabled] at he
    split at he
    · next p hp =>
      refine .inr (.inl ⟨t, p, hp, of_decide_eq_true he, ?_⟩)
      simp only [Fine.step, hp]
    · cases he
  | next t choice =>
    simp only [Fine.enabled] at he
    split at he
    · next i all k hp =>
      refine .inr (.inr (.inl ⟨t, choice, _, hp, ?_, ?_⟩))
      · rintro i' all' k' heq
        cases heq
        exact he
      · simp only [Fine.step, hp]
    · next b hb hp =>
      refine .inr (.inr (.inl ⟨t, choice, b, hp, ?_, ?_⟩))
      · rintro i all k rfl
        exact absurd rfl (hb i all k)
      · simp only [Fine.step, hp]
    · cases he
  | wake i u => exact .inr (.inr (.inr (.inl ⟨i, u, of_decide_eq_true he, rfl⟩)))
  | relock t =>
    simp only [Fine.enabled] at he
    split at he
    · next i p hp =>
      rw [Bool.and_eq_true, decide_eq_true_iff, decide_eq_true_iff] at he
      refine .inr (.inr (.inr (.inr ⟨t, i, p, hp, he.1, he.2, ?_⟩)))
      simp only [Fine.step, hp]
    · cases he

/-- A call does in one step what it does with the mutex: all that the single statements of any
threads can come to, whole blocks can. -/
theorem fine_simulates (code : π → Block σ π ι ω ε) :
    (fine τ code).Simulates (atomic τ code) (Follows code) := by
  intro f a act h he
  show (∃ f' a' bs, f.step code act = .ok f' ∧ _) ∨ ∃ e bs, f.step code act = .error e ∧ _
  rcases Fine.step_cases code he with ⟨t, p, hp, hs⟩ | ⟨t, p, hp, hm, hs⟩ |
    ⟨t, choice, b, hb, hchoice, hs⟩ | ⟨i, u, hu, hs⟩ | ⟨t, i, p, hp, hm, hwoken, hs⟩
  · exact .inl ⟨_, a, [], hs, rfl, h.call hp p⟩
  · exact .inl ⟨_, a, [], hs, rfl, h.lock hp hm⟩
  · rw [hs]
    exact h.next hb hchoice
  · obtain ⟨hmem, h'⟩ := h.wake hu
    refine .inl ⟨_, _, [.wake i u], hs, atomic_run ?_, h'⟩
    rw [Atomic.result, if_pos hmem]
  · exact .inl ⟨_, a, [], hs, rfl, h.relock hp hm hwoken⟩

/-! ## Who waits -/

/-- A thread that waits does so once, for its condition, and the others do not. -/
def Sleepers (a : Atomic σ π ι ω τ) : Prop :=
  ∀ i t, (a.conds i).count t = if (a.asleep t).map Prod.fst = some i then 1 else 0

theorem Sleepers.init (d : σ) : Sleepers (Atomic.init d : Atomic σ π ι ω τ) := fun _ _ => rfl

theorem count_notify (cs : ι → CondVar τ) (i j : ι) (p : τ → Bool) (t : τ) :
    (Monitor.notify cs i p j).count t = (cs j).count t := by
  unfold Monitor.notify
  by_cases hji : j = i
  · subst hji
    rw [Function.update_self, CondVar.count_notify]
  · rw [Function.update_of_ne hji]

/-- A block wakes threads, but they stay in their conditions. -/
theorem Block.count_run {d' : σ} {cs' : ι → CondVar τ} {ps : List (τ → Bool)} {e : End π ι ω}
    (h : b.run d cs ps = some (.ok (d', cs', e))) (j : ι) (u : τ) :
    (cs' j).count u = (cs j).count u := by
  induction b generalizing d cs ps with
  | read k ih => exact ih d h
  | write g k ih => exact ih h
  | notify i all k ih =>
    cases ps with
    | nil => cases h
    | cons p ps =>
      simp only [Block.run] at h
      split at h
      · rw [ih h, count_notify]
      · cases h
  | wait i p =>
    cases ps with
    | nil =>
      cases h
      rfl
    | cons p ps => cases h
  | ret v =>
    cases ps with
    | nil =>
      cases h
      rfl
    | cons p ps => cases h
  | fail e =>
    cases ps with
    | nil => cases h
    | cons p ps => cases h

/-- `t` is in no condition, the others as in `a`. -/
structure Without (a : Atomic σ π ι ω τ) (t : τ) (cs : ι → CondVar τ) : Prop where
  self : ∀ i, (cs i).count t = 0
  others : ∀ i u, u ≠ t →
    (cs i).count u = if (a.asleep u).map Prod.fst = some i then 1 else 0

/-- Where the thread `t` was in no condition, it is at the end in the one it waits for. -/
theorem Without.finish (h : Without a t cs) (e : End π ι ω) : Sleepers (a.finish t (d, cs, e)) := by
  intro j u
  cases e with
  | wait i p =>
    show (Monitor.wait cs i t j).count u =
      if (Function.update a.asleep t (some (i, p)) u).map Prod.fst = some j then 1 else 0
    unfold Monitor.wait
    by_cases hut : u = t
    · subst hut
      rw [Function.update_self]
      by_cases hji : j = i
      · subst hji
        rw [Function.update_self, CondVar.count_wait, h.self, if_pos rfl, Option.map_some,
          if_pos rfl]
      · rw [Function.update_of_ne hji, h.self, if_neg]
        exact fun heq => hji (Option.some.inj heq).symm
    · rw [Function.update_of_ne hut, ← h.others j u hut]
      by_cases hji : j = i
      · subst hji
        rw [Function.update_self, CondVar.count_wait, if_neg (Ne.symm hut)]
        rfl
      · rw [Function.update_of_ne hji]
  | ret v =>
    show (cs j).count u =
      if (Function.update a.asleep t none u).map Prod.fst = some j then 1 else 0
    by_cases hut : u = t
    · subst hut
      rw [Function.update_self]
      exact h.self j
    · rw [Function.update_of_ne hut]
      exact h.others j u hut

theorem Without.run (h : Without a t cs) {d' : σ} {cs' : ι → CondVar τ} {ps : List (τ → Bool)}
    {e : End π ι ω} (hr : b.run d cs ps = some (.ok (d', cs', e))) : Without a t cs' := by
  constructor
  · intro i
    rw [Block.count_run hr, h.self]
  · intro i u hu
    rw [Block.count_run hr, h.others i u hu]

theorem Sleepers.without (h : Sleepers a) (hnone : a.asleep t = none) : Without a t a.conds := by
  constructor
  · intro i
    rw [h i t, hnone]
    rfl
  · exact fun i u _ => h i u

theorem Sleepers.without_resume (h : Sleepers a) {p : π} (hsome : a.asleep t = some (i, p))
    (hwoken : t ∈ (a.conds i).woken) : Without a t (Monitor.resume a.conds i t) := by
  have hcount (j : ι) (u : τ) : (Monitor.resume a.conds i t j).count u =
      (a.conds j).count u - if j = i ∧ t = u then 1 else 0 := by
    unfold Monitor.resume
    by_cases hji : j = i
    · subst hji
      rw [Function.update_self, CondVar.count_resume _ hwoken]
      simp only [true_and]
    · rw [Function.update_of_ne hji, if_neg (fun hand => hji hand.1), Nat.sub_zero]
  constructor
  · intro j
    rw [hcount, h j t, hsome, Option.map_some]
    by_cases hji : j = i
    · subst hji
      rw [if_pos rfl, if_pos ⟨rfl, rfl⟩]
    · rw [if_neg fun heq => hji (Option.some.inj heq).symm, Nat.zero_sub]
  · intro j u hu
    rw [hcount, if_neg (fun hand => hu hand.2.symm), Nat.sub_zero]
    exact h j u

theorem map_eq_some_ok {x : Option (Except ε (σ × (ι → CondVar τ) × End π ι ω))}
    {a' : Atomic σ π ι ω τ} (h : x.map (Except.map (a.finish t)) = some (.ok a')) :
    ∃ d cs e, x = some (.ok (d, cs, e)) ∧ a' = a.finish t (d, cs, e) := by
  match x, h with
  | some (.ok (d, cs, e)), h =>
    cases h
    exact ⟨d, cs, e, rfl, rfl⟩

theorem Sleepers.result {act : Atomic.Action π ι τ} {a' : Atomic σ π ι ω τ} (h : Sleepers a)
    (hr : a.result code act = some (.ok a')) : Sleepers a' := by
  cases act with
  | enter t p ps =>
    simp only [Atomic.result] at hr
    split at hr
    · next hnone =>
      obtain ⟨d, cs, e, hrun, rfl⟩ := map_eq_some_ok hr
      exact ((h.without hnone).run hrun).finish e
    · cases hr
  | resume t ps =>
    simp only [Atomic.result] at hr
    split at hr
    · next i p hsome =>
      split at hr
      · next hwoken =>
        obtain ⟨d, cs, e, hrun, rfl⟩ := map_eq_some_ok hr
        exact ((h.without_resume hsome hwoken).run hrun).finish e
      · cases hr
    · cases hr
  | wake i u =>
    simp only [Atomic.result] at hr
    split at hr
    · next hmem =>
      cases hr
      intro j t
      show (Monitor.wake a.conds i u j).count t = _
      rw [← h j t, Monitor.wake]
      by_cases hji : j = i
      · subst hji
        rw [Function.update_self, CondVar.count_wake _ hmem]
      · rw [Function.update_of_ne hji]
    · cases hr

/-! ## Objects whose calls are single steps -/

/-- What a block of the thread `t` comes to, `M` comes to. -/
def Answers {S A : Type} (M : Machine S A ε) (R : Atomic σ π ι ω τ → S → Prop)
    (a : Atomic σ π ι ω τ) (t : τ) (s : S) :
    Except ε (σ × (ι → CondVar τ) × End π ι ω) → Prop
  | .ok e => ∃ s' bs, M.run s bs = some s' ∧ R (a.finish t e) s'
  | .error e => ∃ bs, M.exec s bs = some (.error e)

/-- `M` follows the blocks of the calls, if it does so for a thread that comes, for one that is
back from its `wait`, and for the wakeups. -/
theorem atomic_simulates_of {S A : Type} {M : Machine S A ε} {R : Atomic σ π ι ω τ → S → Prop}
    (henter : ∀ a s t p ps o, Sleepers a → R a s → a.asleep t = none →
      (code p).run a.data a.conds ps = some o → Answers M R a t s o)
    (hresume : ∀ a s t i p ps o, Sleepers a → R a s → a.asleep t = some (i, p) →
      t ∈ (a.conds i).woken →
      (code p).run a.data (Monitor.resume a.conds i t) ps = some o → Answers M R a t s o)
    (hwake : ∀ a s i u, Sleepers a → R a s → u ∈ (a.conds i).waiting →
      ∃ s' bs, M.run s bs = some s' ∧ R { a with conds := Monitor.wake a.conds i u } s') :
    (atomic τ code).Simulates M fun a s => Sleepers a ∧ R a s := by
  rintro a s act ⟨hs, h⟩ he
  show (∃ a' s' bs, (a.result code act).getD (.ok a) = .ok a' ∧ _) ∨
    ∃ e bs, (a.result code act).getD (.ok a) = .error e ∧ _
  obtain ⟨r, hr⟩ := Option.isSome_iff_exists.1 he
  rw [hr]
  have hsleep (a' : Atomic σ π ι ω τ) (ha : r = .ok a') : Sleepers a' := hs.result (ha ▸ hr)
  have hend (t : τ) (o : Except ε (σ × (ι → CondVar τ) × End π ι ω))
      (ho : Except.map (a.finish t) o = r) (hanswers : Answers M R a t s o) :
      (∃ a' s' bs, r = .ok a' ∧ M.run s bs = some s' ∧ Sleepers a' ∧ R a' s') ∨
      ∃ e bs, r = .error e ∧ M.exec s bs = some (.error e) := by
    subst ho
    cases o with
    | ok e =>
      obtain ⟨s', bs, hrun, hR⟩ := hanswers
      exact .inl ⟨_, s', bs, rfl, hrun, hsleep _ rfl, hR⟩
    | error e =>
      obtain ⟨bs, hexec⟩ := hanswers
      exact .inr ⟨e, bs, rfl, hexec⟩
  cases act with
  | enter t p ps =>
    simp only [Atomic.result] at hr
    split at hr
    · next hnone =>
      obtain ⟨o, ho, hmap⟩ := Option.map_eq_some_iff.1 hr
      exact hend t o hmap (henter a s t p ps o hs h hnone ho)
    · cases hr
  | resume t ps =>
    simp only [Atomic.result] at hr
    split at hr
    · next i p hsome =>
      split at hr
      · next hwoken =>
        obtain ⟨o, ho, hmap⟩ := Option.map_eq_some_iff.1 hr
        exact hend t o hmap (hresume a s t i p ps o hs h hsome hwoken ho)
      · cases hr
    · cases hr
  | wake i u =>
    simp only [Atomic.result] at hr
    split at hr
    · next hmem =>
      cases hr
      obtain ⟨s', bs, hrun, hR⟩ := hwake a s i u hs h hmem
      exact .inl ⟨_, s', bs, rfl, hrun, hsleep _ rfl, hR⟩
    · cases hr

/-- A thread that does not wait is in no condition. -/
theorem Sleepers.blocks_eq_false (h : Sleepers a) (hnone : a.asleep t = none) (i : ι) :
    (a.conds i).blocks t = false := by
  rw [CondVar.blocks_eq, h, hnone]
  rfl

end

end Monitor
