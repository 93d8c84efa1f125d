import Mathlib.Data.List.Basic

/-!
# Condition variables

The threads `τ` that wait on a condition, and those that were woken and are on their way to
the mutex again.  `notify p` wakes the waiting threads that `p` chooses, at least one if there
is any (`mayNotify`); `wake` is a spurious wakeup; `resume` is the return of `wait`, with the
mutex.

`Covers cv n`: if a thread waits, at least `n` others are on their way.  With `n` the number of
things to be had, a `notify` for each new one keeps it, whoever takes them:

    Covers cv n → Covers (cv.notify p) (n + 1)                            (Covers.notify)
    Covers cv n → t ∈ cv.woken → Covers (cv.resume t) (n - 1)             (Covers.resume)
-/

structure CondVar (τ : Type) where
  waiting : List τ
  woken : List τ

namespace CondVar

variable {τ : Type}

def init : CondVar τ := ⟨[], []⟩

variable (cv : CondVar τ)

def wait (t : τ) : CondVar τ := { cv with waiting := cv.waiting ++ [t] }

def notify (p : τ → Bool) : CondVar τ where
  waiting := cv.waiting.filter fun t => !p t
  woken := cv.woken ++ cv.waiting.filter p

def mayNotify (p : τ → Bool) : Bool := cv.waiting.isEmpty || cv.waiting.any p

def notifyAll : CondVar τ := cv.notify fun _ => true

variable [DecidableEq τ]

def wake (t : τ) : CondVar τ where
  waiting := cv.waiting.erase t
  woken := cv.woken ++ [t]

def resume (t : τ) : CondVar τ := { cv with woken := cv.woken.erase t }

/-- Thread `t` is in a call of `wait`. -/
def blocks (t : τ) : Bool := decide (t ∈ cv.waiting) || decide (t ∈ cv.woken)

/-- A waiting thread leaves at most what the woken ones will take. -/
def Covers (cv : CondVar τ) (n : Nat) : Prop := cv.waiting ≠ [] → n ≤ cv.woken.length

/-- No thread waits beside work for it, with no other thread on its way. -/
def NoSleeper (cv : CondVar τ) (work : Bool) : Prop :=
  ¬ (cv.waiting ≠ [] ∧ work = true ∧ cv.woken = [])

omit [DecidableEq τ]

variable {cv} {n : Nat}

theorem Covers.init (n : Nat) : Covers (init : CondVar τ) n := fun h => absurd rfl h

theorem Covers.zero (cv : CondVar τ) : Covers cv 0 := fun _ => Nat.zero_le _

theorem Covers.mono {m : Nat} (h : Covers cv n) (hm : m ≤ n) : Covers cv m :=
  fun hw => Nat.le_trans hm (h hw)

theorem Covers.notify (h : Covers cv n) {p : τ → Bool} (hp : cv.mayNotify p = true) :
    Covers (cv.notify p) (n + 1) := by
  intro hw
  have hne : cv.waiting ≠ [] := by
    intro he
    rw [CondVar.notify, he] at hw
    exact hw rfl
  -- the one that is woken
  have hpos : 0 < (cv.waiting.filter p).length := by
    rw [mayNotify, Bool.or_eq_true, List.isEmpty_iff, List.any_eq_true] at hp
    obtain ⟨t, ht, hpt⟩ := hp.resolve_left hne
    exact List.length_pos_of_mem (List.mem_filter.2 ⟨ht, hpt⟩)
  have hn := h hne
  rw [CondVar.notify, List.length_append]
  omega

theorem waiting_notifyAll (cv : CondVar τ) : cv.notifyAll.waiting = [] := by
  simp [notifyAll, CondVar.notify]

theorem Covers.noSleeper (h : Covers cv n) {work : Bool} (hw : work = true → 0 < n) :
    cv.NoSleeper work := by
  rintro ⟨hne, hwork, hwoken⟩
  have hn := h hne
  rw [hwoken] at hn
  exact absurd (Nat.lt_of_lt_of_le (hw hwork) hn) (Nat.lt_irrefl 0)

variable [DecidableEq τ]

theorem Covers.wake (h : Covers cv n) (t : τ) : Covers (cv.wake t) n := by
  intro hw
  have hne : cv.waiting ≠ [] := by
    intro he
    rw [CondVar.wake, he] at hw
    exact hw rfl
  have hn := h hne
  rw [CondVar.wake, List.length_append]
  omega

theorem Covers.resume (h : Covers cv n) {t : τ} (ht : t ∈ cv.woken) :
    Covers (cv.resume t) (n - 1) := by
  intro hw
  have hn := h hw
  rw [CondVar.resume, List.length_erase_of_mem ht]
  omega

/-! ## The threads that are in it -/

omit [DecidableEq τ] in
theorem wait_perm (cv : CondVar τ) (t : τ) :
    ((cv.wait t).waiting ++ (cv.wait t).woken).Perm (cv.waiting ++ cv.woken ++ [t]) := by
  show (cv.waiting ++ [t] ++ cv.woken).Perm _
  rw [List.append_assoc, List.append_assoc]
  exact List.perm_append_comm.append_left _

omit [DecidableEq τ] in
theorem notify_perm (cv : CondVar τ) (p : τ → Bool) :
    ((cv.notify p).waiting ++ (cv.notify p).woken).Perm (cv.waiting ++ cv.woken) := by
  show (cv.waiting.filter (fun u => !p u) ++ (cv.woken ++ cv.waiting.filter p)).Perm _
  refine (List.Perm.append_left _ List.perm_append_comm).trans ?_
  rw [← List.append_assoc]
  refine List.Perm.append_right _ (List.perm_append_comm.trans ?_)
  exact List.filter_append_perm p cv.waiting

variable {t : τ}

theorem wake_perm (ht : t ∈ cv.waiting) :
    ((cv.wake t).waiting ++ (cv.wake t).woken).Perm (cv.waiting ++ cv.woken) := by
  show (cv.waiting.erase t ++ (cv.woken ++ [t])).Perm _
  refine (List.Perm.append_left _ List.perm_append_comm).trans ?_
  rw [← List.append_assoc]
  refine List.Perm.append_right _ (List.perm_append_comm.trans ?_)
  exact (List.perm_cons_erase ht).symm

theorem resume_perm (ht : t ∈ cv.woken) :
    ((cv.resume t).waiting ++ (cv.resume t).woken ++ [t]).Perm (cv.waiting ++ cv.woken) := by
  show (cv.waiting ++ cv.woken.erase t ++ [t]).Perm _
  rw [List.append_assoc]
  exact (List.perm_append_comm.trans (List.perm_cons_erase ht).symm).append_left _

theorem blocks_eq_false_iff : cv.blocks t = false ↔ t ∉ cv.waiting ++ cv.woken := by
  rw [blocks, ← Bool.decide_or, decide_eq_false_iff_not, List.mem_append]

end CondVar
