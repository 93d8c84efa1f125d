import Mathlib.Data.List.Basic

/-!
# Machines: executable step functions and their runs

A `Machine` has states `σ`, actions `α` and faults `ε`.  `enabled s a` says that the
environment may take action `a` in state `s`; `step s a` executes it, with `.error` for
a fault (a failed assertion, an access to a dead object).  `run` executes a list of
actions and is `none` as soon as one is not enabled or faults, so a run is a value that
can be evaluated.

    Keeps P I → I s → every step meets P → run s as = some t → I t      (Keeps.run)
    Safe I → I s → run s as = some t → I t                              (Safe.run)

`StepsMeet P s as` and `StatesMeet Q s as` say that every step taken meets `P` and that
every state passed meets `Q`; `statesMeet_iff_stepsMeet` compares the two along a run.
`exec` is `run` with the fault told apart from an action that is not enabled, and
`exec_isOk_iff` says which lists of actions meet no fault, `exec_isOk_iff_rest` so with an invariant
that depends on the actions still to come, `exec_isOk_of_countP_lt` that they meet none while some
of the actions are few, `exec_cases` which faults they may meet.  `via` renames the actions of a
machine.  `exists_run_iff` says when a machine takes all the actions that a second one, which
it follows, allows; `exists_run_and_iff`, when it also ends as that one does.  A machine that
`Simulates` a second one can do with some list of actions all that this one does.  `history` is
what an observer notes along a run, beside the states.
-/

structure Machine (σ α ε : Type) where
  enabled : σ → α → Bool
  step : σ → α → Except ε σ

namespace Machine

variable {σ α ε τ β δ : Type} (M : Machine σ α ε)

/-! ## Runs -/

def run : σ → List α → Option σ
  | s, [] => some s
  | s, a :: as =>
    if M.enabled s a then
      match M.step s a with
      | .ok t => run t as
      | .error _ => none
    else none

/-- Every step of the run `as` from `s` meets `P` (before, action, after). -/
def StepsMeet (P : σ → α → σ → Prop) : σ → List α → Prop
  | _, [] => True
  | s, a :: as => ∀ t, M.step s a = .ok t → P s a t ∧ StepsMeet P t as

/-- Every state on the run `as` from `s` (its ends included) meets `Q`. -/
def StatesMeet (Q : σ → Prop) : σ → List α → Prop
  | s, [] => Q s
  | s, a :: as => Q s ∧ ∀ t, M.step s a = .ok t → StatesMeet Q t as

theorem run_cons_iff (s u : σ) (a : α) (as : List α) :
    M.run s (a :: as) = some u ↔
      M.enabled s a = true ∧ ∃ t, M.step s a = .ok t ∧ M.run t as = some u := by
  simp only [run]
  constructor
  · intro h
    split at h
    · next he =>
      split at h
      · next t ht => exact ⟨he, t, ht, h⟩
      · cases h
    · cases h
  · rintro ⟨he, t, ht, h⟩
    rw [if_pos he, ht]
    exact h

theorem run_single {s t : σ} {a : α} (he : M.enabled s a = true) (h : M.step s a = .ok t) :
    M.run s [a] = some t :=
  (M.run_cons_iff s t a []).2 ⟨he, t, h, rfl⟩

theorem run_append_iff (s u : σ) (as bs : List α) :
    M.run s (as ++ bs) = some u ↔ ∃ t, M.run s as = some t ∧ M.run t bs = some u := by
  induction as generalizing s with
  | nil => simp [run]
  | cons a as ih =>
    rw [List.cons_append, run_cons_iff]
    simp only [ih, run_cons_iff]
    constructor
    · rintro ⟨he, t, ht, v, hv, hu⟩
      exact ⟨v, ⟨he, t, ht, hv⟩, hu⟩
    · rintro ⟨v, ⟨he, t, ht, hv⟩, hu⟩
      exact ⟨he, t, ht, v, hv, hu⟩

variable {M}

theorem StatesMeet.head {Q : σ → Prop} {s : σ} {as : List α} (h : M.StatesMeet Q s as) : Q s := by
  cases as with
  | nil => exact h
  | cons a as => exact h.1

/-! ## Invariants -/

/-- The steps that meet `P` keep `I`. -/
def Keeps (M : Machine σ α ε) (P : σ → α → σ → Prop) (I : σ → Prop) : Prop :=
  ∀ s a t, I s → P s a t → M.enabled s a = true → M.step s a = .ok t → I t

theorem Keeps.run {P : σ → α → σ → Prop} {I : σ → Prop} (hk : M.Keeps P I) {s t : σ} {as : List α}
    (hs : I s) (hP : M.StepsMeet P s as) (h : M.run s as = some t) : I t := by
  induction as generalizing s with
  | nil =>
    cases h
    exact hs
  | cons a as ih =>
    obtain ⟨he, u, hu, h⟩ := (M.run_cons_iff _ _ _ _).1 h
    obtain ⟨hPu, hP⟩ := hP u hu
    exact ih (hk s a u hs hPu he hu) hP h

theorem stepsMeet_cons_iff {P : σ → α → σ → Prop} {s t : σ} {a : α} {as : List α}
    (h : M.step s a = .ok t) : M.StepsMeet P s (a :: as) ↔ P s a t ∧ M.StepsMeet P t as := by
  constructor
  · intro hs
    exact hs t h
  · intro hs u hu
    rw [h] at hu
    cases hu
    exact hs

/-- Along a given run, a decidable condition can be tested. -/
instance decidableStepsMeet {P : σ → α → σ → Prop} [∀ s a t, Decidable (P s a t)] :
    ∀ (s : σ) (as : List α), Decidable (M.StepsMeet P s as)
  | _, [] => isTrue trivial
  | s, a :: as =>
    match h : M.step s a with
    | .ok t =>
      have := decidableStepsMeet (P := P) t as
      decidable_of_iff (P s a t ∧ M.StepsMeet P t as) (stepsMeet_cons_iff h).symm
    | .error _ => isTrue (by intro t ht; rw [h] at ht; cases ht)

theorem stepsMeet_true (s : σ) (as : List α) : M.StepsMeet (fun _ _ _ => True) s as := by
  induction as generalizing s with
  | nil => trivial
  | cons a as ih => exact fun t _ => ⟨trivial, ih t⟩

/-- What steps that meet `P` meet as well, along a run that starts where `I` holds. -/
theorem StepsMeet.imp {I : σ → Prop} {P Q : σ → α → σ → Prop}
    (h : ∀ s a t, I s → P s a t → M.enabled s a = true → M.step s a = .ok t → I t ∧ Q s a t)
    {s u : σ} {as : List α} (hs : I s) (hP : M.StepsMeet P s as) (hr : M.run s as = some u) :
    M.StepsMeet Q s as := by
  induction as generalizing s with
  | nil => trivial
  | cons a as ih =>
    obtain ⟨he, t, ht, hr⟩ := (M.run_cons_iff _ _ _ _).1 hr
    obtain ⟨hP, hrest⟩ := hP t ht
    obtain ⟨hI, hQ⟩ := h s a t hs hP he ht
    exact (stepsMeet_cons_iff ht).2 ⟨hQ, ih hI hrest hr⟩

theorem Keeps.run_all {I : σ → Prop} (hk : M.Keeps (fun _ _ _ => True) I) {s t : σ} {as : List α}
    (hs : I s) (h : M.run s as = some t) : I t :=
  hk.run hs (stepsMeet_true s as) h

/-- `I` holds along runs, and no enabled action faults where `I` holds. -/
def Safe (M : Machine σ α ε) (I : σ → Prop) : Prop :=
  ∀ s a, I s → M.enabled s a = true → ∃ t, M.step s a = .ok t ∧ I t

theorem Safe.keeps {I : σ → Prop} (h : M.Safe I) : M.Keeps (fun _ _ _ => True) I := by
  intro s a t hs _ he ht
  obtain ⟨u, hu, hI⟩ := h s a hs he
  rw [ht] at hu
  cases hu
  exact hI

theorem Safe.run {I : σ → Prop} (h : M.Safe I) {s t : σ} {as : List α} (hs : I s)
    (hr : M.run s as = some t) : I t :=
  h.keeps.run_all hs hr

/-- If, where `I` and `Q` hold, exactly the steps that meet `P` lead to states that meet `Q`,
then along a run all states meet `Q` exactly if all steps meet `P`.  `I` has to be kept only
between states that meet `Q`. -/
theorem statesMeet_iff_stepsMeet {I Q : σ → Prop} {P : σ → α → σ → Prop}
    (hI : ∀ s a t, I s → Q s → Q t → M.enabled s a = true → M.step s a = .ok t → I t)
    (hQ : ∀ s a t, I s → Q s → M.enabled s a = true → M.step s a = .ok t → (Q t ↔ P s a t))
    {s u : σ} {as : List α} (hs : I s) (hq : Q s) (hr : M.run s as = some u) :
    M.StatesMeet Q s as ↔ M.StepsMeet P s as := by
  induction as generalizing s with
  | nil => exact iff_of_true hq trivial
  | cons a as ih =>
    obtain ⟨he, t, ht, hr⟩ := (M.run_cons_iff _ _ _ _).1 hr
    constructor
    · rintro ⟨-, hall⟩
      have htail := hall t ht
      have hqt : Q t := htail.head
      have hIt : I t := hI s a t hs hq hqt he ht
      exact (stepsMeet_cons_iff ht).2 ⟨(hQ s a t hs hq he ht).1 hqt, (ih hIt hqt hr).1 htail⟩
    · intro hall
      obtain ⟨hP, htail⟩ := hall t ht
      have hqt : Q t := (hQ s a t hs hq he ht).2 hP
      have hIt : I t := hI s a t hs hq hqt he ht
      refine ⟨hq, fun t' ht' => ?_⟩
      rw [ht] at ht'
      cases ht'
      exact (ih hIt hqt hr).2 htail

theorem Safe.statesMeet_iff_stepsMeet {I Q : σ → Prop} {P : σ → α → σ → Prop} (hI : M.Safe I)
    (hQ : ∀ s a t, I s → Q s → M.enabled s a = true → M.step s a = .ok t → (Q t ↔ P s a t))
    {s u : σ} {as : List α} (hs : I s) (hq : Q s) (hr : M.run s as = some u) :
    M.StatesMeet Q s as ↔ M.StepsMeet P s as :=
  Machine.statesMeet_iff_stepsMeet
    (fun s a t hs _ _ he ht => hI.keeps s a t hs trivial he ht) hQ hs hq hr

/-! ## Faults -/

variable (M) in
/-- As `run`, up to the first fault. -/
def exec : σ → List α → Option (Except ε σ)
  | s, [] => some (.ok s)
  | s, a :: as =>
    if M.enabled s a then
      match M.step s a with
      | .ok t => exec t as
      | .error e => some (.error e)
    else none

/-- If, where `I` holds of the actions still to come and the state, exactly the actions that meet
`P` do not fault, then a list of actions ends without a fault, in a state that meets `Q`, exactly
if all of them meet `P`. -/
theorem exec_isOk_iff_rest {I : List α → σ → Prop} {Q : σ → Prop} {P : α → Prop}
    (hQ : ∀ s, I [] s → Q s)
    (hok : ∀ s a as, I (a :: as) s → M.enabled s a = true → P a →
      ∃ t, M.step s a = .ok t ∧ I as t)
    (honly : ∀ s a as t, I (a :: as) s → M.enabled s a = true → M.step s a = .ok t → P a)
    {s : σ} {as : List α} {r : Except ε σ} (hs : I as s) (h : M.exec s as = some r) :
    (∃ t, r = .ok t ∧ Q t) ↔ ∀ a ∈ as, P a := by
  induction as generalizing s with
  | nil =>
    cases h
    exact iff_of_true ⟨s, rfl, hQ s hs⟩ (fun a ha => absurd ha List.not_mem_nil)
  | cons a as ih =>
    rw [List.forall_mem_cons]
    simp only [exec] at h
    split at h
    · next he =>
      constructor
      · rintro ⟨t, rfl, ht⟩
        split at h
        · next u hu =>
          have hP := honly s a as u hs he hu
          obtain ⟨v, hv, hI⟩ := hok s a as hs he hP
          rw [hu] at hv
          cases hv
          exact ⟨hP, (ih hI h).1 ⟨t, rfl, ht⟩⟩
        · cases h
      · rintro ⟨hP, hall⟩
        obtain ⟨u, hu, hI⟩ := hok s a as hs he hP
        rw [hu] at h
        exact (ih hI h).2 hall
    · cases h

theorem exec_isOk_iff {I Q : σ → Prop} {P : α → Prop} (hQ : ∀ s, I s → Q s)
    (hok : ∀ s a, I s → M.enabled s a = true → P a → ∃ t, M.step s a = .ok t ∧ I t)
    (honly : ∀ s a t, I s → M.enabled s a = true → M.step s a = .ok t → P a)
    {s : σ} {as : List α} {r : Except ε σ} (hs : I s) (h : M.exec s as = some r) :
    (∃ t, r = .ok t ∧ Q t) ↔ ∀ a ∈ as, P a :=
  exec_isOk_iff_rest (I := fun _ => I) hQ (fun s a _ => hok s a) (fun s a _ t => honly s a t) hs h

/-- If the actions that `p` counts never fault before there are `bound` of them, and the others
never do, then a list with fewer of them ends without a fault, and `I` holds there. -/
theorem exec_isOk_of_countP_lt {I : σ → Prop} (count : σ → Nat) (p : α → Bool) {bound : Nat}
    (hstep : ∀ s a, I s → M.enabled s a = true → count s + [a].countP p < bound →
      ∃ t, M.step s a = .ok t ∧ I t ∧ count t = count s + [a].countP p)
    {s : σ} {as : List α} {r : Except ε σ} (hs : I s) (h : M.exec s as = some r)
    (hlt : count s + as.countP p < bound) :
    ∃ t, r = .ok t ∧ I t ∧ count t = count s + as.countP p := by
  -- the actions counted and those still to come are as many as at the start
  refine (exec_isOk_iff_rest (P := fun _ => True)
    (I := fun rest t => I t ∧ count t + rest.countP p = count s + as.countP p)
    (fun t ht => ht) (fun t a rest ht he _ => ?_) (fun _ _ _ _ _ _ _ => trivial)
    ⟨hs, rfl⟩ h).2 fun _ _ => trivial
  obtain ⟨hI, hcount⟩ := ht
  have hsplit : ([a] ++ rest).countP p = [a].countP p + rest.countP p := List.countP_append
  rw [List.singleton_append] at hsplit
  obtain ⟨u, hu, hIu, hcountu⟩ := hstep t a hI he (by omega)
  exact ⟨u, hu, hIu, by omega⟩

/-- What the steps keep where they succeed, and the faults `E` they may meet, along a whole
list of actions. -/
theorem exec_cases {P : σ → α → σ → Prop} {I : σ → Prop} {E : ε → Prop}
    (hstep : ∀ s a, I s → M.enabled s a = true → (∀ t, M.step s a = .ok t → P s a t) →
      (∃ t, M.step s a = .ok t ∧ I t) ∨ ∃ e, M.step s a = .error e ∧ E e)
    {s : σ} {as : List α} {r : Except ε σ} (hs : I s) (hP : M.StepsMeet P s as)
    (h : M.exec s as = some r) : (∃ t, r = .ok t ∧ I t) ∨ ∃ e, r = .error e ∧ E e := by
  induction as generalizing s with
  | nil =>
    cases h
    exact .inl ⟨s, rfl, hs⟩
  | cons a as ih =>
    simp only [exec] at h
    split at h
    · next he =>
      rcases hstep s a hs he (fun t ht => (hP t ht).1) with ⟨t, ht, hI⟩ | ⟨e, hte, hE⟩
      · rw [ht] at h
        exact ih hI (hP t ht).2 h
      · rw [hte] at h
        cases h
        exact .inr ⟨e, rfl, hE⟩
    · cases h

theorem Safe.exec {I : σ → Prop} (h : M.Safe I) {s : σ} {as : List α} {r : Except ε σ} (hs : I s)
    (hr : M.exec s as = some r) : ∃ t, r = .ok t ∧ I t := by
  rcases exec_cases (P := fun _ _ _ => True) (I := I) (E := fun _ => False)
    (fun s a hs he _ => .inl (h s a hs he)) hs (stepsMeet_true s as) hr with ht | ⟨_, _, hfalse⟩
  · exact ht
  · exact absurd hfalse not_false

/-! ## Actions that stand for others -/

/-- The machine whose action `b` is the action `f s b` of `M`. -/
def via (M : Machine σ α ε) (f : σ → β → α) : Machine σ β ε where
  enabled s b := M.enabled s (f s b)
  step s b := M.step s (f s b)

theorem Safe.via {I : σ → Prop} (h : M.Safe I) (f : σ → β → α) : (M.via f).Safe I :=
  fun s b hs he => h s (f s b) hs he

/-! ## Machines that follow each other -/

/-- What one action keeps between two machines, a list of actions keeps. -/
theorem run_both {H : Machine τ α δ} {B : σ → τ → Prop}
    (hstay : ∀ s h a h' s', B s h → H.step h a = .ok h' → M.step s a = .ok s' → B s' h')
    {s t : σ} {h u : τ} {as : List α} (hb : B s h) (ht : M.run s as = some t)
    (hr : H.run h as = some u) : B t u := by
  induction as generalizing s h with
  | nil =>
    cases hr
    cases ht
    exact hb
  | cons a as ih =>
    obtain ⟨-, h', hh', hr⟩ := (H.run_cons_iff _ _ _ _).1 hr
    obtain ⟨-, s', hs', ht⟩ := (M.run_cons_iff _ _ _ _).1 ht
    exact ih (hstay s h a h' s' hb hh' hs') ht hr

/-- `M` follows `H` along `R` where the actions meet `P`.  After an action that does not, `M` has
either stopped or is in a state that meets `B`, and `B` stays.  If `R` gives `Q` and `B` excludes
it, then `M` takes a whole list of actions of `H` and ends with `Q` exactly if all of them
meet `P`. -/
theorem exists_run_and_iff {H : Machine τ α δ} {R B Q : σ → τ → Prop} {P : τ → α → τ → Prop}
    (htake : ∀ s h a h', R s h → H.enabled h a = true → H.step h a = .ok h' → P h a h' →
      M.enabled s a = true ∧ ∃ s', M.step s a = .ok s' ∧ R s' h')
    (hbad : ∀ s h a h' s', R s h → H.enabled h a = true → H.step h a = .ok h' → ¬ P h a h' →
      M.enabled s a = true → M.step s a = .ok s' → B s' h')
    (hstay : ∀ s h a h' s', B s h → H.step h a = .ok h' → M.step s a = .ok s' → B s' h')
    (hR : ∀ s h, R s h → Q s h) (hB : ∀ s h, B s h → ¬ Q s h)
    {s : σ} {h u : τ} {as : List α} (hs : R s h) (hr : H.run h as = some u) :
    (∃ t, M.run s as = some t ∧ Q t u) ↔ H.StepsMeet P h as := by
  induction as generalizing s h with
  | nil =>
    cases hr
    exact iff_of_true ⟨s, rfl, hR s u hs⟩ trivial
  | cons a as ih =>
    obtain ⟨he, h', hh', hr⟩ := (H.run_cons_iff _ _ _ _).1 hr
    rw [stepsMeet_cons_iff hh']
    constructor
    · rintro ⟨t, ht, hq⟩
      obtain ⟨hen, s', hs', ht⟩ := (M.run_cons_iff _ _ _ _).1 ht
      by_cases hP : P h a h'
      · obtain ⟨-, s'', hs'', hR'⟩ := htake s h a h' hs he hh' hP
        rw [hs'] at hs''
        cases hs''
        exact ⟨hP, (ih hR' hr).1 ⟨t, ht, hq⟩⟩
      · have hb := hbad s h a h' s' hs he hh' hP hen hs'
        exact absurd hq (hB t u (run_both hstay hb ht hr))
    · rintro ⟨hP, hall⟩
      obtain ⟨hen, s', hs', hR'⟩ := htake s h a h' hs he hh' hP
      obtain ⟨t, ht, hq⟩ := (ih hR' hr).2 hall
      exact ⟨t, (M.run_cons_iff _ _ _ _).2 ⟨hen, s', hs', ht⟩, hq⟩

/-- If `M` takes an action that `H` allows exactly where `P` holds, it takes a whole list of them
exactly if all of them meet `P`. -/
theorem exists_run_iff {H : Machine τ α δ} {R : σ → τ → Prop} {P : τ → α → τ → Prop}
    (htake : ∀ s h a h', R s h → H.enabled h a = true → H.step h a = .ok h' → P h a h' →
      M.enabled s a = true ∧ ∃ s', M.step s a = .ok s' ∧ R s' h')
    (honly : ∀ s h a h', R s h → H.enabled h a = true → H.step h a = .ok h' →
      M.enabled s a = true → P h a h')
    {s : σ} {h u : τ} {as : List α} (hs : R s h) (hr : H.run h as = some u) :
    (∃ t, M.run s as = some t) ↔ H.StepsMeet P h as := by
  have hiff := M.exists_run_and_iff (B := fun _ _ => False) (Q := fun _ _ => True) htake
    (fun s h a h' _ hs he hh' hP hen _ => hP (honly s h a h' hs he hh' hen))
    (fun _ _ _ _ _ hb _ _ => hb) (fun _ _ _ => trivial) (fun _ _ hb _ => hb) hs hr
  simpa only [and_true] using hiff

/-! ## Machines that simulate each other -/

theorem exec_append {s t : σ} {as : List α} (h : M.run s as = some t) (bs : List α) :
    M.exec s (as ++ bs) = M.exec t bs := by
  induction as generalizing s with
  | nil =>
    cases h
    rfl
  | cons a as ih =>
    obtain ⟨he, u, hu, h⟩ := (M.run_cons_iff _ _ _ _).1 h
    rw [List.cons_append]
    show (if M.enabled s a then _ else none) = _
    rw [if_pos he, hu]
    exact ih h

theorem exec_of_run {s t : σ} {as : List α} (h : M.run s as = some t) :
    M.exec s as = some (.ok t) := by
  rw [← List.append_nil as, exec_append h]
  rfl

theorem exec_single_error {s : σ} {a : α} {e : ε} (he : M.enabled s a = true)
    (h : M.step s a = .error e) : M.exec s [a] = some (.error e) := by
  simp only [exec]
  rw [if_pos he, h]

/-- `H` can do what `M` does: it ends in a related state, or with the same fault. -/
def Simulates (M : Machine σ α ε) (H : Machine τ β ε) (R : σ → τ → Prop) : Prop :=
  ∀ s h a, R s h → M.enabled s a = true →
    (∃ s' h' bs, M.step s a = .ok s' ∧ H.run h bs = some h' ∧ R s' h') ∨
    ∃ e bs, M.step s a = .error e ∧ H.exec h bs = some (.error e)

/-- What a step of `M` has as its counterpart in `H`, a whole list of actions has. -/
theorem Simulates.exec {H : Machine τ β ε} {R : σ → τ → Prop} (hsim : M.Simulates H R) {s : σ}
    {h : τ} {as : List α} {r : Except ε σ} (hs : R s h) (hr : M.exec s as = some r) :
    (∃ t h' bs, r = .ok t ∧ H.run h bs = some h' ∧ R t h') ∨
    ∃ e bs, r = .error e ∧ H.exec h bs = some (.error e) := by
  induction as generalizing s h with
  | nil =>
    cases hr
    exact .inl ⟨s, h, [], rfl, rfl, hs⟩
  | cons a as ih =>
    simp only [Machine.exec] at hr
    split at hr
    · next he =>
      rcases hsim s h a hs he with ⟨s', h', bs, hs', hbs, hR⟩ | ⟨e, bs, hse, hbs⟩
      · rw [hs'] at hr
        rcases ih hR hr with ⟨t, h'', cs, rfl, hcs, hR'⟩ | ⟨e, cs, rfl, hcs⟩
        · exact .inl ⟨t, h'', bs ++ cs, rfl, (H.run_append_iff _ _ _ _).2 ⟨h', hbs, hcs⟩, hR'⟩
        · exact .inr ⟨e, bs ++ cs, rfl, (exec_append hbs cs).trans hcs⟩
      · rw [hse] at hr
        cases hr
        exact .inr ⟨e, bs, rfl, hbs⟩
    · cases hr

/-- `H` does in several steps what `M` does in one, and so does a machine that `H` follows. -/
theorem Simulates.run {H : Machine τ β ε} {R : σ → τ → Prop} (hsim : M.Simulates H R) {s t : σ}
    {h : τ} {as : List α} (hs : R s h) (hr : M.run s as = some t) :
    ∃ h' bs, H.run h bs = some h' ∧ R t h' := by
  rcases hsim.exec hs (exec_of_run hr) with ⟨t', h', bs, ht, hbs, hR⟩ | ⟨e, bs, he, -⟩
  · cases ht
    exact ⟨h', bs, hbs, hR⟩
  · cases he

theorem Simulates.trans {υ γ : Type} {H : Machine τ β ε} {K : Machine υ γ ε} {R : σ → τ → Prop}
    {Q : τ → υ → Prop} (hM : M.Simulates H R) (hH : H.Simulates K Q) :
    M.Simulates K fun s k => ∃ h, R s h ∧ Q h k := by
  rintro s k a ⟨h, hs, hk⟩ he
  rcases hM s h a hs he with ⟨s', h', bs, hs', hbs, hR⟩ | ⟨e, bs, hse, hbs⟩
  · obtain ⟨k', cs, hcs, hQ⟩ := hH.run hk hbs
    exact .inl ⟨s', k', cs, hs', hcs, h', hR, hQ⟩
  · rcases hH.exec hk hbs with ⟨t, h', cs, hok, -⟩ | ⟨e', cs, herr, hcs⟩
    · cases hok
    · cases herr
      exact .inr ⟨e, cs, hse, hcs⟩

/-! ## Histories -/

variable (M) in
/-- What an observer of the run `as` has noted at its end, who notes `obs s a` at each step. -/
def history (obs : σ → α → List β) : σ → List α → List β
  | _, [] => []
  | s, a :: as =>
    match M.step s a with
    | .ok t => obs s a ++ history obs t as
    | .error _ => []

/-- What a step keeps of a state and the notes so far, a run keeps. -/
theorem run_history {obs : σ → α → List β} {I : σ → List β → Prop}
    (hstep : ∀ s l a t, I s l → M.enabled s a = true → M.step s a = .ok t → I t (l ++ obs s a))
    {s u : σ} {l : List β} {as : List α} (hs : I s l) (hr : M.run s as = some u) :
    I u (l ++ M.history obs s as) := by
  induction as generalizing s l with
  | nil =>
    cases hr
    rw [history, List.append_nil]
    exact hs
  | cons a as ih =>
    obtain ⟨he, t, ht, hr⟩ := (M.run_cons_iff _ _ _ _).1 hr
    have hl := ih (hstep s l a t hs he ht) hr
    rw [List.append_assoc] at hl
    simp only [history, ht]
    exact hl

/-- The same for notes that the actions alone decide. -/
theorem run_filterMap {f : α → Option β} {I : σ → List β → Prop}
    (hstep : ∀ s l a t, I s l → M.enabled s a = true → M.step s a = .ok t →
      I t (l ++ (f a).toList))
    {s u : σ} {l : List β} {as : List α} (hs : I s l) (hr : M.run s as = some u) :
    I u (l ++ as.filterMap f) := by
  induction as generalizing s l with
  | nil =>
    cases hr
    rw [List.filterMap_nil, List.append_nil]
    exact hs
  | cons a as ih =>
    obtain ⟨he, t, ht, hr⟩ := (M.run_cons_iff _ _ _ _).1 hr
    have hl := ih (hstep s l a t hs he ht) hr
    have hcons : (a :: as).filterMap f = (f a).toList ++ as.filterMap f := by
      rw [List.filterMap_cons]
      cases f a <;> rfl
    rw [hcons, ← List.append_assoc]
    exact hl

end Machine
