import Rawmd.Net.TimerQueueFire

/-!
# Ids of timers that are gone

`cancelInLoop(id)` looks for an address and a sequence number.  As long as no sequence number
is drawn twice, it touches no timer but its own, wherever a new one was put (`OnlyOwn`).  For a
timer that is gone it can do no more than note the id in `cancelingTimers_`, and an element
there that no timer has makes no difference to anything the queue does from then on (`Alike`).

    Effect s (cancelInLoop id) s', id is that of g      → OnlyOwn g s s'           (onlyOwn)
    Effect s (cancelInLoop id) s', g is deleted         → Alike id s s'            (Effect.alike)
    Alike k s r, step s a = .ok s', no timer has key k  → step r a is alike s'     (Alike.step)
-/

namespace Rawmd.TimerQueue

open MachineInt

/-! ## Sequence numbers -/

/-- The id of each timer has the number that the counter gave. -/
def State.Sequenced (s : State) : Prop :=
  ∀ c ∈ s.created, c.1.sequence = wrap 64 (c.2 + 1)

theorem Effect.numCreated_le {s s' : State} {a : Action} (he : Effect s a s') :
    s.numCreated ≤ s'.numCreated := by
  cases he with
  | newTimer _ _ _ => exact Nat.le_succ _
  | reset _ hl =>
    rw [rearmed_frame, hl.frame]
  | _ => exact le_rfl

theorem Effect.sequenced {s s' : State} {a : Action} (he : Effect s a s') (h : s.Sequenced) :
    s'.Sequenced := by
  cases he with
  | newTimer _ _ _ =>
    intro c hc
    rcases List.mem_append.1 hc with hc | hc
    · exact h c hc
    · rw [List.mem_singleton.1 hc]
  | reset _ hl =>
    rw [rearmed_frame, hl.frame]
    exact h
  | _ => exact h

/-- With fewer than `2 ^ 63` timers an id is that of one of them. -/
theorem State.Sequenced.born_eq {s : State} (h : s.Sequenced) (hm : Memory s)
    (hn : s.numCreated < 2 ^ 63) {timerId : TimerId} {g g' : Nat}
    (hg : (timerId, g) ∈ s.created) (hg' : (timerId, g') ∈ s.created) : g = g' := by
  have hfits : ∀ n : Nat, n < s.numCreated → wrap 64 (n + 1) = (n + 1 : Int) := by
    intro n hlt
    refine wrap_of_fits (by decide) ?_
    unfold Fits
    omega
  have h₁ := h (timerId, g) hg
  have h₂ := h (timerId, g') hg'
  simp only at h₁ h₂
  rw [hfits g (hm.created_lt _ hg)] at h₁
  rw [hfits g' (hm.created_lt _ hg')] at h₂
  omega

/-! ## What `cancelInLoop` touches -/

/-- From `s` to `s'` nothing happens to any live timer but `g`. -/
structure OnlyOwn (g : Nat) (s s' : State) : Prop where
  heap : ∀ p t, s.heap p = some t → t.born ≠ g → s'.heap p = some t
  sets : ∀ p t, s.heap p = some t → t.born ≠ g → (s'.InSets p t ↔ s.InSets p t)
  canceling : ∀ p t, s.heap p = some t → t.born ≠ g →
    (toLex (p, t.sequence) ∈ s'.cancelingTimers ↔ toLex (p, t.sequence) ∈ s.cancelingTimers)
  deleted : ∀ g' ∈ s'.deleted, g' ∈ s.deleted ∨ g' = g
  frame : s' = { s with
    timers := s'.timers
    activeTimers := s'.activeTimers
    heap := s'.heap
    deleted := s'.deleted
    cancelingTimers := s'.cancelingTimers }

section

variable {s s' : State} {timerId : TimerId} {g : Nat}

/-- A live timer with the key of an id is the timer of that id. -/
theorem Inv.born_of_key (h : Inv s) (hseq : s.Sequenced) (hn : s.numCreated < 2 ^ 63)
    (hid : (timerId, g) ∈ s.created) {p : Addr} {t : Timer} (ht : s.heap p = some t)
    (hp : p = timerId.timer) (hs : t.sequence = timerId.sequence) : t.born = g := by
  have hc := h.owned.memory.id_created p t ht
  rw [hp, hs] at hc
  exact hseq.born_eq h.owned.memory hn hc hid

theorem Inv.onlyOwn (h : Inv s) (hseq : s.Sequenced) (hn : s.numCreated < 2 ^ 63)
    (hid : (timerId, g) ∈ s.created) (he : Effect s (.cancelInLoop timerId) s') :
    OnlyOwn g s s' := by
  cases he with
  | @cancelActive _ t _ hw hs =>
    have hborn : t.born = g := h.born_of_key hseq hn hid hw.1 rfl hs
    -- another live timer is at another address
    have hne : ∀ p u, s.heap p = some u → u.born ≠ g → p ≠ timerId.timer := by
      rintro p u hu hb rfl
      rw [hw.1] at hu
      cases hu
      exact hb hborn
    refine ⟨fun p u hu hb => ?_, fun p u hu hb => ?_, fun _ _ _ _ => Iff.rfl, fun g' hg' => ?_,
      rfl⟩
    · exact (Function.update_of_ne (hne p u hu hb) _ _).trans hu
    · simp [State.InSets, State.dropped, State.erased, hne p u hu hb]
    · rw [← hborn]
      simpa [State.dropped, State.erased] using hg'
  | cancelNoted _ hnone _ =>
    refine ⟨fun _ _ hu _ => hu, fun _ _ _ _ => Iff.rfl, fun p u hu hb => ?_,
      fun _ hg' => .inl hg', rfl⟩
    rw [OrderedSet.mem_insert]
    refine or_iff_right fun heq => hb ?_
    simp only [EmbeddingLike.apply_eq_iff_eq, Prod.mk.injEq] at heq
    exact h.born_of_key hseq hn hid hu heq.1 heq.2
  | cancelStale _ _ _ =>
    exact ⟨fun _ _ hu _ => hu, fun _ _ _ _ => Iff.rfl, fun _ _ _ _ => Iff.rfl,
      fun _ hg' => .inl hg', rfl⟩

end

/-! ## Elements of `cancelingTimers_` that no timer has -/

/-- `s` with `C` for `cancelingTimers_`. -/
def State.noting (s : State) (C : OrderedSet ActiveTimer) : State := { s with cancelingTimers := C }

/-- `r` differs from `s` at most by `k` in `cancelingTimers_`. -/
def Alike (k : ActiveTimer) (s r : State) : Prop :=
  ∃ C, r = s.noting C ∧ ∀ x, x ≠ k → (x ∈ C ↔ x ∈ s.cancelingTimers)

/-- No live timer has the key `k`. -/
def State.Unused (s : State) (k : ActiveTimer) : Prop :=
  ∀ p t, s.heap p = some t → toLex (p, t.sequence) ≠ k

theorem Alike.refl (k : ActiveTimer) (s : State) : Alike k s s :=
  ⟨s.cancelingTimers, rfl, fun _ _ => Iff.rfl⟩

theorem Owned.noting {s : State} {out : List Addr} (h : Owned s out)
    (C : OrderedSet ActiveTimer) : Owned (s.noting C) out :=
  ⟨h.memory.congr rfl rfl rfl rfl rfl, h.sets.congr rfl rfl rfl rfl⟩

/-- No live timer has the key of a timer that is gone. -/
theorem Inv.unused_of_gone {s : State} {timerId : TimerId} {g : Nat} (h : Inv s)
    (hseq : s.Sequenced) (hn : s.numCreated < 2 ^ 63) (hid : (timerId, g) ∈ s.created)
    (hg : g ∈ s.deleted) : s.Unused (toLex (timerId.timer, timerId.sequence)) := by
  intro p t ht heq
  simp only [EmbeddingLike.apply_eq_iff_eq, Prod.mk.injEq] at heq
  apply h.owned.memory.live p t ht
  rw [h.born_of_key hseq hn hid ht heq.1 heq.2]
  exact hg

/-- All that a cancel of a timer that is gone can do is to note its key. -/
theorem Effect.alike {s s' : State} {timerId : TimerId}
    (he : Effect s (.cancelInLoop timerId) s')
    (hu : s.Unused (toLex (timerId.timer, timerId.sequence))) :
    Alike (toLex (timerId.timer, timerId.sequence)) s s' := by
  cases he with
  | cancelActive _ hw hs => exact absurd (by rw [hs]) (hu _ _ hw.1)
  | cancelNoted _ _ _ =>
    refine ⟨_, rfl, fun x hx => ?_⟩
    rw [OrderedSet.mem_insert]
    exact or_iff_right hx
  | cancelStale _ _ _ => exact Alike.refl _ s

theorem ResetLoop.deleted {now : Timestamp} {s s' : State} {l : List Entry}
    (h : ResetLoop now s l s') {g : Nat} (hg : g ∈ s.deleted) : g ∈ s'.deleted := by
  induction h with
  | nil s _ => exact hg
  | keep _ _ _ _ _ ih => exact ih hg
  | drop _ _ _ _ ih => exact ih (List.mem_append_left _ hg)

/-- What is deleted stays deleted. -/
theorem Effect.deleted {s s' : State} {a : Action} (he : Effect s a s') (h : Inv s) {g : Nat}
    (hg : g ∈ s.deleted) : g ∈ s'.deleted := by
  cases he with
  | cancelActive _ _ _ => exact List.mem_append_left _ hg
  | reset _ hl =>
    rw [rearmed_frame]
    exact hl.deleted hg
  | destroy _ hM hH =>
    -- it was handed over, and is not alive
    have hm := h.owned.memory
    rcases hM.kept g (hm.deleted_handed g hg) with hd | ⟨p, t, ht, rfl⟩
    · exact hd
    · exact absurd hg (hm.live p t ((hH p t).1 ht).1)
  | _ => exact hg

/-! ### The functions of the queue do not see them -/

section

variable (s : State) (C : OrderedSet ActiveTimer)

theorem foldlM_noting {β : Type} {f : State → β → Except Fault State}
    (hf : ∀ s b, f (s.noting C) b = (·.noting C) <$> f s b) (l : List β) :
    l.foldlM f (s.noting C) = (·.noting C) <$> l.foldlM f s := by
  induction l generalizing s with
  | nil => rfl
  | cons b l ih =>
    rw [List.foldlM_cons, List.foldlM_cons, hf, bind_map_left, map_bind]
    exact congrArg _ (funext fun t => ih t)

theorem eraseActive_noting (e : Entry) :
    (s.noting C).eraseActive e = (·.noting C) <$> s.eraseActive e := by
  simp only [State.eraseActive, map_bind, map_pure]
  rfl

theorem delete_noting (p : Addr) : (s.noting C).delete p = (·.noting C) <$> s.delete p := by
  simp only [State.delete, map_bind, map_pure]
  rfl

theorem getExpired_noting (now : Timestamp) :
    (s.noting C).getExpired now = (fun r => (r.1.noting C, r.2)) <$> s.getExpired now := by
  have hloop := foldlM_noting { s with timers := s.timers.atLeast (toLex (now, uintptrMax)) } C
    (fun u e => eraseActive_noting u C e) (s.timers.below (toLex (now, uintptrMax)))
  unfold State.getExpired
  simp only [map_bind, map_pure]
  refine congrArg _ (funext fun _ => congrArg _ (funext fun _ => ?_))
  refine Eq.trans (congrArg (· >>= _) hloop) ?_
  rw [bind_map_left]
  rfl

/-- `handleRead` clears `cancelingTimers_` first. -/
theorem collect_noting (now : Timestamp) : (s.noting C).collect now = s.collect now := by
  unfold State.collect
  refine Eq.trans (congrArg (· >>= _)
    (getExpired_noting { s with timerfd := s.timerfd.read } C now)) ?_
  rw [bind_map_left]
  rfl

theorem destroy_noting : (s.noting C).destroy = s.destroy := by
  unfold State.destroy
  refine Eq.trans (congrArg (· >>= _)
    (foldlM_noting s C (fun u e => delete_noting u C (ofLex e).2) s.timers.toList)) ?_
  rw [bind_map_left]
  rfl

end

section

variable {k : ActiveTimer} {C : OrderedSet ActiveTimer} {s s' r : State}

/-- The loop of `reset` looks up the timers of the batch, and `k` is none of them. -/
theorem ResetLoop.noting {now : Timestamp} {l : List Entry} (h : ResetLoop now s l s')
    (hu : s.Unused k) (hC : ∀ x, x ≠ k → (x ∈ C ↔ x ∈ s.cancelingTimers)) :
    l.foldlM (fun s e => s.resetOne now e) (s.noting C) = .ok (s'.noting C) := by
  induction h with
  | nil s _ => rfl
  | @keep s s' e l t ho ht hrep hn _ ih =>
    have hnC : toLex ((ofLex e).2, t.sequence) ∉ C := (hC _ (hu _ t ht)).not.2 hn
    have hone := (ho.noting C).resetOne_keep (t := t) ht now ⟨hrep, hnC⟩
    rw [List.foldlM_cons, hone, ok_bind]
    refine ih ?_ hC
    intro p u hpu
    simp only [State.restarted, State.inserted, Function.update_apply] at hpu
    split at hpu
    · next hp =>
      cases hpu
      rw [hp, Owned.restart_sequence]
      exact hu _ t ht
    · exact hu p u hpu
  | @drop s s' e l t ho ht hn _ ih =>
    have hnC : ¬ (t.repeats = true ∧ toLex ((ofLex e).2, t.sequence) ∉ C) := by
      rwa [hC _ (hu _ t ht)]
    have hone := Owned.resetOne_drop (s := s.noting C) (t := t) ht now hnC
    rw [List.foldlM_cons, hone, ok_bind]
    refine ih ?_ hC
    intro p u hpu
    simp only [State.dropped, Function.update_apply] at hpu
    split at hpu
    · cases hpu
    · exact hu p u hpu

theorem isEarliest_noting (s : State) (C : OrderedSet ActiveTimer) (when : Timestamp) :
    (s.noting C).isEarliest when = s.isEarliest when := rfl

theorem rearmed_noting (s : State) (C : OrderedSet ActiveTimer) :
    (s.noting C).rearmed = s.rearmed.noting C := by
  have hfirst : (s.noting C).timers.first? = s.timers.first? := rfl
  unfold State.rearmed
  rw [hfirst]
  split
  · rfl
  · split <;> rfl

/-- `cancelInLoop` finds the same timer, or notes the same id. -/
theorem Alike.cancelInLoop {timerId : TimerId} {out : List Addr} (hr : Alike k s r)
    (h : Owned s out) (hs : s.cancelInLoop timerId = .ok s') :
    ∃ r', r.cancelInLoop timerId = .ok r' ∧ Alike k s' r' := by
  obtain ⟨C, rfl, hC⟩ := hr
  rcases h.cancelInLoop_cases timerId with ⟨t, hw, hseq, heq⟩ | ⟨hnone, heq⟩
  · cases hs.symm.trans heq
    rcases (h.noting C).cancelInLoop_cases timerId with ⟨u, hwu, -, heq'⟩ | ⟨hnone, -⟩
    · have hu : s.heap timerId.timer = some u := hwu.1
      rw [hw.1] at hu
      cases hu
      exact ⟨_, heq', C, rfl, hC⟩
    · exact absurd hseq (hnone t hw)
  · cases hs.symm.trans heq
    rcases (h.noting C).cancelInLoop_cases timerId with ⟨u, hwu, hseq, -⟩ | ⟨-, heq'⟩
    · exact absurd hseq (hnone u hwu)
    · refine ⟨_, heq', ?_⟩
      by_cases hc : s.callingExpiredTimers = true
      · rw [if_pos hc, if_pos (show (s.noting C).callingExpiredTimers = true from hc)]
        refine ⟨_, rfl, fun x hx => ?_⟩
        simp only [State.noting, OrderedSet.mem_insert, hC x hx]
      · rw [if_neg hc, if_neg (show ¬ (s.noting C).callingExpiredTimers = true from hc)]
        exact ⟨C, rfl, hC⟩

/-- **Nothing depends on an element of `cancelingTimers_` that no timer has.** -/
theorem Alike.step {a : Action} (hr : Alike k s r) (h : Inv s) (hu : s.Unused k)
    (he : enabled s a = true) (hs : step s a = .ok s') :
    ∃ r', TimerQueue.step r a = .ok r' ∧ Alike k s' r' := by
  cases a with
  | cancelInLoop timerId => exact hr.cancelInLoop h.owned hs
  | addTimerInLoop p =>
    obtain ⟨C, rfl, hC⟩ := hr
    cases h.effect_of_step he hs with
    | addEarliest _ ht hb hearly =>
      have heq := (h.owned.noting C).addTimerInLoop_eq ht hb
      rw [isEarliest_noting, if_pos hearly] at heq
      exact ⟨_, heq, C, rfl, hC⟩
    | addLater _ ht hb hlate =>
      have heq := (h.owned.noting C).addTimerInLoop_eq ht hb
      rw [isEarliest_noting, hlate, if_neg Bool.false_ne_true] at heq
      exact ⟨_, heq, C, rfl, hC⟩
  | newTimer p when interval =>
    obtain ⟨C, rfl, hC⟩ := hr
    cases hs
    exact ⟨_, rfl, C, rfl, hC⟩
  | handleRead =>
    obtain ⟨C, rfl, hC⟩ := hr
    cases hs
    exact ⟨_, rfl, C, rfl, hC⟩
  | clock wall mono =>
    obtain ⟨C, rfl, hC⟩ := hr
    cases hs
    exact ⟨_, rfl, C, rfl, hC⟩
  | readTimerfd =>
    obtain ⟨C, rfl, hC⟩ := hr
    cases h.effect_of_step he hs with
    | readTimerfd hphase _ =>
      have hphase' : (s.noting C).phase = _ := hphase
      refine ⟨_, ?_, Alike.refl _ _⟩
      simp only [TimerQueue.step, hphase] at hs
      simp only [TimerQueue.step, hphase', collect_noting]
      exact hs
  | runCallback =>
    obtain ⟨C, rfl, hC⟩ := hr
    cases h.effect_of_step he hs with
    | runCallback hphase ht =>
      have hphase' : (s.noting C).phase = _ := hphase
      refine ⟨_, ?_, C, rfl, hC⟩
      simp only [TimerQueue.step, hphase', deref_some (s := s.noting C) ht]
      rfl
  | reset =>
    obtain ⟨C, rfl, hC⟩ := hr
    cases h.effect_of_step he hs with
    | @reset now expired u hphase hl =>
      have hphase' : (s.noting C).phase = _ := hphase
      refine ⟨_, ?_, C, rearmed_noting u C, ?_⟩
      · have hloop := hl.noting hu hC
        simp only [TimerQueue.step, hphase']
        unfold State.reset
        refine Eq.trans (congrArg (· >>= _) hloop) ?_
        exact (hl.owned.noting C).rearm_eq
      · rw [rearmed_frame, hl.frame]
        exact hC
  | destroy =>
    obtain ⟨C, rfl, hC⟩ := hr
    refine ⟨s', ?_, Alike.refl _ _⟩
    show (s.noting C).destroy = .ok s'
    rw [destroy_noting]
    exact hs

end

end Rawmd.TimerQueue
