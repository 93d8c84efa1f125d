import Rawmd.Net.EventLoopTimersCancel
import Rawmd.Net.TimerQueueStale

/-!
# The ids that `addTimer` returns

`addTimer` reads `timer->sequence()` after its `runInLoop`, when another thread may have run and
deleted the timer already.  If each of these reads comes before the deletion (`ReturnsLive`),
no id is returned twice, and a `cancel` concerns the timer of its id alone: executed for one that
is gone, it leaves a loop that goes on as it would have without it.

    a step of the loop is at most one step of its queue        (Wf.step_projects)
    ReturnsLive, a step                   → Issued is kept     (Issued.move)
    Alike k s r, run s bs = some s'       → run r bs is alike  (Alike.run)
-/

namespace Rawmd.EventLoopTimers

open TimerQueue (Inv Effect OnlyOwn Alike ActiveTimer)

/-! ## Steps of the queue -/

/-- `s` with `C` for the `cancelingTimers_` of its queue. -/
def State.noting (s : State) (C : OrderedSet ActiveTimer) : State :=
  { s with queue := s.queue.noting C }

theorem enabled_noting (s : State) (C : OrderedSet ActiveTimer) (a : Action) :
    enabled (s.noting C) a = enabled s a := by
  cases a with
  | queue a => cases a <;> rfl
  | loop a =>
    cases a with
    | queueInLoop t cb => cases cb <;> rfl
    | runInLoop t cb => cases cb <;> rfl
    | _ => rfl
  | _ => rfl

/-- A step is no step of the queue, or one, and what it does besides does not depend on
`cancelingTimers_`. -/
inductive Projects (s : State) (a : Action) (s' : State) : Prop where
  | none : s'.queue = s.queue → (∀ C, step (s.noting C) a = .ok (s'.noting C)) → Projects s a s'
  | one {b : TimerQueue.Action} : TimerQueue.enabled s.queue b = true →
      TimerQueue.step s.queue b = .ok s'.queue →
      (∀ C q, TimerQueue.step (s.queue.noting C) b = .ok q →
        step (s.noting C) a = .ok { s' with queue := q }) → Projects s a s'

/-- A step that is the call of a functor, after a change `u` of what is around the queue. -/
theorem Projects.of_call {s u s' : State} {a : Action} {cb : Functor} (huq : u.queue = s.queue)
    (hcall : ∀ C, step (s.noting C) a = (u.noting C).call cb) (hu : s.queue.inUserCode = true)
    (hf : ∀ p g, cb = .addTimerInLoop p g → s.queue.Fresh p g) (hs : u.call cb = .ok s') :
    Projects s a s' := by
  cases cb with
  | addTimerInLoop p g =>
    obtain ⟨q, hq, rfl⟩ := liftQueue_ok hs
    obtain ⟨⟨t, ht, rfl⟩, hg⟩ := hf p g rfl
    refine .one (b := .addTimerInLoop p) ?_ (huq ▸ hq) fun C q' hq' => ?_
    · simp [TimerQueue.enabled, hu, TimerQueue.State.isFresh, ht, hg]
    · rw [hcall]
      show (u.noting C).liftQueue ((u.queue.noting C).addTimerInLoop p) = _
      rw [huq, show (s.queue.noting C).addTimerInLoop p = .ok q' from hq']
      rfl
  | cancelInLoop timerId born =>
    obtain ⟨q, hq, rfl⟩ := liftQueue_ok hs
    refine .one (b := .cancelInLoop timerId) hu (huq ▸ hq) fun C q' hq' => ?_
    rw [hcall]
    show State.liftQueue _ ((u.queue.noting C).cancelInLoop timerId) = _
    rw [huq, show (s.queue.noting C).cancelInLoop timerId = .ok q' from hq']
    rfl
  | user n =>
    cases hs
    exact .none huq fun C => hcall C

theorem Wf.step_projects {s s' : State} {a : Action} (h : Wf s) (he : enabled s a = true)
    (hs : step s a = .ok s') : Projects s a s' := by
  cases a with
  | loop a =>
    obtain ⟨l, hl, rfl⟩ := liftLoop_ok hs
    refine .none rfl fun C => ?_
    show (s.noting C).liftLoop (EventLoop.step s.loop a) = _
    rw [hl]
    rfl
  | callFunctor =>
    obtain ⟨cb, rest, l, hpc, hstep, hw, hu, hs⟩ := callFunctor_call he hs
    -- the call is that of `cb` in the loop after it
    have hcall : ∀ C, step (s.noting C) .callFunctor =
        State.call (State.noting { s with loop := l } C) cb := by
      intro C
      have hpc' : (s.noting C).loop.pc = _ := hpc
      have hstep' : EventLoop.step (s.noting C).loop .callFunctor = .ok l := hstep
      simp only [step, hpc', hstep']
      rfl
    exact .of_call (u := { s with loop := l }) rfl hcall hu (h.fresh_of_waiting hw) hs
  | newTimer t p request =>
    cases hs
    simp only [enabled, Bool.and_eq_true] at he
    refine .one (b := .newTimer p _ _) he.2 rfl fun C q hq => ?_
    cases hq
    rfl
  | runAdd t =>
    obtain ⟨p, g, ht, hu, hs⟩ := runAdd_runInLoop he hs
    have hrun : ∀ C, step (s.noting C) (.runAdd t) = State.runInLoop
        (State.noting { s with adding := Function.update s.adding t (.ran p g) } C) t
        (.addTimerInLoop p g) := by
      intro C
      have ht' : (s.noting C).adding t = _ := ht
      simp only [step, ht']
      rfl
    simp only [State.runInLoop] at hs
    split at hs
    · next hin =>
      exact .of_call (u := { s with adding := Function.update s.adding t (.ran p g) }) rfl
        (fun C => (hrun C).trans (if_pos hin)) (hu hin) (h.fresh_of_created ht) hs
    · next hin =>
      cases hs
      exact .none rfl fun C => (hrun C).trans (if_neg hin)
  | returnId t garbage =>
    obtain ⟨p, g, ht, rfl⟩ := returnId_eq he hs
    refine .none rfl fun C => ?_
    have ht' : (s.noting C).adding t = _ := ht
    simp only [step, ht']
    rfl
  | cancel t timerId born =>
    obtain ⟨-, hu⟩ := cancel_returned he
    simp only [step, State.runInLoop] at hs
    split at hs
    · next hin =>
      exact .of_call rfl (fun C => if_pos hin) (hu hin) (by simp) hs
    · next hin =>
      cases hs
      exact .none rfl fun C => if_neg hin
  | queue a =>
    obtain ⟨q, hq, rfl⟩ := liftQueue_ok hs
    refine .one (enabled_of_queueEnabled he) hq fun C q' hq' => ?_
    show (s.noting C).liftQueue (TimerQueue.step (s.queue.noting C) a) = _
    rw [hq']
    rfl

/-- What stays in a queue as time goes on. -/
structure Onward (q q' : TimerQueue.State) : Prop where
  numCreated : q.numCreated ≤ q'.numCreated
  sequenced : q.Sequenced → q'.Sequenced
  created : ∀ c ∈ q.created, c ∈ q'.created
  deleted : ∀ g ∈ q.deleted, g ∈ q'.deleted

theorem Onward.refl (q : TimerQueue.State) : Onward q q :=
  ⟨le_rfl, id, fun _ hc => hc, fun _ hg => hg⟩

theorem Onward.trans {q q' q'' : TimerQueue.State} (h : Onward q q') (h' : Onward q' q'') :
    Onward q q'' :=
  ⟨h.numCreated.trans h'.numCreated, fun hs => h'.sequenced (h.sequenced hs),
    fun c hc => h'.created c (h.created c hc), fun g hg => h'.deleted g (h.deleted g hg)⟩

theorem Projects.onward {s s' : State} {a : Action} (hp : Projects s a s') (h : Inv s.queue) :
    Onward s.queue s'.queue := by
  cases hp with
  | none hq _ =>
    rw [hq]
    exact .refl _
  | one he hs _ =>
    have hef := h.effect_of_step he hs
    exact ⟨hef.numCreated_le, hef.sequenced, hef.created, fun g hg => hef.deleted h hg⟩

theorem Wf.run_onward {s s' : State} {bs : List Action} (h : Wf s)
    (hr : machine.run s bs = some s') : Wf s' ∧ Onward s.queue s'.queue := by
  have hk : machine.Keeps (fun _ _ _ => True) fun u => Wf u ∧ Onward s.queue u.queue := by
    rintro u a u' ⟨h, ho⟩ - he hs
    exact ⟨h.move (h.step_move he hs), ho.trans ((h.step_projects he hs).onward h.inv)⟩
  exact hk.run_all ⟨h, .refl _⟩ hr

/-! ## The ids of a run -/

/-- The timer of an `addTimer` that is about to return is not among `deleted`. -/
def Adding.Live (deleted : List Nat) : Adding → Prop
  | .ran _ g => g ∉ deleted
  | .idle | .created _ _ => True

instance decidableLive (deleted : List Nat) : (a : Adding) → Decidable (a.Live deleted)
  | .ran _ g => inferInstanceAs (Decidable (g ∉ deleted))
  | .idle | .created _ _ => inferInstanceAs (Decidable True)

/-- An `addTimer` reads the sequence number of its timer before the timer is deleted. -/
def ReturnsLive (s : State) (a : Action) (_ : State) : Prop :=
  match a with
  | .returnId t _ => (s.adding t).Live s.queue.deleted
  | _ => True

instance decidableReturnsLive (s : State) (a : Action) (t : State) :
    Decidable (ReturnsLive s a t) :=
  match a with
  | .returnId u _ => inferInstanceAs (Decidable ((s.adding u).Live s.queue.deleted))
  | .loop _ | .callFunctor | .newTimer _ _ _ | .runAdd _ | .cancel _ _ _ | .queue _ =>
    inferInstanceAs (Decidable True)

/-- The number of the timer of an `addTimer` in progress. -/
def Adding.born? : Adding → Option Nat
  | .idle => none
  | .created _ g => some g
  | .ran _ g => some g

structure Issued (s : State) : Prop where
  sequenced : s.queue.Sequenced
  own : ∀ c ∈ s.returned, c ∈ s.queue.created
  once : (s.returned.map Prod.snd).Nodup
  calls : ∀ t g, (s.adding t).born? = some g → g ∉ s.returned.map Prod.snd
  calls_inj : ∀ t u g, (s.adding t).born? = some g → (s.adding u).born? = some g → t = u

theorem Wf.born_lt {s : State} (h : Wf s) {t : Tid} {g : Nat}
    (ht : (s.adding t).born? = some g) : g < s.queue.numCreated := by
  have hm := h.inv.owned.memory
  cases ha : s.adding t with
  | idle =>
    rw [ha] at ht
    cases ht
  | created p g' =>
    rw [ha] at ht
    cases ht
    obtain ⟨⟨timer, htimer, rfl⟩, -⟩ := (h.created_fresh t p g ha).1
    exact hm.born_lt p timer htimer
  | ran p g' =>
    rw [ha] at ht
    cases ht
    obtain ⟨-, seq, hc⟩ := h.ran t p g ha
    exact hm.created_lt _ hc

namespace Issued

variable {s s' : State}

theorem init (tid : Tid) (wall : Timestamp) (mono : Int) : Issued (init tid wall mono) := by
  constructor <;> simp [EventLoopTimers.init, TimerQueue.init, TimerQueue.State.Sequenced,
    Adding.born?]

/-- The same calls of `addTimer` are in progress. -/
theorem congr (hi : Issued s) (ho : Onward s.queue s'.queue)
    (hcalls : ∀ t, (s'.adding t).born? = (s.adding t).born?) (hr : s'.returned = s.returned) :
    Issued s' := by
  refine ⟨ho.sequenced hi.sequenced, ?_, ?_, ?_, ?_⟩
  · rw [hr]
    exact fun c hc => ho.created c (hi.own c hc)
  · rw [hr]
    exact hi.once
  · simp only [hcalls, hr]
    exact hi.calls
  · simp only [hcalls]
    exact hi.calls_inj

/-- The number of a new timer is that of no other one. -/
theorem newTimer (hi : Issued s) (h : Wf s) {t : Tid} {a : Adding}
    (ho : Onward s.queue s'.queue) (ha : s'.adding = Function.update s.adding t a)
    (hborn : a.born? = some s.queue.numCreated) (hr : s'.returned = s.returned) : Issued s' := by
  have hcases : ∀ u g, (s'.adding u).born? = some g →
      u = t ∧ g = s.queue.numCreated ∨ (s.adding u).born? = some g := by
    intro u g hu
    rw [ha, Function.update_apply] at hu
    split at hu
    · next hut => exact .inl ⟨hut, Option.some.inj (hu.symm.trans hborn)⟩
    · exact .inr hu
  refine ⟨ho.sequenced hi.sequenced, ?_, ?_, ?_, ?_⟩
  · rw [hr]
    exact fun c hc => ho.created c (hi.own c hc)
  · rw [hr]
    exact hi.once
  · intro u g hu
    rw [hr]
    rcases hcases u g hu with ⟨-, rfl⟩ | hu
    · intro hm
      obtain ⟨c, hc, hcg⟩ := List.mem_map.1 hm
      have := h.inv.owned.memory.created_lt c (hi.own c hc)
      omega
    · exact hi.calls u g hu
  · intro u v g hu hv
    rcases hcases u g hu with ⟨rfl, hg⟩ | hu <;> rcases hcases v g hv with ⟨rfl, hg'⟩ | hv
    · rfl
    · exact absurd (h.born_lt hv) (by omega)
    · exact absurd (h.born_lt hu) (by omega)
    · exact hi.calls_inj u v g hu hv

/-- The id that is returned is that of the timer, which is not deleted. -/
theorem returnId (hi : Issued s) (h : Wf s) {t : Tid} {p : Addr} {g : Nat} {garbage : Int}
    (ht : s.adding t = .ran p g) (hlive : g ∉ s.queue.deleted) :
    Issued (s.returnId t p g garbage) := by
  have hm := h.inv.owned.memory
  have hborn : (s.adding t).born? = some g := by rw [ht]; rfl
  have hothers : ∀ u g', ((s.returnId t p g garbage).adding u).born? = some g' →
      u ≠ t ∧ (s.adding u).born? = some g' := by
    intro u g' hu
    simp only [State.returnId, Function.update_apply] at hu
    split at hu
    · cases hu
    · next hut => exact ⟨hut, hu⟩
  obtain ⟨timer, htimer, rfl⟩ : ∃ timer, s.queue.heap p = some timer ∧ timer.born = g := by
    rcases h.live_or_gone ht with hl | ⟨hh, hgone⟩
    · exact hl
    · rcases hm.kept g hh with hd | ⟨q, timer, htimer, hb⟩
      · exact absurd hd hlive
      · exact absurd hb (hgone q timer htimer)
  have hr : (s.returnId t p timer.born garbage).returned = _ := Wf.returned_returnId htimer
  refine ⟨hi.sequenced, ?_, ?_, ?_, ?_⟩
  · intro c hc
    rw [hr] at hc
    rcases List.mem_append.1 hc with hc | hc
    · exact hi.own c hc
    · rw [List.mem_singleton.1 hc]
      exact hm.id_created p timer htimer
  · rw [hr, List.map_append, List.nodup_append]
    refine ⟨hi.once, List.nodup_singleton _, fun x hx y hy hxy => ?_⟩
    rw [hxy, List.mem_singleton.1 hy] at hx
    exact hi.calls t _ hborn hx
  · intro u g' hu
    obtain ⟨hut, hu⟩ := hothers u g' hu
    rw [hr, List.map_append, List.mem_append, not_or]
    refine ⟨hi.calls u g' hu, fun hm' => hut ?_⟩
    rw [List.mem_singleton.1 hm'] at hu
    exact hi.calls_inj u t _ hu hborn
  · intro u v g' hu hv
    exact hi.calls_inj u v g' (hothers u g' hu).2 (hothers v g' hv).2

theorem move {a : Action} (hi : Issued s) (h : Wf s) (hm : Move s a s')
    (ho : Onward s.queue s'.queue) (hP : ReturnsLive s a s') : Issued s' := by
  cases hm with
  | rest _ _ ha hr _ => exact hi.congr ho (fun t => by rw [ha]) hr
  | push _ _ _ _ ha hr _ => exact hi.congr ho (fun t => by rw [ha]) hr
  | pop _ hc => exact hi.congr ho (fun t => by rw [hc.adding]) hc.returned
  | cancelHere _ _ hc => exact hi.congr ho (fun t => by rw [hc.adding]) hc.returned
  | newTimer _ _ => exact hi.newTimer h ho rfl rfl rfl
  | runAdd ht _ ha hr _ _ =>
    refine hi.congr ho (fun u => ?_) hr
    rw [ha, Function.update_apply]
    split
    · next hut =>
      rw [hut, ht]
      rfl
    · rfl
  | returnId ht =>
    simp only [ReturnsLive, ht, Adding.Live] at hP
    exact hi.returnId h ht hP

end Issued

theorem run_issued {tid : Tid} {wall : Timestamp} {mono : Int} {as : List Action} {s : State}
    (hP : machine.StepsMeet ReturnsLive (init tid wall mono) as)
    (hr : machine.run (init tid wall mono) as = some s) : Wf s ∧ Issued s := by
  have hk : machine.Keeps ReturnsLive fun s => Wf s ∧ Issued s := by
    rintro s a s' ⟨h, hi⟩ hP he hs
    have hm := h.step_move he hs
    exact ⟨h.move hm, hi.move h hm ((h.step_projects he hs).onward h.inv) hP⟩
  exact hk.run ⟨Wf.init tid wall mono, Issued.init tid wall mono⟩ hP hr

theorem Issued.ids_nodup {s : State} (hi : Issued s) (h : Wf s)
    (hn : s.queue.numCreated < 2 ^ 63) : (s.returned.map Prod.fst).Nodup := by
  refine List.Nodup.map_on ?_ (hi.once.of_map _)
  rintro ⟨timerId, g⟩ hc ⟨timerId', g'⟩ hc' rfl
  rw [hi.sequenced.born_eq h.inv.owned.memory hn (hi.own _ hc) (hi.own _ hc')]

/-! ## Cancels -/

/-- Step `a` of `s` executes `cancelInLoop(timerId)`, for timer `g`. -/
def Cancels (s : State) (a : Action) (timerId : TimerId) (g : Nat) : Prop :=
  a = .cancel s.loop.threadId timerId (some g) ∨
    a = .callFunctor ∧ ∃ rest, s.loop.pc = .functors (.cancelInLoop timerId (some g) :: rest)

/-- It is a step of the queue; the loop around the queue goes on the same way without it. -/
theorem Wf.cancels {s s' : State} {a : Action} {timerId : TimerId} {g : Nat} (h : Wf s)
    (he : enabled s a = true) (hs : step s a = .ok s') (hc : Cancels s a timerId g) :
    (timerId, g) ∈ s.returned ∧ Effect s.queue (.cancelInLoop timerId) s'.queue ∧
      Wf { s' with queue := s.queue } := by
  rcases hc with rfl | ⟨rfl, rest, hpc⟩
  · obtain ⟨hret, hu⟩ := cancel_returned he
    have hin : s.loop.isInLoopThread s.loop.threadId = true := by
      simp [EventLoop.State.isInLoopThread]
    have hcall : s.call (.cancelInLoop timerId (some g)) = .ok s' := by
      simpa only [step, State.runInLoop, hin, if_true] using hs
    obtain ⟨q, hq, rfl⟩ := liftQueue_ok hcall
    refine ⟨hret g rfl, ?_, h.queue_step (.refl h.inv) rfl rfl rfl⟩
    exact h.inv.effect_of_step (a := .cancelInLoop timerId) (hu hin) hq
  · obtain ⟨cb, rest', l, hpc', hstep, hw, hu, hcall⟩ := callFunctor_call he hs
    rw [hpc] at hpc'
    cases hpc'
    obtain ⟨q, hq, rfl⟩ := liftQueue_ok hcall
    refine ⟨h.queued_returned timerId g (by rw [hw]; simp), ?_,
      h.pop hw (.refl h.inv) rfl rfl⟩
    exact h.inv.effect_of_step (a := .cancelInLoop timerId) hu hq

/-- With or without the key of a timer that is gone in `cancelingTimers_`, the same actions
lead to the same states. -/
theorem Wf.run_noting {s r : State} {bs : List Action} {timerId : TimerId} {g : Nat}
    {C : OrderedSet ActiveTimer} (h : Wf s) (hseq : s.queue.Sequenced)
    (hid : (timerId, g) ∈ s.queue.created) (hg : g ∈ s.queue.deleted)
    (hC : ∀ x, x ≠ toLex (timerId.timer, timerId.sequence) →
      (x ∈ C ↔ x ∈ s.queue.cancelingTimers))
    (hr : machine.run s bs = some r) (hn : r.queue.numCreated < 2 ^ 63) :
    ∃ C', machine.run (s.noting C) bs = some (r.noting C') := by
  induction bs generalizing s C with
  | nil =>
    cases hr
    exact ⟨C, rfl⟩
  | cons a bs ih =>
    have hle := (h.run_onward hr).2.numCreated
    obtain ⟨he, u, hu, hr⟩ := (machine.run_cons_iff _ _ _ _).1 hr
    have hp := h.step_projects he hu
    have ho := hp.onward h.inv
    have hwf := h.move (h.step_move he hu)
    have hen : machine.enabled (s.noting C) a = true := (enabled_noting s C a).trans he
    -- the step with the key, and what is in `cancelingTimers_` then
    obtain ⟨D, hD, hstep⟩ : ∃ D, (∀ x, x ≠ toLex (timerId.timer, timerId.sequence) →
        (x ∈ D ↔ x ∈ u.queue.cancelingTimers)) ∧
        machine.step (s.noting C) a = .ok (u.noting D) := by
      cases hp with
      | none hq hall =>
        refine ⟨C, ?_, hall C⟩
        rw [hq]
        exact hC
      | one hb hq hall =>
        have hunused := h.inv.unused_of_gone hseq (by omega) hid hg
        obtain ⟨q, hq', D, rfl, hD⟩ := Alike.step ⟨C, rfl, hC⟩ h.inv hunused hb hq
        exact ⟨D, hD, hall C _ hq'⟩
    obtain ⟨C', hC'⟩ := ih hwf (ho.sequenced hseq) (ho.created _ hid) (ho.deleted _ hg) hD hr
    exact ⟨C', (machine.run_cons_iff _ _ _ _).2 ⟨hen, _, hstep, hC'⟩⟩

/-- What ids and cancels can do at `s`. -/
structure IdsOwn (s : State) : Prop where
  distinct : (s.returned.map Prod.fst).Nodup
  own : ∀ c ∈ s.returned, c ∈ s.queue.created
  /-- a cancel touches no other timer -/
  cancels : ∀ a s' timerId g, machine.enabled s a = true → machine.step s a = .ok s' →
    Cancels s a timerId g → OnlyOwn g s.queue s'.queue
  /-- nor does it prevent a restart: that of a timer depends on its own key -/
  resets : ∀ s' now expired rest, machine.enabled s (.queue .reset) = true →
    machine.step s (.queue .reset) = .ok s' → s.queue.phase = .calling now expired rest →
    TimerQueue.Resets now s.queue expired s'.queue
  /-- if its timer is gone, all goes on as it would without it -/
  gone : ∀ a s' timerId g, machine.enabled s a = true → machine.step s a = .ok s' →
    Cancels s a timerId g → g ∈ s.queue.deleted →
    ∀ bs r, machine.run { s' with queue := s.queue } bs = some r → r.queue.numCreated < 2 ^ 63 →
      ∃ C, machine.run s' bs =
        some { r with queue := { r.queue with cancelingTimers := C } }

/-- **A stale id harms no other timer.**  In every run in which each `addTimer` returns while its
timer is not deleted yet, and with fewer than `2 ^ 63` timers, ids are the timers' own. -/
theorem staleId_harmless (tid : Tid) (wall : Timestamp) (mono : Int) (as : List Action)
    (s : State) (hP : machine.StepsMeet ReturnsLive (init tid wall mono) as)
    (hr : machine.run (init tid wall mono) as = some s) (hn : s.queue.numCreated < 2 ^ 63) :
    IdsOwn s := by
  obtain ⟨h, hi⟩ := run_issued hP hr
  refine ⟨hi.ids_nodup h hn, hi.own, ?_, ?_, ?_⟩
  · intro a s' timerId g he hs hc
    obtain ⟨hret, hef, -⟩ := h.cancels he hs hc
    exact h.inv.onlyOwn hi.sequenced hn (hi.own _ hret) hef
  · intro s' now expired rest he hs hphase
    obtain ⟨q, hq, rfl⟩ := liftQueue_ok hs
    have hef := h.inv.effect_of_step (a := .reset) (enabled_of_queueEnabled he) hq
    exact (hef.resets hphase).2.2.2.2
  · intro a s' timerId g he hs hc hg bs r hrun hnr
    obtain ⟨hret, hef, hwf⟩ := h.cancels he hs hc
    have hid := hi.own _ hret
    obtain ⟨C, hq, hC⟩ := hef.alike (h.inv.unused_of_gone hi.sequenced hn hid hg)
    obtain ⟨C', hC'⟩ := hwf.run_noting hi.sequenced hid hg hC hrun hnr
    refine ⟨C', ?_⟩
    have hs' : s' = State.noting { s' with queue := s.queue } C := by
      rw [State.noting, ← hq]
    rw [hs']
    exact hC'

/-- In an event callback the loop thread adds a timer that fires and is gone; the next one is
put at its address. -/
def reusedRun : List Action :=
  [.loop (.loop 1), .loop .testQuit, .loop (.pollReturns [.other 0]), .loop .handleEvent,
    .newTimer 1 8 (.runAt 150), .runAdd 1, .returnId 1 0, .queue (.clock 200 200000),
    .queue .handleRead, .queue .readTimerfd, .queue .runCallback, .queue .reset,
    .newTimer 1 8 (.runAt 300), .runAdd 1, .returnId 1 0]

theorem reusedRun_harmless :
    ∃ s, machine.run (init 1 100 100000) reusedRun = some s ∧
      s.returned = [(⟨8, 1⟩, 0), (⟨8, 2⟩, 1)] ∧ s.queue.deleted = [0] ∧ IdsOwn s := by
  have hrun : ∃ s, machine.run (init 1 100 100000) reusedRun = some s ∧
      s.returned = [(⟨8, 1⟩, 0), (⟨8, 2⟩, 1)] ∧ s.queue.deleted = [0] ∧
      s.queue.numCreated = 2 := ⟨_, rfl, by decide, rfl, rfl⟩
  obtain ⟨s, hs, hret, hdel, hn⟩ := hrun
  refine ⟨s, hs, hret, hdel, staleId_harmless 1 100 100000 reusedRun s ?_ hs (by omega)⟩
  decide

/-- Thread 2 has queued a timer and is about to return its id.  The timer fires and is deleted, the
loop thread puts another one at its address, and thread 2 reads the sequence number of that. -/
def recycledRun : List Action :=
  [.newTimer 2 8 (.runAt 150), .runAdd 2, .loop (.testWakeup 2), .loop (.wakeup 2),
    .loop (.loop 1), .loop .testQuit, .loop (.pollReturns []), .loop .eventsDone, .loop .swap,
    .callFunctor, .loop .functorReturns, .loop .functorsDone, .loop .testQuit,
    .loop (.pollReturns [.other 0]), .loop .handleEvent, .queue (.clock 200 200000),
    .queue .handleRead, .queue .readTimerfd, .queue .runCallback, .queue .reset,
    .newTimer 1 8 (.runAt 300), .runAdd 1, .returnId 1 0, .returnId 2 0]

/-- Both ids are the same, and a cancel of the timer that is gone deletes the other one. -/
theorem recycledRun_harms :
    ∃ s s', machine.run (init 1 100 100000) recycledRun = some s ∧
      s.returned = [(⟨8, 2⟩, 1), (⟨8, 2⟩, 0)] ∧ s.queue.deleted = [0] ∧ InSets s.queue 1 ∧
      machine.enabled s (.cancel 1 ⟨8, 2⟩ (some 0)) = true ∧
      machine.step s (.cancel 1 ⟨8, 2⟩ (some 0)) = .ok s' ∧ s'.queue.deleted = [0, 1] ∧
      s'.queue.timers.toList = [] :=
  ⟨_, _, rfl, by decide, rfl, ⟨8, _, rfl, rfl, .inl ⟨300, by decide⟩⟩, by decide, rfl, rfl, rfl⟩

end Rawmd.EventLoopTimers
