import Rawmd.Net.EventLoopTimers
import Rawmd.Net.EventLoopFunctors
import Rawmd.Net.TimerQueueCancel

/-!
# Adding and cancelling a timer from different threads

A `cancel` in another thread travels behind the `addTimerInLoop` of its timer in the queue
of functors, so it is executed after it (`Ordered`); a `cancel` in the loop thread is
executed at once and may overtake it.  `Wf` is what holds in every run: the queue's own
invariant, and that each `Timer` which is created and not yet given to the queue has exactly
one place, the `addTimer` in progress or one waiting functor.

    Wf s → Move s a s' → Wf s'                                          (Wf.move)
    the loop thread cancels g only after its addTimerInLoop →
      g ∈ cancelled → Cancelled g                                       (run_cancelled)
-/

namespace Rawmd.TimerQueue

/-! ## Steps of the timer queue -/

/-- Object number `g` is at `p` and has not been given to the queue. -/
def State.Fresh (q : State) (p : Addr) (g : Nat) : Prop :=
  (∃ t, q.heap p = some t ∧ t.born = g) ∧ g ∉ q.handed

/-- What a step of the queue that hands it the timers `new` leaves as it was. -/
structure Later (q : State) (new : List Nat) (q' : State) : Prop where
  inv : Inv q'
  handed : q'.handed = q.handed ++ new
  created : ∀ c ∈ q.created, c ∈ q'.created
  cancelled : ∀ g, Cancelled q g → Cancelled q' g
  fresh : ∀ p g, q.Fresh p g → g ∉ new → q'.Fresh p g

theorem Later.refl {q : State} (h : Inv q) : Later q [] q :=
  ⟨h, (List.append_nil _).symm, fun _ hc => hc, fun _ hc => hc, fun _ _ hf _ => hf⟩

/-- The timers that an action hands to the queue. -/
def State.handing (q : State) : Action → List Nat
  | .addTimerInLoop p =>
    match q.heap p with
    | some t => [t.born]
    | none => []
  | _ => []

theorem Effect.handed {q q' : State} {a : Action} (he : Effect q a q') :
    q'.handed = q.handed ++ q.handing a := by
  cases he with
  | addEarliest _ ht _ _ =>
    simp [State.handing, ht, State.inserted, State.resetTimerfd]
  | addLater _ ht _ _ => simp [State.handing, ht, State.inserted]
  | reset _ hl =>
    rw [rearmed_frame, hl.frame]
    simp [State.handing]
  | _ => exact (List.append_nil _).symm

theorem Effect.created {q q' : State} {a : Action} (he : Effect q a q') :
    ∀ c ∈ q.created, c ∈ q'.created := by
  intro c hc
  cases he with
  | newTimer _ _ _ => exact List.mem_append_left _ hc
  | reset _ hl =>
    rw [rearmed_frame, hl.frame]
    exact hc
  | _ => exact hc

theorem Effect.later {q q' : State} {a : Action} (he : Effect q a q') (h : Inv q) :
    Later q (q.handing a) q' where
  inv := h.effect he
  handed := he.handed
  created := he.created
  cancelled g hc := hc.effect h he
  fresh := by
    rintro p g ⟨⟨t, ht, hb⟩, hg⟩ hn
    have hg' : g ∉ q'.handed := by
      rw [he.handed, List.mem_append]
      exact fun hm => hm.elim hg hn
    -- only timers that were handed over are deleted
    rcases he.persists p t ht with ⟨u, hu, hub⟩ | ⟨-, hd⟩
    · exact ⟨⟨u, hu, hub.trans hb⟩, hg'⟩
    · exact absurd ((h.effect he).owned.memory.deleted_handed _ hd) (hb ▸ hg')

theorem Inv.addTimerInLoop_later {q q' : State} {p : Addr} {g : Nat} (h : Inv q)
    (hu : q.inUserCode = true) (hf : q.Fresh p g) (hs : q.addTimerInLoop p = .ok q') :
    Later q [g] q' := by
  obtain ⟨⟨t, ht, rfl⟩, hg⟩ := hf
  have he : enabled q (.addTimerInLoop p) = true := by
    simp [enabled, hu, State.isFresh, ht, hg]
  have hl := (h.effect_of_step he hs).later h
  simpa [State.handing, ht] using hl

/-- A timer that is handed over is cancelled by `cancelInLoop`, if the id is its own or it
was cancelled before. -/
theorem Inv.cancelInLoop_later {q q' : State} {timerId : TimerId} (h : Inv q)
    (hu : q.inUserCode = true) (hs : q.cancelInLoop timerId = .ok q') :
    Later q [] q' ∧ ∀ g ∈ q.handed, (timerId, g) ∈ q.created ∨ Cancelled q g → Cancelled q' g := by
  have hef := h.effect_of_step (a := .cancelInLoop timerId) hu hs
  refine ⟨hef.later h, fun g hg hid => ?_⟩
  rcases hid with hid | hc
  · exact h.cancelled hid hg hef
  · exact hc.effect h hef

end Rawmd.TimerQueue

namespace Rawmd.EventLoopTimers

open TimerQueue (Inv Later Cancelled)

/-! ## The order of the waiting functors -/

/-- The timer that a functor is to hand over. -/
def Functor.add? : Functor → Option (Addr × Nat)
  | .addTimerInLoop timer born => some (timer, born)
  | _ => none

def adds (l : List Functor) : List (Addr × Nat) := l.filterMap Functor.add?

/-- A timer is handed over, before or in `l`, ahead of each `cancelInLoop` for it. -/
def Ordered (handed : List Nat) : List Functor → Prop
  | [] => True
  | .addTimerInLoop _ g :: l => Ordered (handed ++ [g]) l
  | .cancelInLoop _ born :: l => (∀ g ∈ born, g ∈ handed) ∧ Ordered handed l
  | .user _ :: l => Ordered handed l

theorem Ordered.mono {l : List Functor} {h h' : List Nat} (ho : Ordered h l)
    (hs : ∀ g ∈ h, g ∈ h') : Ordered h' l := by
  induction l generalizing h h' with
  | nil => trivial
  | cons f l ih =>
    cases f with
    | addTimerInLoop p g =>
      refine ih (h := h ++ [g]) ho fun g' hg' => ?_
      simp only [List.mem_append] at hg' ⊢
      exact hg'.imp_left (hs g')
    | cancelInLoop timerId born => exact ⟨fun g hg => hs g (ho.1 g hg), ih ho.2 hs⟩
    | user n => exact ih (h := h) ho hs

/-- Pushing a functor; a `cancelInLoop` is pushed behind its timer's hand-over. -/
theorem Ordered.push {l : List Functor} {h : List Nat} {f : Functor} (ho : Ordered h l)
    (hf : ∀ timerId g, f = .cancelInLoop timerId (some g) →
      g ∈ h ∨ g ∈ (adds l).map Prod.snd) : Ordered h (l ++ [f]) := by
  induction l generalizing h with
  | nil =>
    cases f with
    | addTimerInLoop p g => trivial
    | cancelInLoop timerId born =>
      refine ⟨fun g hg => ?_, trivial⟩
      have := hf timerId g (by rw [Option.mem_def.1 hg])
      simpa [adds] using this
    | user n => trivial
  | cons f' l ih =>
    cases f' with
    | addTimerInLoop p g =>
      refine ih (h := h ++ [g]) ho fun timerId g' hg' => ?_
      have := hf timerId g' hg'
      simp only [adds, Functor.add?, List.filterMap_cons, List.map_cons, List.mem_cons,
        List.mem_append, List.not_mem_nil, or_false] at this ⊢
      tauto
    | cancelInLoop timerId born => exact ⟨ho.1, ih ho.2 hf⟩
    | user n => exact ih (h := h) ho hf

/-! ## The invariant -/

structure Wf (s : State) : Prop where
  inv : Inv s.queue
  queued_fresh : ∀ a ∈ adds s.loop.waiting, s.queue.Fresh a.1 a.2
  queued_nodup : ((adds s.loop.waiting).map Prod.snd).Nodup
  queued_returned : ∀ timerId g, .cancelInLoop timerId (some g) ∈ s.loop.waiting →
    (timerId, g) ∈ s.returned
  created_fresh : ∀ t p g, s.adding t = .created p g →
    s.queue.Fresh p g ∧ g ∉ (adds s.loop.waiting).map Prod.snd
  created_inj : ∀ t u p q g, s.adding t = .created p g → s.adding u = .created q g → t = u
  ran : ∀ t p g, s.adding t = .ran p g →
    (g ∈ s.queue.handed ∨ g ∈ (adds s.loop.waiting).map Prod.snd) ∧
      ∃ seq, (⟨p, seq⟩, g) ∈ s.queue.created
  returned : ∀ timerId g, (timerId, g) ∈ s.returned →
    (g ∈ s.queue.handed ∨ g ∈ (adds s.loop.waiting).map Prod.snd) ∧
      ((timerId, g) ∈ s.queue.created ∨ Cancelled s.queue g)
  ordered : Ordered s.queue.handed s.loop.waiting

namespace Wf

variable {s s' : State}

theorem init (tid : Tid) (wall : Timestamp) (mono : Int) : Wf (init tid wall mono) where
  inv := TimerQueue.init_inv wall mono
  queued_fresh := by simp [EventLoopTimers.init, EventLoop.init, EventLoop.State.waiting,
    EventLoop.State.localFunctors, adds]
  queued_nodup := by simp [EventLoopTimers.init, EventLoop.init, EventLoop.State.waiting,
    EventLoop.State.localFunctors, adds]
  queued_returned := by simp [EventLoopTimers.init, EventLoop.init, EventLoop.State.waiting,
    EventLoop.State.localFunctors]
  created_fresh := by simp [EventLoopTimers.init]
  created_inj := by simp [EventLoopTimers.init]
  ran := by simp [EventLoopTimers.init]
  returned := by simp [EventLoopTimers.init]
  ordered := trivial

/-- Only thread `t` changes its place in `addTimer`. -/
theorem adding_update {t u : Tid} {a b : Adding} (ha : s'.adding = Function.update s.adding t a)
    (hu : s'.adding u = b) : u = t ∧ a = b ∨ u ≠ t ∧ s.adding u = b := by
  rw [ha, Function.update_apply] at hu
  split at hu
  · next hut => exact .inl ⟨hut, hu⟩
  · next hut => exact .inr ⟨hut, hu⟩

/-- A step of the queue that hands over nothing. -/
theorem queue_step (h : Wf s) (hl : Later s.queue [] s'.queue)
    (hw : s'.loop.waiting = s.loop.waiting) (ha : s'.adding = s.adding)
    (hr : s'.returned = s.returned) : Wf s' := by
  have hh : s'.queue.handed = s.queue.handed := by rw [hl.handed, List.append_nil]
  constructor
  · exact hl.inv
  · rw [hw]
    exact fun a hm => hl.fresh _ _ (h.queued_fresh a hm) (by simp)
  · rw [hw]
    exact h.queued_nodup
  · rw [hw, hr]
    exact h.queued_returned
  · rw [hw, ha]
    intro t p g ht
    obtain ⟨hf, hn⟩ := h.created_fresh t p g ht
    exact ⟨hl.fresh _ _ hf (by simp), hn⟩
  · rw [ha]
    exact h.created_inj
  · rw [hw, ha, hh]
    intro t p g ht
    obtain ⟨hk, seq, hc⟩ := h.ran t p g ht
    exact ⟨hk, seq, hl.created _ hc⟩
  · rw [hw, hr, hh]
    intro timerId g hm
    obtain ⟨hk, hc⟩ := h.returned timerId g hm
    exact ⟨hk, hc.imp (hl.created _) (hl.cancelled g)⟩
  · rw [hw, hh]
    exact h.ordered

/-- The first waiting functor leaves, and the queue takes what it hands over. -/
theorem pop (h : Wf s) {f : Functor} (hw : s.loop.waiting = f :: s'.loop.waiting)
    (hl : Later s.queue (f.add?.toList.map Prod.snd) s'.queue) (ha : s'.adding = s.adding)
    (hr : s'.returned = s.returned) : Wf s' := by
  have hadds : adds s.loop.waiting = f.add?.toList ++ adds s'.loop.waiting := by
    rw [hw]
    cases f <;> rfl
  have hn := h.queued_nodup
  rw [hadds, List.map_append, List.nodup_append] at hn
  obtain ⟨-, hn', hdisj⟩ := hn
  -- a number is known before the step exactly if it is known after it
  have hknown : ∀ g, g ∈ s.queue.handed ∨ g ∈ (adds s.loop.waiting).map Prod.snd →
      g ∈ s'.queue.handed ∨ g ∈ (adds s'.loop.waiting).map Prod.snd := by
    intro g
    rw [hl.handed, hadds, List.map_append, List.mem_append, List.mem_append]
    tauto
  constructor
  · exact hl.inv
  · intro a hm
    refine hl.fresh _ _ (h.queued_fresh a (by rw [hadds]; simp [hm])) fun hg => ?_
    exact hdisj _ hg _ (List.mem_map_of_mem hm) rfl
  · exact hn'
  · rw [hr]
    exact fun timerId g hm => h.queued_returned timerId g (by rw [hw]; simp [hm])
  · rw [ha]
    intro t p g ht
    obtain ⟨hf, hng⟩ := h.created_fresh t p g ht
    rw [hadds, List.map_append, List.mem_append, not_or] at hng
    exact ⟨hl.fresh _ _ hf hng.1, hng.2⟩
  · rw [ha]
    exact h.created_inj
  · rw [ha]
    intro t p g ht
    obtain ⟨hk, seq, hc⟩ := h.ran t p g ht
    exact ⟨hknown g hk, seq, hl.created _ hc⟩
  · rw [hr]
    intro timerId g hm
    obtain ⟨hk, hc⟩ := h.returned timerId g hm
    exact ⟨hknown g hk, hc.imp (hl.created _) (hl.cancelled g)⟩
  · have ho := h.ordered
    rw [hw] at ho
    rw [hl.handed]
    cases f with
    | addTimerInLoop p g => exact ho
    | cancelInLoop timerId born => exact ho.2.mono fun g hg => List.mem_append_left _ hg
    | user n => exact Ordered.mono (h := s.queue.handed) ho fun g hg => List.mem_append_left _ hg

/-- A functor other than `addTimerInLoop` is queued. -/
theorem push (h : Wf s) {f : Functor} (hw : s'.loop.waiting = s.loop.waiting ++ [f])
    (hf : f.add? = none)
    (hid : ∀ timerId g, f = .cancelInLoop timerId (some g) → (timerId, g) ∈ s.returned)
    (hq : s'.queue = s.queue) (ha : s'.adding = s.adding) (hr : s'.returned = s.returned) :
    Wf s' := by
  have hadds : adds s'.loop.waiting = adds s.loop.waiting := by
    rw [hw, adds, List.filterMap_append]
    simp [hf, adds]
  constructor <;> simp only [hadds, hq, ha, hr]
  · exact h.inv
  · exact h.queued_fresh
  · exact h.queued_nodup
  · intro timerId g hm
    rw [hw, List.mem_append, List.mem_singleton] at hm
    rcases hm with hm | hm
    · exact h.queued_returned timerId g hm
    · exact hid timerId g hm.symm
  · exact h.created_fresh
  · exact h.created_inj
  · exact h.ran
  · exact h.returned
  · rw [hw]
    exact h.ordered.push fun timerId g hg => (h.returned timerId g (hid timerId g hg)).1

/-- The `Timer` of an `addTimer` in progress goes to the queue (`new = [g]`), or behind the
waiting functors. -/
theorem runAdd (h : Wf s) {t : Tid} {p : Addr} {g : Nat} {new : List Nat}
    (ht : s.adding t = .created p g) (hl : Later s.queue new s'.queue)
    (ha : s'.adding = Function.update s.adding t (.ran p g)) (hr : s'.returned = s.returned)
    (hw : new = [g] ∧ s'.loop.waiting = s.loop.waiting ∨
      new = [] ∧ s'.loop.waiting = s.loop.waiting ++ [.addTimerInLoop p g]) : Wf s' := by
  obtain ⟨hfresh, hnew⟩ := h.created_fresh t p g ht
  have hadds : new = [g] ∧ adds s'.loop.waiting = adds s.loop.waiting ∨
      new = [] ∧ adds s'.loop.waiting = adds s.loop.waiting ++ [(p, g)] := by
    refine hw.imp (And.imp_right fun e => by rw [e]) (And.imp_right fun e => ?_)
    rw [e, adds, List.filterMap_append]
    rfl
  have hothers : ∀ u q g', s'.adding u = .created q g' →
      s.adding u = .created q g' ∧ g' ≠ g := by
    intro u q g' hu
    rcases adding_update ha hu with ⟨-, e⟩ | ⟨hut, hu⟩
    · cases e
    · refine ⟨hu, fun e => hut ?_⟩
      subst e
      exact h.created_inj u t q p g' hu ht
  have hknown : ∀ g', g' ∈ s.queue.handed ∨ g' ∈ (adds s.loop.waiting).map Prod.snd ∨ g' = g →
      g' ∈ s'.queue.handed ∨ g' ∈ (adds s'.loop.waiting).map Prod.snd := by
    intro g' hg'
    rw [hl.handed, List.mem_append]
    rcases hadds with ⟨rfl, e⟩ | ⟨rfl, e⟩
    · rw [e, List.mem_singleton]
      tauto
    · rw [e, List.map_append, List.mem_append, List.map_singleton, List.mem_singleton]
      tauto
  constructor
  · exact hl.inv
  · intro a hm
    rcases hadds with ⟨rfl, e⟩ | ⟨rfl, e⟩
    · rw [e] at hm
      refine hl.fresh _ _ (h.queued_fresh a hm) fun hg => hnew ?_
      rw [← List.mem_singleton.1 hg]
      exact List.mem_map_of_mem hm
    · rw [e, List.mem_append, List.mem_singleton] at hm
      rcases hm with hm | rfl
      · exact hl.fresh _ _ (h.queued_fresh a hm) (by simp)
      · exact hl.fresh _ _ hfresh (by simp)
  · rcases hadds with ⟨-, e⟩ | ⟨-, e⟩
    · rw [e]
      exact h.queued_nodup
    · rw [e, List.map_append, List.map_singleton, List.nodup_append]
      refine ⟨h.queued_nodup, List.nodup_singleton _, fun x hx y hy e' => hnew ?_⟩
      have hxg : x = g := e'.trans (List.mem_singleton.1 hy)
      exact hxg ▸ hx
  · intro timerId g' hm
    rw [hr]
    refine h.queued_returned timerId g' ?_
    rcases hw with ⟨-, e⟩ | ⟨-, e⟩
    · rwa [e] at hm
    · rw [e, List.mem_append, List.mem_singleton] at hm
      exact hm.resolve_right (by simp)
  · intro u q g' hu
    obtain ⟨hu', hne⟩ := hothers u q g' hu
    obtain ⟨hf, hn⟩ := h.created_fresh u q g' hu'
    rcases hadds with ⟨rfl, e⟩ | ⟨rfl, e⟩
    · rw [e]
      exact ⟨hl.fresh _ _ hf (by simp [hne]), hn⟩
    · rw [e, List.map_append, List.mem_append, not_or]
      exact ⟨hl.fresh _ _ hf (by simp), hn, by simp [hne]⟩
  · intro u v p' q' g' hu hv
    exact h.created_inj u v p' q' g' (hothers u p' g' hu).1 (hothers v q' g' hv).1
  · intro u q g' hu
    rcases adding_update ha hu with ⟨-, e⟩ | ⟨-, hu⟩
    · cases e
      obtain ⟨timer, htimer, hb⟩ := hfresh.1
      refine ⟨hknown g (.inr (.inr rfl)), timer.sequence, hl.created _ ?_⟩
      rw [← hb]
      exact h.inv.owned.memory.id_created p timer htimer
    · obtain ⟨hk, seq, hc⟩ := h.ran u q g' hu
      exact ⟨hknown g' (hk.imp_right .inl), seq, hl.created _ hc⟩
  · intro timerId g' hm
    rw [hr] at hm
    obtain ⟨hk, hc⟩ := h.returned timerId g' hm
    exact ⟨hknown g' (hk.imp_right .inl), hc.imp (hl.created _) (hl.cancelled g')⟩
  · have hsub : ∀ x ∈ s.queue.handed, x ∈ s'.queue.handed := by
      intro x hx
      rw [hl.handed]
      simp [hx]
    have ho := h.ordered.mono hsub
    rcases hw with ⟨-, e⟩ | ⟨-, e⟩
    · rwa [e]
    · rw [e]
      exact ho.push (by simp)

/-- A new `Timer` belongs to the `addTimer` that created it. -/
theorem newTimer (h : Wf s) {t : Tid} {p : Addr} {when : Timestamp} {interval : Seconds}
    (he : TimerQueue.enabled s.queue (.newTimer p when interval) = true)
    (hq : s'.queue = s.queue.newTimer p when interval) (hw : s'.loop.waiting = s.loop.waiting)
    (ha : s'.adding = Function.update s.adding t (.created p s.queue.numCreated))
    (hr : s'.returned = s.returned) : Wf s' := by
  have hl : Later s.queue [] s'.queue := by
    rw [hq]
    exact (h.inv.effect_of_step he rfl).later h.inv
  -- the other timers have smaller numbers
  have hlt : ∀ q g, s.queue.Fresh q g → g < s.queue.numCreated := by
    rintro q g ⟨⟨timer, htimer, rfl⟩, -⟩
    exact h.inv.owned.memory.born_lt q timer htimer
  have hnew : s'.queue.Fresh p s.queue.numCreated := by
    rw [hq]
    refine ⟨⟨_, Function.update_self _ _ _, rfl⟩, fun hm => ?_⟩
    exact absurd (h.inv.owned.memory.handed_lt _ hm) (lt_irrefl _)
  have hold : Wf { s' with adding := s.adding } := h.queue_step hl hw rfl hr
  have hcases : ∀ u q g, s'.adding u = .created q g →
      u = t ∧ q = p ∧ g = s.queue.numCreated ∨ s.adding u = .created q g := by
    intro u q g hu
    rcases adding_update ha hu with ⟨hut, e⟩ | ⟨-, hu⟩
    · cases e
      exact .inl ⟨hut, rfl, rfl⟩
    · exact .inr hu
  refine { hold with created_fresh := ?_, created_inj := ?_, ran := ?_ }
  · intro u q g hu
    rcases hcases u q g hu with ⟨-, rfl, rfl⟩ | hu
    · refine ⟨hnew, fun hm => ?_⟩
      obtain ⟨a, hm, ha⟩ := List.mem_map.1 hm
      rw [hw] at hm
      have := hlt _ _ (h.queued_fresh a hm)
      omega
    · exact hold.created_fresh u q g hu
  · intro u v q r g hu hv
    rcases hcases u q g hu with ⟨rfl, -, hg⟩ | hu <;> rcases hcases v r g hv with ⟨rfl, -, hg'⟩ | hv
    · rfl
    · exact absurd (hlt _ _ (h.created_fresh v r g hv).1) (by omega)
    · exact absurd (hlt _ _ (h.created_fresh u q g hu).1) (by omega)
    · exact h.created_inj u v q r g hu hv
  · intro u q g hu
    rcases adding_update ha hu with ⟨-, e⟩ | ⟨-, hu⟩
    · cases e
    · exact hold.ran u q g hu

/-- The timer of an `addTimer` that is about to return is at its address, or gone. -/
theorem live_or_gone (h : Wf s) {t : Tid} {p : Addr} {g : Nat} (ht : s.adding t = .ran p g) :
    (∃ timer, s.queue.heap p = some timer ∧ timer.born = g) ∨
      g ∈ s.queue.handed ∧ ∀ q timer, s.queue.heap q = some timer → timer.born ≠ g := by
  obtain ⟨hk, seq, hc⟩ := h.ran t p g ht
  have hm := h.inv.owned.memory
  by_cases hlive : ∃ timer, s.queue.heap p = some timer ∧ timer.born = g
  · exact .inl hlive
  · right
    have hgone : ∀ q timer, s.queue.heap q = some timer → timer.born ≠ g := by
      intro q timer htimer hb
      have := hm.created_inj _ (hm.id_created q timer htimer) _ hc hb
      simp only [Prod.mk.injEq, TimerId.mk.injEq] at this
      exact hlive ⟨timer, this.1.1 ▸ htimer, hb⟩
    -- so it is not in the queue of functors
    refine ⟨hk.resolve_right fun hq => ?_, hgone⟩
    obtain ⟨a, ha, rfl⟩ := List.mem_map.1 hq
    obtain ⟨⟨timer, htimer, hb⟩, -⟩ := h.queued_fresh a ha
    exact hgone _ timer htimer hb

theorem returned_returnId {t : Tid} {p : Addr} {g : Nat} {garbage : Int} {timer : Timer}
    (ht : s.queue.heap p = some timer) : (s.returnId t p g garbage).returned =
      s.returned ++ [(⟨p, timer.sequence⟩, g)] := by
  simp only [State.returnId, ht]

/-- The id that `addTimer` returns names its timer, unless the timer is gone. -/
theorem returnId (h : Wf s) {t : Tid} {p : Addr} {g : Nat} (ht : s.adding t = .ran p g)
    (garbage : Int) : Wf (s.returnId t p g garbage) := by
  have hothers : ∀ u a, a ≠ .idle → (s.returnId t p g garbage).adding u = a → s.adding u = a := by
    intro u a hne hu
    rcases adding_update rfl hu with ⟨-, e⟩ | ⟨-, hu⟩
    · exact absurd e.symm hne
    · exact hu
  refine ⟨h.inv, h.queued_fresh, h.queued_nodup, ?_, ?_, ?_, ?_, ?_, h.ordered⟩
  · exact fun timerId g' hq => List.mem_append_left _ (h.queued_returned timerId g' hq)
  · exact fun u q g' hu => h.created_fresh u q g' (hothers u _ (by simp) hu)
  · exact fun u v q r g' hu hv => h.created_inj u v q r g' (hothers u _ (by simp) hu)
      (hothers v _ (by simp) hv)
  · exact fun u q g' hu => h.ran u q g' (hothers u _ (by simp) hu)
  · intro timerId g' hret
    rcases List.mem_append.1 hret with hold | hnew
    · exact h.returned timerId g' hold
    obtain ⟨-, rfl⟩ := Prod.mk.inj (List.mem_singleton.1 hnew)
    refine ⟨(h.ran t p g' ht).1, ?_⟩
    rcases h.live_or_gone ht with ⟨timer, htimer, rfl⟩ | ⟨hh, hgone⟩
    · left
      simp only [htimer] at hnew
      rw [List.mem_singleton.1 hnew]
      exact h.inv.owned.memory.id_created p timer htimer
    · exact .inr ⟨hh, fun q timer htimer hb => absurd hb (hgone q timer htimer)⟩

end Wf

/-! ## Runs -/

theorem liftQueue_ok {s s' : State} {r : Except TimerQueue.Fault TimerQueue.State}
    (h : s.liftQueue r = .ok s') : ∃ q, r = .ok q ∧ s' = { s with queue := q } := by
  cases r with
  | ok q =>
    cases h
    exact ⟨q, rfl, rfl⟩
  | error e => cases h

theorem liftLoop_ok {s s' : State} {r : Except EventLoop.Fault (EventLoop.State Functor)}
    (h : s.liftLoop r = .ok s') : ∃ l, r = .ok l ∧ s' = { s with loop := l } := by
  cases r with
  | ok l =>
    cases h
    exact ⟨l, rfl, rfl⟩
  | error e => cases h

theorem enabled_of_loopEnabled {s : State} {a : EventLoop.Action Functor}
    (h : loopEnabled s a = true) : EventLoop.enabled s.loop a = true := by
  cases a with
  | queueInLoop t cb =>
    cases cb <;> simp_all [loopEnabled, State.mayCall, EventLoop.enabled]
  | runInLoop t cb =>
    cases cb <;> simp_all [loopEnabled, State.mayCall, EventLoop.enabled]
  | quit t => simp_all [loopEnabled, State.mayCall, EventLoop.enabled]
  | callFunctor => cases h
  | testWakeup t => exact h
  | wakeup t => exact h
  | _ =>
    simp only [loopEnabled, Bool.and_eq_true] at h
    exact h.1

/-- The queue runs user code whenever the loop thread calls functors. -/
theorem inUserCode_of_loopRuns {s : State} (h : s.loopRuns = true) :
    s.queue.inUserCode = true := by
  simp only [State.loopRuns, Bool.and_eq_true] at h
  cases hp : s.queue.phase <;> simp [hp] at h
  simp [TimerQueue.State.inUserCode, hp]

theorem enabled_of_queueEnabled {s : State} {a : TimerQueue.Action}
    (he : queueEnabled s a = true) : TimerQueue.enabled s.queue a = true := by
  cases a with
  | handleRead =>
    simp only [queueEnabled, Bool.and_eq_true] at he
    have hr := he.2
    simp only [State.loopRuns, Bool.and_eq_true] at hr
    cases hp : s.queue.phase <;> simp [hp] at hr
    simp [TimerQueue.enabled, hp]
  | readTimerfd => exact he
  | runCallback =>
    simp only [queueEnabled, Bool.and_eq_true] at he
    exact he.1.1
  | reset =>
    simp only [queueEnabled, Bool.and_eq_true] at he
    exact he.1.1
  | clock wall mono => exact he
  | _ => cases he

/-- The steps of `TimerQueue::handleRead` and the clocks are steps of the queue that hand over
nothing. -/
theorem queueEnabled_later {s : State} {a : TimerQueue.Action} {q : TimerQueue.State}
    (h : Inv s.queue) (he : queueEnabled s a = true) (hs : TimerQueue.step s.queue a = .ok q) :
    Later s.queue [] q := by
  have hl := (h.effect_of_step (enabled_of_queueEnabled he) hs).later h
  cases a with
  | addTimerInLoop p => cases he
  | _ => exact hl

/-- The effect of `cb()` on all but the loop. -/
structure Called (s : State) (cb : Functor) (s' : State) : Prop where
  later : Later s.queue (cb.add?.toList.map Prod.snd) s'.queue
  adding : s'.adding = s.adding
  returned : s'.returned = s.returned
  cancelled : ∀ g ∈ s'.cancelled, g ∈ s.cancelled ∨ ∃ timerId, cb = .cancelInLoop timerId (some g)
  cancels : ∀ timerId g, cb = .cancelInLoop timerId (some g) → g ∈ s.queue.handed →
    (timerId, g) ∈ s.queue.created ∨ Cancelled s.queue g → Cancelled s'.queue g

theorem call_called {s s' : State} {cb : Functor} (h : Inv s.queue)
    (hu : s.queue.inUserCode = true)
    (hf : ∀ p g, cb = .addTimerInLoop p g → s.queue.Fresh p g) (hs : s.call cb = .ok s') :
    Called s cb s' ∧ s'.loop = s.loop := by
  cases cb with
  | addTimerInLoop p g =>
    obtain ⟨q, hq, rfl⟩ := liftQueue_ok hs
    have hl := h.addTimerInLoop_later hu (hf p g rfl) hq
    exact ⟨⟨hl, rfl, rfl, fun g hg => .inl hg, by simp⟩, rfl⟩
  | cancelInLoop timerId born =>
    obtain ⟨q, hq, rfl⟩ := liftQueue_ok hs
    obtain ⟨hl, hc⟩ := h.cancelInLoop_later hu hq
    refine ⟨⟨hl, rfl, rfl, fun g hg => ?_, ?_⟩, rfl⟩
    · refine (List.mem_append.1 hg).imp_right fun hb => ⟨timerId, ?_⟩
      rw [Option.mem_toList] at hb
      rw [Option.mem_def.1 hb]
    · rintro timerId' g he hg hid
      cases he
      exact hc g hg hid
  | user n =>
    cases hs
    exact ⟨⟨.refl h, rfl, rfl, fun g hg => .inl hg, by simp⟩, rfl⟩

/-- What an action does to the waiting functors, the timers and the calls of `addTimer`. -/
inductive Move (s : State) : Action → State → Prop where
  | rest {a : Action} {s' : State} : Later s.queue [] s'.queue →
      s'.loop.waiting = s.loop.waiting → s'.adding = s.adding → s'.returned = s.returned →
      s'.cancelled = s.cancelled → Move s a s'
  | push {a : Action} {f : Functor} {s' : State} : s'.loop.waiting = s.loop.waiting ++ [f] →
      f.add? = none →
      (∀ timerId g, f = .cancelInLoop timerId (some g) → (timerId, g) ∈ s.returned) →
      s'.queue = s.queue → s'.adding = s.adding → s'.returned = s.returned →
      s'.cancelled = s.cancelled → Move s a s'
  | pop {f : Functor} {s' : State} : s.loop.waiting = f :: s'.loop.waiting → Called s f s' →
      Move s .callFunctor s'
  | cancelHere {timerId : TimerId} {born : Option Nat} {s' : State} :
      (∀ g ∈ born, (timerId, g) ∈ s.returned) → s'.loop = s.loop →
      Called s (.cancelInLoop timerId born) s' → Move s (.cancel s.loop.threadId timerId born) s'
  | newTimer {t : Tid} {p : Addr} {request : Request} {when : Timestamp} {interval : Seconds} :
      TimerQueue.enabled s.queue (.newTimer p when interval) = true →
      request.addTimer s.queue.wall = (when, interval) →
      Move s (.newTimer t p request) (s.newTimer t p request)
  | runAdd {t : Tid} {p : Addr} {g : Nat} {new : List Nat} {s' : State} :
      s.adding t = .created p g → Later s.queue new s'.queue →
      s'.adding = Function.update s.adding t (.ran p g) → s'.returned = s.returned →
      s'.cancelled = s.cancelled →
      (new = [g] ∧ s'.loop.waiting = s.loop.waiting ∨
        new = [] ∧ s'.loop.waiting = s.loop.waiting ++ [.addTimerInLoop p g]) →
      Move s (.runAdd t) s'
  | returnId {t : Tid} {p : Addr} {g : Nat} {garbage : Int} : s.adding t = .ran p g →
      Move s (.returnId t garbage) (s.returnId t p g garbage)

/-- The loop calls the first waiting functor. -/
theorem callFunctor_call {s s' : State} (he : enabled s .callFunctor = true)
    (hs : step s .callFunctor = .ok s') :
    ∃ cb rest l, s.loop.pc = .functors (cb :: rest) ∧
      EventLoop.step s.loop .callFunctor = .ok l ∧ s.loop.waiting = cb :: l.waiting ∧
      s.queue.inUserCode = true ∧ State.call { s with loop := l } cb = .ok s' := by
  simp only [enabled, Bool.and_eq_true] at he
  simp only [step] at hs
  split at hs
  · next cb rest hpc =>
    cases hl : s.liftLoop (EventLoop.step s.loop .callFunctor) with
    | error e =>
      rw [hl] at hs
      cases hs
    | ok s₁ =>
      rw [hl] at hs
      obtain ⟨l, hstep, rfl⟩ := liftLoop_ok hl
      refine ⟨cb, rest, l, hpc, hstep, ?_, inUserCode_of_loopRuns he.2, hs⟩
      cases EventLoop.step_effect (s := s.loop) (a := .callFunctor) he.1 hstep with
      | callFunctor _ hpc' =>
        rw [hpc] at hpc'
        cases hpc'
        simp [EventLoop.State.waiting, EventLoop.State.localFunctors, hpc]
  · have hen := he.1
    simp only [EventLoop.enabled, Bool.and_eq_true] at hen
    cases hen.2

/-- `runInLoop` of `addTimer`: in the loop thread the functor is called, elsewhere queued. -/
theorem runAdd_runInLoop {s s' : State} {t : Tid} (he : enabled s (.runAdd t) = true)
    (hs : step s (.runAdd t) = .ok s') :
    ∃ p g, s.adding t = .created p g ∧
      (s.loop.isInLoopThread t = true → s.queue.inUserCode = true) ∧
      State.runInLoop { s with adding := Function.update s.adding t (.ran p g) } t
        (.addTimerInLoop p g) = .ok s' := by
  simp only [enabled, Bool.and_eq_true] at he
  simp only [step] at hs
  split at hs
  · next p g ht =>
    refine ⟨p, g, ht, fun hin => ?_, hs⟩
    simpa [State.outsideQueue, hin] using he.1
  · next ht =>
    split at he
    · next p g ht' => exact absurd ht' (ht p g)
    · cases he.2

theorem returnId_eq {s s' : State} {t : Tid} {garbage : Int}
    (he : enabled s (.returnId t garbage) = true) (hs : step s (.returnId t garbage) = .ok s') :
    ∃ p g, s.adding t = .ran p g ∧ s' = s.returnId t p g garbage := by
  simp only [enabled, Bool.and_eq_true] at he
  simp only [step] at hs
  split at hs
  · next p g ht =>
    cases hs
    exact ⟨p, g, ht, rfl⟩
  · next ht =>
    split at he
    · next p g ht' => exact absurd ht' (ht p g)
    · cases he.2

/-- A `cancel` of an id that was returned. -/
theorem cancel_returned {s : State} {t : Tid} {timerId : TimerId} {born : Option Nat}
    (he : enabled s (.cancel t timerId born) = true) :
    (∀ g ∈ born, (timerId, g) ∈ s.returned) ∧
      (s.loop.isInLoopThread t = true → s.queue.inUserCode = true) := by
  simp only [enabled, Bool.and_eq_true] at he
  constructor
  · intro g hg
    simpa [Option.mem_def.1 hg] using he.2
  · intro hin
    have := he.1
    simp only [State.mayCall, State.outsideQueue, hin, Bool.and_eq_true] at this
    simpa using this.2

theorem Wf.fresh_of_waiting {s : State} (h : Wf s) {cb : Functor} {l : List Functor}
    (hw : s.loop.waiting = cb :: l) : ∀ p g, cb = .addTimerInLoop p g → s.queue.Fresh p g := by
  rintro p g rfl
  exact h.queued_fresh (p, g) (by rw [hw]; simp [adds, Functor.add?])

theorem Wf.fresh_of_created {s : State} (h : Wf s) {t : Tid} {p : Addr} {g : Nat}
    (ht : s.adding t = .created p g) :
    ∀ q g', Functor.addTimerInLoop p g = .addTimerInLoop q g' → s.queue.Fresh q g' := by
  rintro q g' ⟨⟩
  exact (h.created_fresh t p g ht).1

theorem Wf.step_move {s s' : State} {a : Action} (h : Wf s) (he : enabled s a = true)
    (hs : step s a = .ok s') : Move s a s' := by
  cases a with
  | loop a =>
    obtain ⟨l, hl, rfl⟩ := liftLoop_ok hs
    have hef := EventLoop.step_effect (enabled_of_loopEnabled he) hl
    rcases hef.waiting with ⟨t, cb, ha, hw⟩ | ⟨cb, rfl, -⟩ | hw
    · -- what users of the loop queue are their own functors
      obtain ⟨n, rfl⟩ : ∃ n, cb = .user n := by
        rcases ha with rfl | rfl <;> cases cb <;> first | exact ⟨_, rfl⟩ | cases he
      exact .push hw rfl (by simp) rfl rfl rfl rfl
    · cases he
    · exact .rest (.refl h.inv) hw rfl rfl rfl
  | callFunctor =>
    obtain ⟨cb, rest, l, hpc, hstep, hw, hu, hs⟩ := callFunctor_call he hs
    obtain ⟨hc, hloop⟩ := call_called (s := { s with loop := l }) h.inv hu
      (h.fresh_of_waiting hw) hs
    refine .pop (f := cb) ?_ ⟨hc.later, hc.adding, hc.returned, hc.cancelled, hc.cancels⟩
    rw [hloop]
    exact hw
  | newTimer t p request =>
    cases hs
    simp only [enabled, Bool.and_eq_true] at he
    exact .newTimer he.2 rfl
  | runAdd t =>
    obtain ⟨p, g, ht, hu, hs⟩ := runAdd_runInLoop he hs
    simp only [State.runInLoop] at hs
    split at hs
    · next hin =>
      obtain ⟨hc, -⟩ := call_called
        (s := { s with adding := Function.update s.adding t (.ran p g) }) h.inv (hu hin)
        (h.fresh_of_created ht) hs
      obtain ⟨q, hq, rfl⟩ := liftQueue_ok hs
      exact .runAdd ht hc.later rfl rfl rfl (.inl ⟨rfl, rfl⟩)
    · next hin =>
      cases hs
      refine .runAdd ht (.refl h.inv) rfl rfl rfl (.inr ⟨rfl, ?_⟩)
      simp only [EventLoop.State.runInLoop, hin]
      exact EventLoop.waiting_queueInLoop _ _ _
  | returnId t garbage =>
    obtain ⟨p, g, ht, rfl⟩ := returnId_eq he hs
    exact .returnId ht
  | cancel t timerId born =>
    obtain ⟨hret, hu⟩ := cancel_returned he
    simp only [step, State.runInLoop] at hs
    split at hs
    · next hin =>
      obtain rfl : s.loop.threadId = t := by
        simpa [EventLoop.State.isInLoopThread] using hin
      obtain ⟨hc, hloop⟩ := call_called h.inv (hu hin) (by simp) hs
      exact .cancelHere hret hloop hc
    · next hin =>
      cases hs
      refine .push (f := .cancelInLoop timerId born) ?_ rfl ?_ rfl rfl rfl rfl
      · simp only [EventLoop.State.runInLoop, hin]
        exact EventLoop.waiting_queueInLoop _ _ _
      · intro timerId' g e
        cases e
        exact hret g rfl
  | queue a =>
    obtain ⟨q, hq, rfl⟩ := liftQueue_ok hs
    exact .rest (queueEnabled_later h.inv he hq) rfl rfl rfl rfl

theorem Wf.move {s s' : State} {a : Action} (h : Wf s) (hm : Move s a s') : Wf s' := by
  cases hm with
  | rest hl hw ha hr _ => exact h.queue_step hl hw ha hr
  | push hw hf hid hq ha hr _ => exact h.push hw hf hid hq ha hr
  | pop hw hc => exact h.pop hw hc.later hc.adding hc.returned
  | cancelHere _ hloop hc => exact h.queue_step hc.later (by rw [hloop]) hc.adding hc.returned
  | newTimer he hreq =>
    refine h.newTimer he ?_ rfl rfl rfl
    simp [State.newTimer, hreq]
  | runAdd ht hl ha hr _ hw => exact h.runAdd ht hl ha hr hw
  | returnId ht => exact h.returnId ht _

/-! ## Cancelled timers stay out of the queue -/

/-- A `cancel` of timer `g` in the loop thread comes after its `addTimerInLoop`. -/
def CancelsAfterAdd (g : Nat) (s : State) (a : Action) (_ : State) : Prop :=
  match a with
  | .cancel t _ (some g') => g' = g → t = s.loop.threadId → g ∈ s.queue.handed
  | _ => True

instance decidableCancelsAfterAdd (g : Nat) (s : State) (a : Action) (t : State) :
    Decidable (CancelsAfterAdd g s a t) :=
  match a with
  | .cancel u _ (some g') =>
    inferInstanceAs (Decidable (g' = g → u = s.loop.threadId → g ∈ s.queue.handed))
  | .cancel _ _ none | .loop _ | .callFunctor | .newTimer _ _ _ | .runAdd _ | .returnId _ _
  | .queue _ => inferInstanceAs (Decidable True)

/-- Every step leaves a cancelled timer cancelled. -/
theorem Wf.move_cancelled {s s' : State} {a : Action} {g : Nat} (h : Wf s) (hm : Move s a s')
    (hc : Cancelled s.queue g) : Cancelled s'.queue g := by
  cases hm with
  | rest hl _ _ _ _ => exact hl.cancelled g hc
  | push _ _ _ hq _ _ _ =>
    rw [hq]
    exact hc
  | pop _ hcall => exact hcall.later.cancelled g hc
  | cancelHere _ _ hcall => exact hcall.later.cancelled g hc
  | newTimer he hreq =>
    have hl := (h.inv.effect_of_step he rfl).later h.inv
    simpa [State.newTimer, hreq] using hl.cancelled g hc
  | runAdd _ hl _ _ _ _ => exact hl.cancelled g hc
  | returnId _ => exact hc

/-- The step that executes a `cancelInLoop` cancels the timer. -/
theorem Wf.move_cancels {s s' : State} {a : Action} {g : Nat} (h : Wf s) (hm : Move s a s')
    (hP : CancelsAfterAdd g s a s') (hg : g ∈ s'.cancelled) :
    g ∈ s.cancelled ∨ Cancelled s'.queue g := by
  cases hm with
  | rest _ _ _ _ hc => exact .inl (hc ▸ hg)
  | push _ _ _ _ _ _ hc => exact .inl (hc ▸ hg)
  | pop hw hcall =>
    refine (hcall.cancelled g hg).imp_right ?_
    rintro ⟨timerId, rfl⟩
    -- nothing waits in front of it, so its timer has been handed over
    have ho := h.ordered
    rw [hw] at ho
    have hret := h.queued_returned timerId g (by rw [hw]; simp)
    exact hcall.cancels timerId g rfl (ho.1 g rfl) (h.returned timerId g hret).2
  | cancelHere hret _ hcall =>
    refine (hcall.cancelled g hg).imp_right ?_
    rintro ⟨timerId, he⟩
    cases he
    exact hcall.cancels _ g rfl (hP rfl rfl) (h.returned _ g (hret g rfl)).2
  | newTimer _ _ => exact .inl hg
  | runAdd _ _ _ _ hc _ => exact .inl (hc ▸ hg)
  | returnId _ => exact .inl hg

theorem run_cancelled {tid : Tid} {wall : Timestamp} {mono : Int} {as : List Action} {s : State}
    {g : Nat} (hP : machine.StepsMeet (CancelsAfterAdd g) (init tid wall mono) as)
    (hr : machine.run (init tid wall mono) as = some s) :
    Wf s ∧ (g ∈ s.cancelled → Cancelled s.queue g) := by
  have hk : machine.Keeps (CancelsAfterAdd g)
      fun s => Wf s ∧ (g ∈ s.cancelled → Cancelled s.queue g) := by
    rintro s a s' ⟨h, hc⟩ hP he hs
    have hm := h.step_move he hs
    refine ⟨h.move hm, fun hg => ?_⟩
    rcases h.move_cancels hm hP hg with hg | hg
    · exact h.move_cancelled hm (hc hg)
    · exact hg
  exact hk.run ⟨Wf.init tid wall mono, by simp [init]⟩ hP hr

theorem Wf.run_cancelled {s s' : State} {bs : List Action} {g : Nat} (h : Wf s)
    (hc : Cancelled s.queue g) (hr : machine.run s bs = some s') :
    Wf s' ∧ Cancelled s'.queue g := by
  have hk : machine.Keeps (fun _ _ _ => True) fun s => Wf s ∧ Cancelled s.queue g := by
    rintro s a s' ⟨h, hc⟩ - he hs
    have hm := h.step_move he hs
    exact ⟨h.move hm, h.move_cancelled hm hc⟩
  exact hk.run_all ⟨h, hc⟩ hr

/-- Timer number `g` is in `timers_` or in `activeTimers_`. -/
def InSets (q : TimerQueue.State) (g : Nat) : Prop :=
  ∃ p t, q.heap p = some t ∧ t.born = g ∧
    ((∃ when, toLex (when, p) ∈ q.timers) ∨ ∃ sequence, toLex (p, sequence) ∈ q.activeTimers)

/-- **Add, then cancel**: if no `cancel` of the timer in the loop thread overtakes its
`addTimerInLoop`, a timer whose `cancelInLoop` has been executed is in neither set, then and
ever after. -/
theorem cancel_after_add_removes (tid : Tid) (wall : Timestamp) (mono : Int) (as : List Action)
    (s : State) (g : Nat) (hP : machine.StepsMeet (CancelsAfterAdd g) (init tid wall mono) as)
    (hr : machine.run (init tid wall mono) as = some s) (hg : g ∈ s.cancelled) :
    g ∈ s.queue.handed ∧ ∀ bs s', machine.run s bs = some s' → ¬ InSets s'.queue g := by
  obtain ⟨h, hc⟩ := run_cancelled hP hr
  refine ⟨(hc hg).handed, fun bs s' hr' => ?_⟩
  obtain ⟨h', hc'⟩ := h.run_cancelled (hc hg) hr'
  rintro ⟨p, t, ht, hb, hin⟩
  rcases hin with ⟨when, hin⟩ | ⟨sequence, hin⟩
  · exact (hc'.not_inSets h'.inv ht hb when 0).1 hin
  · exact (hc'.not_inSets h'.inv ht hb 0 sequence).2 hin

/-- Thread 2 adds a timer and thread 3 cancels it, both through the queue of functors. -/
def foreignRun : List Action :=
  [.newTimer 2 8 (.runAt 150), .runAdd 2, .loop (.testWakeup 2), .loop (.wakeup 2), .returnId 2 0,
    .cancel 3 ⟨8, 1⟩ (some 0), .loop (.loop 1), .loop .testQuit, .loop (.pollReturns []),
    .loop .eventsDone, .loop .swap, .callFunctor, .loop .functorReturns, .callFunctor]

theorem foreignRun_removes :
    ∃ s, machine.run (init 1 100 100000) foreignRun = some s ∧ s.cancelled = [0] ∧
      ¬ InSets s.queue 0 := by
  refine ⟨_, rfl, rfl, (cancel_after_add_removes 1 100 100000 foreignRun _ 0 ?_ rfl
    (by decide)).2 [] _ rfl⟩
  decide

/-- Thread 2 adds a timer; an event callback in the loop thread cancels it while its
`addTimerInLoop` is still queued. -/
def overtakingRun : List Action :=
  [.loop (.loop 1), .loop .testQuit, .loop (.pollReturns [.other 0]), .loop .handleEvent,
    .newTimer 2 8 (.runAt 150), .runAdd 2, .loop (.testWakeup 2), .loop (.wakeup 2),
    .returnId 2 0, .cancel 1 ⟨8, 1⟩ (some 0), .loop .eventReturns, .loop .eventsDone,
    .loop .swap, .callFunctor]

/-- Both functions are executed, and the timer is in the sets. -/
theorem overtakingRun_keeps :
    ∃ s, machine.run (init 1 100 100000) overtakingRun = some s ∧
      s.returned = [(⟨8, 1⟩, 0)] ∧ s.cancelled = [0] ∧ s.queue.handed = [0] ∧
      InSets s.queue 0 := by
  refine ⟨_, rfl, by decide, rfl, rfl, 8, _, rfl, rfl, .inl ⟨150, by decide⟩⟩

end Rawmd.EventLoopTimers
