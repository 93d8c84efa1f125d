import Rawmd.Net.TimerQueueFire

/-!
# When timers are called back

`Event`s note the time given to each timer, and the reading of the clock with which each callback
is made.  A timer that is due at `due` is called back at times that are `Spaced`: the first one not
before `due`, and, if it repeats, each further one not before `addTime` of the one before.

    Timely s events → the times of each timer are Spaced, and an interval apart unless
    `addTime` overflows                                                 (timers_spaced)
-/

namespace Rawmd.TimerQueue

open MachineInt

inductive Event where
  /-- `new Timer(cb, when, interval)` -/
  | made (when : Timestamp) (interval : Seconds)
  /-- the callback of the timer number `g`, in a `handleRead` that read `now` -/
  | called (g : Nat) (now : Timestamp)

namespace Event

def made? : Event → Option (Timestamp × Seconds)
  | .made when interval => some (when, interval)
  | .called .. => none

def calledOf? (g : Nat) : Event → Option Timestamp
  | .called g' now => if g' = g then some now else none
  | .made .. => none

end Event

/-- The timers in the order of their creation. -/
def made (events : List Event) : List (Timestamp × Seconds) := events.filterMap Event.made?

/-- The times at which the timer number `g` was called back. -/
def calls (g : Nat) (events : List Event) : List Timestamp := events.filterMap (Event.calledOf? g)

def events (s : State) : Action → List Event
  | .newTimer _ when interval => [.made when interval]
  | .runCallback =>
    match s.phase with
    | .calling now _ (e :: _) =>
      match s.heap (ofLex e).2 with
      | some t => [.called t.born now]
      | none => []
    | _ => []
  | _ => []

/-! ## Times -/

/-- A timer due at `due` is called back then or later, and, if it repeats, after each call not
before the time to which `restart` sets it. -/
def Spaced (interval : Seconds) : Timestamp → List Timestamp → Prop
  | _, [] => True
  | due, now :: l =>
    due ≤ now ∧ (l = [] ∨ interval.positive = true) ∧ Spaced interval (addTime now interval) l

/-- When it is due after the calls `l`. -/
def nextDue (interval : Seconds) (due : Timestamp) (l : List Timestamp) : Timestamp :=
  l.foldl (fun _ now => addTime now interval) due

theorem nextDue_concat (interval : Seconds) (due now : Timestamp) (l : List Timestamp) :
    nextDue interval due (l ++ [now]) = addTime now interval := by
  rw [nextDue, List.foldl_append]
  rfl

theorem Spaced.concat {interval : Seconds} {due now : Timestamp} {l : List Timestamp}
    (h : Spaced interval due l) (hnow : nextDue interval due l ≤ now)
    (hagain : l = [] ∨ interval.positive = true) : Spaced interval due (l ++ [now]) := by
  induction l generalizing due with
  | nil => exact ⟨hnow, .inl rfl, trivial⟩
  | cons first l ih =>
    obtain ⟨hdue, -, hl⟩ := h
    have hpos : interval.positive = true := hagain.resolve_left (List.cons_ne_nil _ _)
    exact ⟨hdue, .inr hpos, ih hl hnow (.inr hpos)⟩

theorem Spaced.next {interval : Seconds} {due now next : Timestamp} {l l' : List Timestamp}
    (h : Spaced interval due (l ++ now :: next :: l')) : addTime now interval ≤ next := by
  induction l generalizing due with
  | nil =>
    obtain ⟨-, -, hnext, -⟩ := h
    exact hnext
  | cons first l ih =>
    obtain ⟨-, -, hl⟩ := h
    exact ih hl

/-! ## States -/

/-- The callback of the timer at `p` has been called in the batch being run. -/
def State.Ran (s : State) (p : Addr) : Prop := p ∈ addrs s.batch ∧ p ∉ addrs s.rest

/-- The time the batch is run with. -/
def State.batchTime? (s : State) : Option Timestamp :=
  match s.phase with
  | .calling now _ _ => some now
  | _ => none

/-- What the expiration of a live timer is, and how it comes about. -/
structure Dated (s : State) (l : List Event) (p : Addr) (t : Timer) : Prop where
  made : ∃ due, (made l)[t.born]? = some (due, t.interval) ∧
    (¬ s.Ran p → t.expiration = nextDue t.interval due (calls t.born l))
  again : ¬ s.Ran p → calls t.born l = [] ∨ t.interval.positive = true
  ran : s.Ran p → ∃ now, s.batchTime? = some now ∧ (calls t.born l).getLast? = some now

structure Timely (s : State) (l : List Event) : Prop where
  length : (made l).length = s.numCreated
  calls_lt : ∀ g, s.numCreated ≤ g → calls g l = []
  dated : ∀ p t, s.heap p = some t → Dated s l p t
  /-- what is still to be called in the batch is due -/
  due : ∀ e ∈ s.rest, ∀ t now, s.heap (ofLex e).2 = some t → s.batchTime? = some now →
    t.expiration ≤ now
  spaced : ∀ g due interval, (made l)[g]? = some (due, interval) →
    Spaced interval due (calls g l)

theorem Timely.init (wall : Timestamp) (mono : Int) : Timely (init wall mono) [] := by
  constructor
  · rfl
  · exact fun _ _ => rfl
  · intro p t ht
    cases ht
  · intro e he
    cases he
  · intro g due interval hg
    cases hg

/-! ## Steps -/

section

variable {s s' : State} {l : List Event}

theorem made_append (l l' : List Event) : made (l ++ l') = made l ++ made l' :=
  List.filterMap_append ..

theorem calls_append (g : Nat) (l l' : List Event) : calls g (l ++ l') = calls g l ++ calls g l' :=
  List.filterMap_append ..

theorem not_ran_of_batch {p : Addr} (h : s.batch = []) : ¬ s.Ran p := by
  intro hran
  rw [State.Ran, h] at hran
  cases hran.1

theorem ran_congr (hphase : s'.phase = s.phase) (p : Addr) : s'.Ran p ↔ s.Ran p := by
  rw [State.Ran, State.Ran, State.batch, State.batch, State.rest, State.rest, hphase]

theorem batchTime_congr (hphase : s'.phase = s.phase) : s'.batchTime? = s.batchTime? := by
  rw [State.batchTime?, State.batchTime?, hphase]

/-- Timers may go, and those that stay are as they were. -/
theorem Timely.of_ran (h : Timely s l) (hheap : ∀ p t, s'.heap p = some t → s.heap p = some t)
    (hnum : s'.numCreated = s.numCreated) (hran : ∀ p, s'.Ran p ↔ s.Ran p)
    (htime : ∀ p, s.Ran p → s'.batchTime? = s.batchTime?)
    (hdue : ∀ e ∈ s'.rest, ∀ t now, s'.heap (ofLex e).2 = some t → s'.batchTime? = some now →
      t.expiration ≤ now) : Timely s' l := by
  constructor
  · rw [hnum]
    exact h.length
  · rw [hnum]
    exact h.calls_lt
  · intro p t ht
    obtain ⟨⟨due, hmade, hexp⟩, hagain, hcalled⟩ := h.dated p t (hheap p t ht)
    constructor
    · refine ⟨due, hmade, ?_⟩
      rw [hran]
      exact hexp
    · rw [hran]
      exact hagain
    · intro hp
      have hp := (hran p).1 hp
      rw [htime p hp]
      exact hcalled hp
  · exact hdue
  · exact h.spaced

theorem Timely.congr (h : Timely s l) (hheap : ∀ p t, s'.heap p = some t → s.heap p = some t)
    (hnum : s'.numCreated = s.numCreated) (hphase : s'.phase = s.phase) : Timely s' l := by
  refine h.of_ran hheap hnum (ran_congr hphase) (fun _ _ => batchTime_congr hphase) ?_
  intro e he t now ht hnow
  rw [State.rest, hphase] at he
  rw [batchTime_congr hphase] at hnow
  exact h.due e he t now (hheap _ t ht) hnow

/-- Outside a batch. -/
theorem Timely.of_batch (h : Timely s l) (hheap : ∀ p t, s'.heap p = some t → s.heap p = some t)
    (hnum : s'.numCreated = s.numCreated) (hs : s.batch = []) (hs' : s'.batch = [])
    (hrest : s'.rest = []) : Timely s' l := by
  refine h.of_ran hheap hnum (fun p => ?_) (fun p hp => absurd hp (not_ran_of_batch hs)) ?_
  · exact iff_of_false (not_ran_of_batch hs') (not_ran_of_batch hs)
  · intro e he
    rw [hrest] at he
    cases he

theorem Timely.newTimer (h : Timely s l) (hinv : Inv s) {p : Addr} (hfree : s.heap p = none)
    (when : Timestamp) (interval : Seconds) :
    Timely (s.newTimer p when interval) (l ++ [.made when interval]) := by
  have hcalls (g : Nat) : calls g (l ++ [.made when interval]) = calls g l := by
    rw [calls_append]
    exact List.append_nil _
  have hmade : made (l ++ [.made when interval]) = made l ++ [(when, interval)] := made_append ..
  have hlen := h.length
  have hnot : ¬ s.Ran p := by
    rintro ⟨hp, -⟩
    obtain ⟨t, ht, -⟩ := hinv.owned.sets.out_live p hp
    rw [hfree] at ht
    cases ht
  constructor
  · rw [hmade, List.length_append, hlen]
    rfl
  · intro g hg
    rw [hcalls]
    exact h.calls_lt g (Nat.le_of_succ_le hg)
  · intro q t ht
    by_cases hq : q = p
    · subst hq
      change Function.update s.heap q _ q = some t at ht
      rw [Function.update_self] at ht
      cases ht
      have hnone := h.calls_lt s.numCreated (Nat.le_refl _)
      refine ⟨⟨when, ?_, fun _ => ?_⟩, fun _ => ?_, fun hran => absurd hran hnot⟩
      · dsimp only
        rw [hmade, List.getElem?_append_right (by omega), hlen, Nat.sub_self]
        rfl
      · dsimp only
        rw [hcalls, hnone]
        rfl
      · dsimp only
        rw [hcalls]
        exact .inl hnone
    · change Function.update s.heap p _ q = some t at ht
      rw [Function.update_of_ne hq] at ht
      have hlt := hinv.owned.memory.born_lt q t ht
      obtain ⟨⟨due, hdue, hexp⟩, hagain, hcalled⟩ := h.dated q t ht
      rw [← hcalls] at hexp hagain hcalled
      refine ⟨⟨due, ?_, hexp⟩, hagain, hcalled⟩
      rw [hmade, List.getElem?_append_left (by omega), hdue]
  · intro e he t now ht hnow
    have hne : (ofLex e).2 ≠ p := by
      intro heq
      obtain ⟨ran, hran⟩ := hinv.ran
      have hmem : e ∈ s.batch := by
        rw [hran]
        exact List.mem_append_right _ he
      obtain ⟨u, hu, -⟩ := hinv.owned.sets.out_live (ofLex e).2 (List.mem_map.2 ⟨e, hmem, rfl⟩)
      rw [heq, hfree] at hu
      cases hu
    change Function.update s.heap p _ (ofLex e).2 = some t at ht
    rw [Function.update_of_ne hne] at ht
    exact h.due e he t now ht hnow
  · intro g due i hg
    rw [hcalls]
    rw [hmade, List.getElem?_append] at hg
    split at hg
    · exact h.spaced g due i hg
    · rw [h.calls_lt g (by omega)]
      trivial

theorem Timely.readTimerfd (h : Timely s l) (ho : Owned s []) {now : Timestamp}
    (hphase : s.phase = .entered now) (hheap : s'.heap = s.heap)
    (hnum : s'.numCreated = s.numCreated)
    (hphase' : s'.phase = .calling now (s.due now) (s.due now)) : Timely s' l := by
  have hbatch : s.batch = [] := by
    rw [State.batch, hphase]
  have hnot (p : Addr) : ¬ s'.Ran p := by
    rintro ⟨hp, hp'⟩
    rw [State.batch, hphase'] at hp
    rw [State.rest, hphase'] at hp'
    exact hp' hp
  refine h.of_ran (fun p t ht => hheap ▸ ht) hnum
    (fun p => iff_of_false (hnot p) (not_ran_of_batch hbatch))
    (fun p hp => absurd hp (not_ran_of_batch hbatch)) ?_
  intro e he t now' ht hnow
  rw [State.rest, hphase'] at he
  rw [State.batchTime?, hphase'] at hnow
  cases hnow
  rw [hheap] at ht
  obtain ⟨⟨u, hw, hu⟩, hle⟩ := (ho.mem_due now (ofLex e).1 (ofLex e).2).1 he
  have hw := hw.1
  rw [ht] at hw
  cases hw
  rwa [hu]

theorem calls_called (g : Nat) (l : List Event) (g' : Nat) (now : Timestamp) :
    calls g (l ++ [.called g' now]) = if g' = g then calls g l ++ [now] else calls g l := by
  rw [calls_append]
  by_cases hg : g' = g
  · rw [if_pos hg]
    simp only [calls, List.filterMap_cons, Event.calledOf?, if_pos hg, List.filterMap_nil]
  · rw [if_neg hg]
    simp only [calls, List.filterMap_cons, Event.calledOf?, if_neg hg, List.filterMap_nil,
      List.append_nil]

/-- The next timer of the batch has not been called, and is due. -/
theorem Timely.runCallback (h : Timely s l) (hinv : Inv s) {now : Timestamp}
    {expired rest : List Entry} {e : Entry} {t : Timer}
    (hphase : s.phase = .calling now expired (e :: rest)) (ht : s.heap (ofLex e).2 = some t) :
    Timely { s with phase := .calling now expired rest, started := s.started ++ [t.born] }
      (l ++ [.called t.born now]) := by
  have hbatch : s.batch = expired := by
    rw [State.batch, hphase]
  have hrest : s.rest = e :: rest := by
    rw [State.rest, hphase]
  have htime : s.batchTime? = some now := by
    rw [State.batchTime?, hphase]
  obtain ⟨ran, hran⟩ := hinv.ran
  have hnodup := hinv.owned.sets.out_nodup
  rw [hran, hrest, addrs, List.map_append, List.map_cons] at hnodup
  have hfirst : (ofLex e).2 ∉ addrs rest :=
    (List.nodup_cons.1 (List.nodup_append.1 hnodup).2.1).1
  have hnot : ¬ s.Ran (ofLex e).2 := by
    rintro ⟨-, hp⟩
    rw [hrest] at hp
    exact hp List.mem_cons_self
  have hle : t.expiration ≤ now := h.due e (hrest ▸ List.mem_cons_self) t now ht htime
  obtain ⟨⟨due, hmade, hexp⟩, hagain, -⟩ := h.dated _ t ht
  have hexp := hexp hnot
  have hagain := hagain hnot
  have hmade' : made (l ++ [.called t.born now]) = made l :=
    (made_append ..).trans (List.append_nil _)
  constructor
  · rw [hmade']
    exact h.length
  · intro g hg
    have hlt := hinv.owned.memory.born_lt _ t ht
    rw [calls_called, if_neg (by dsimp only at hg; omega)]
    exact h.calls_lt g hg
  · intro p u hu
    by_cases hp : p = (ofLex e).2
    · subst hp
      have hu : s.heap (ofLex e).2 = some u := hu
      rw [ht] at hu
      cases hu
      have hran' : State.Ran { s with
          phase := .calling now expired rest
          started := s.started ++ [t.born] } (ofLex e).2 := by
        refine ⟨?_, hfirst⟩
        show (ofLex e).2 ∈ addrs expired
        rw [← hbatch, hran, hrest]
        exact List.mem_map.2 ⟨e, List.mem_append_right _ List.mem_cons_self, rfl⟩
      refine ⟨⟨due, hmade'.symm ▸ hmade, fun hn => absurd hran' hn⟩, fun hn => absurd hran' hn, ?_⟩
      intro _
      rw [calls_called, if_pos rfl]
      exact ⟨now, rfl, List.getLast?_concat⟩
    · have hu : s.heap p = some u := hu
      have hborn : t.born ≠ u.born := by
        intro heq
        exact hp (hinv.owned.memory.born_inj _ _ _ _ hu ht heq.symm)
      have hiff : State.Ran { s with
          phase := .calling now expired rest
          started := s.started ++ [t.born] } p ↔ s.Ran p := by
        show p ∈ addrs expired ∧ p ∉ addrs rest ↔ _
        have hcons : p ∈ addrs (e :: rest) ↔ p ∈ addrs rest := by
          rw [addrs, List.map_cons, List.mem_cons]
          exact or_iff_right hp
        rw [State.Ran, hbatch, hrest, hcons]
      obtain ⟨⟨due', hdue, hexp'⟩, hagain', hcalled⟩ := h.dated p u hu
      have hcalls : calls u.born (l ++ [.called t.born now]) = calls u.born l := by
        rw [calls_called, if_neg hborn]
      refine ⟨⟨due', hmade'.symm ▸ hdue, ?_⟩, ?_, ?_⟩
      · rw [hiff, hcalls]
        exact hexp'
      · rw [hiff, hcalls]
        exact hagain'
      · rw [hiff, hcalls]
        intro hp'
        obtain ⟨now', hnow', hlast⟩ := hcalled hp'
        rw [htime] at hnow'
        exact ⟨now', hnow', hlast⟩
  · intro e' he' u now' hu hnow
    refine h.due e' ?_ u now' hu ?_
    · rw [hrest]
      exact List.mem_cons_of_mem _ he'
    · rw [htime]
      exact hnow
  · intro g due' i hg
    rw [hmade'] at hg
    rw [calls_called]
    by_cases hgt : t.born = g
    · subst hgt
      rw [hmade] at hg
      cases hg
      rw [if_pos rfl]
      exact (h.spaced _ _ _ hmade).concat (hexp ▸ hle) hagain
    · rw [if_neg hgt]
      exact h.spaced g due' i hg

/-- A timer that is put back is due an interval after the time of the batch. -/
theorem Timely.reset (h : Timely s l) (hinv : Inv s) {now : Timestamp} {expired : List Entry}
    (hphase : s.phase = .calling now expired []) (hresets : Resets now s expired s')
    (hnum : s'.numCreated = s.numCreated) (hphase' : s'.phase = .idle) : Timely s' l := by
  have hbatch : s.batch = expired := by
    rw [State.batch, hphase]
  have htime : s.batchTime? = some now := by
    rw [State.batchTime?, hphase]
  have hbatch' : s'.batch = [] := by
    rw [State.batch, hphase']
  have hran (p : Addr) : s.Ran p ↔ p ∈ addrs expired := by
    rw [State.Ran, hbatch, State.rest, hphase]
    exact and_iff_left List.not_mem_nil
  have hnot (p : Addr) : ¬ s'.Ran p := not_ran_of_batch hbatch'
  constructor
  · rw [hnum]
    exact h.length
  · rw [hnum]
    exact h.calls_lt
  · intro p u hu
    by_cases hp : p ∈ addrs expired
    · obtain ⟨e, he, rfl⟩ := List.mem_map.1 hp
      cases ht : s.heap (ofLex e).2 with
      | none =>
        obtain ⟨t, ht', -⟩ := hinv.owned.sets.out_live (ofLex e).2 (hbatch ▸ hp)
        rw [ht] at ht'
        cases ht'
      | some t =>
        have hput := hresets.batch _ hp t ht
        rw [hu] at hput
        split at hput
        · next hrepeats =>
          cases hput
          obtain ⟨⟨due, hdue, -⟩, -, hcalled⟩ := h.dated _ t ht
          obtain ⟨now', hnow', hlast⟩ := hcalled ((hran _).2 hp)
          rw [htime] at hnow'
          cases hnow'
          obtain ⟨earlier, hearlier⟩ := List.getLast?_eq_some_iff.1 hlast
          have hrestart : t.restart now = { t with expiration := addTime now t.interval } :=
            if_pos hrepeats.1
          rw [hrestart]
          refine ⟨⟨due, hdue, fun _ => ?_⟩, fun _ => .inr hrepeats.1, fun hn => absurd hn (hnot _)⟩
          show addTime now t.interval = nextDue t.interval due (calls t.born l)
          rw [hearlier, nextDue_concat]
        · cases hput
    · rw [hresets.other p hp] at hu
      have hp' : ¬ s.Ran p := mt (hran p).1 hp
      obtain ⟨⟨due, hdue, hexp⟩, hagain, -⟩ := h.dated p u hu
      exact ⟨⟨due, hdue, fun _ => hexp hp'⟩, fun _ => hagain hp', fun hn => absurd hn (hnot p)⟩
  · intro e he
    rw [State.rest, hphase'] at he
    cases he
  · exact h.spaced

theorem Timely.silent {a : Action} (h : Timely s' l) (hevents : events s a = []) :
    Timely s' (l ++ events s a) := by
  rw [hevents, List.append_nil]
  exact h

theorem Timely.effect (h : Timely s l) (hinv : Inv s) {a : Action} (he : Effect s a s') :
    Timely s' (l ++ events s a) := by
  cases he with
  | newTimer _ hfree _ => exact h.newTimer hinv hfree _ _
  | addEarliest _ _ _ _ | addLater _ _ _ _ | cancelNoted _ _ _ | cancelStale _ _ _ | clock _ =>
    refine Timely.silent ?_ rfl
    exact h.congr (fun _ _ ht => ht) rfl rfl
  | @cancelActive timerId t _ _ _ =>
    refine Timely.silent ?_ rfl
    refine h.congr (fun p u hu => ?_) rfl rfl
    change Function.update s.heap timerId.timer none p = some u at hu
    rw [Function.update_apply] at hu
    split at hu
    · cases hu
    · exact hu
  | handleRead hphase =>
    refine Timely.silent ?_ rfl
    refine h.of_batch (fun _ _ ht => ht) rfl ?_ rfl rfl
    rw [State.batch, hphase]
  | readTimerfd hphase _ =>
    refine Timely.silent ?_ rfl
    exact h.readTimerfd (hinv.owned_entered hphase) hphase rfl rfl rfl
  | @runCallback now expired rest e t hphase ht =>
    have hevents : events s .runCallback = [.called t.born now] := by
      simp only [events, hphase, ht]
    rw [hevents]
    exact h.runCallback hinv hphase ht
  | @reset now expired u hphase hl =>
    refine Timely.silent ?_ rfl
    have hr := hl.resets
    have hframe := hl.frame
    have hresets : Resets now s expired u.rearmed := by
      refine ⟨?_, ?_⟩
      · rw [rearmed_frame]
        exact hr.other
      · rw [rearmed_frame]
        exact hr.batch
    refine h.reset hinv hphase hresets ?_ ?_
    · rw [rearmed_frame, hframe]
    · rw [rearmed_frame, hframe]
  | @destroy H D hphase _ hH =>
    refine Timely.silent ?_ rfl
    refine h.of_batch (fun p t ht => ((hH p t).1 ht).1) rfl ?_ rfl rfl
    rw [State.batch, hphase]

end

/-! ## Runs -/

/-- **Timers are called when they are due.**  In every run, whatever the callbacks add and cancel
and however the clock is set, a timer is not called before the time it was created for, a one-shot
timer is called once at most, and a repeating one waits for its interval after each call, if the
sum of the two is a 64-bit number. -/
theorem timers_spaced (wall : Timestamp) (mono : Int) (as : List Action) (s : State)
    (hr : machine.run (init wall mono) as = some s) (g : Nat) (due : Timestamp)
    (interval : Seconds)
    (hg : (made (machine.history events (init wall mono) as))[g]? = some (due, interval)) :
    Spaced interval due (calls g (machine.history events (init wall mono) as)) ∧
    ∀ l now next l',
      calls g (machine.history events (init wall mono) as) = l ++ now :: next :: l' →
      Fits 64 (now + interval.micros) → now + interval.micros ≤ next := by
  have hstep : ∀ s l a t, (Inv s ∧ Timely s l) → machine.enabled s a = true →
      machine.step s a = .ok t → Inv t ∧ Timely t (l ++ events s a) := by
    rintro s l a t ⟨hinv, h⟩ he ht
    have heffect := hinv.effect_of_step he ht
    exact ⟨hinv.effect heffect, h.effect hinv heffect⟩
  have hlast := Machine.run_history hstep ⟨init_inv wall mono, Timely.init wall mono⟩ hr
  rw [List.nil_append] at hlast
  have hspaced := hlast.2.spaced g due interval hg
  refine ⟨hspaced, fun l now next l' hl hfits => ?_⟩
  rw [hl] at hspaced
  have hnext := hspaced.next
  rwa [addTime, wrap_of_fits (by decide) hfits] at hnext

def halfMillisecond : Seconds := ⟨true, 500, halfMillisecond_fits, halfMillisecond_nonneg⟩

/-- A timer that repeats: late at first, then called again, with the clock set back in between. -/
def repeatingRun : List Action :=
  [.newTimer 16 150 halfMillisecond, .addTimerInLoop 16,
    .clock 200 200000, .handleRead, .readTimerfd, .runCallback, .reset,
    .clock 100 300000, .handleRead, .readTimerfd, .reset,
    .clock 700 900000, .handleRead, .readTimerfd, .runCallback, .reset]

theorem repeatingRun_spaced :
    ∃ s, machine.run (init 100 100000) repeatingRun = some s ∧
      calls 0 (machine.history events (init 100 100000) repeatingRun) = [200, 700] ∧
      Spaced halfMillisecond 150
        (calls 0 (machine.history events (init 100 100000) repeatingRun)) ∧
      (200 : Int) + 500 ≤ 700 := by
  obtain ⟨hspaced, happart⟩ := timers_spaced 100 100000 repeatingRun _ rfl 0 150 halfMillisecond rfl
  exact ⟨_, rfl, rfl, hspaced, happart [] 200 700 [] rfl (by decide)⟩

end Rawmd.TimerQueue
