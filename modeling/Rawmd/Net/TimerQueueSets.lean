import Rawmd.Net.TimerQueue

/-!
# The timer queue: the `Timer` objects and the two sets

`Memory s` says what holds of the objects in memory and of their history: one number for
each object, none deleted twice, none lost.  `Sets s out` says that `timers_` and
`activeTimers_` hold exactly the live timers given to the loop, each under its current
expiration and its sequence number, except the addresses in `out`, which are taken out.
The lemmas say how each elementary change acts on the two: creating a timer, giving it to
the loop, inserting it, erasing it, deleting it, changing its expiration.
-/

namespace Rawmd.TimerQueue

open MachineInt

/-! ## Memory -/

/-- The `Timer` objects and their history. -/
structure Memory (s : State) : Prop where
  addr : ∀ p t, s.heap p = some t → 0 < p ∧ p < uintptrMax
  born_lt : ∀ p t, s.heap p = some t → t.born < s.numCreated
  born_inj : ∀ p q t u, s.heap p = some t → s.heap q = some u → t.born = u.born → p = q
  live : ∀ p t, s.heap p = some t → t.born ∉ s.deleted
  deleted_handed : ∀ g ∈ s.deleted, g ∈ s.handed
  deleted_nodup : s.deleted.Nodup
  handed_lt : ∀ g ∈ s.handed, g < s.numCreated
  handed_nodup : s.handed.Nodup
  kept : ∀ g ∈ s.handed, g ∈ s.deleted ∨ ∃ p t, s.heap p = some t ∧ t.born = g
  id_created : ∀ p t, s.heap p = some t → (⟨p, t.sequence⟩, t.born) ∈ s.created
  created_lt : ∀ c ∈ s.created, c.2 < s.numCreated
  created_inj : ∀ c ∈ s.created, ∀ d ∈ s.created, c.2 = d.2 → c = d

/-- The state `delete` leaves. -/
def State.dropped (s : State) (p : Addr) (t : Timer) : State :=
  { s with heap := Function.update s.heap p none, deleted := s.deleted ++ [t.born] }

namespace Memory

variable {s s' : State} {p : Addr} {t : Timer}

theorem congr (h : Memory s) (hheap : s'.heap = s.heap) (hnum : s'.numCreated = s.numCreated)
    (hcreated : s'.created = s.created) (hhanded : s'.handed = s.handed)
    (hdeleted : s'.deleted = s.deleted) : Memory s' := by
  obtain ⟨h1, h2, h3, h4, h5, h6, h7, h8, h9, h10, h11, h12⟩ := h
  constructor <;> simp only [hheap, hnum, hcreated, hhanded, hdeleted] <;> assumption

theorem newTimer (h : Memory s) (hp : 0 < p ∧ p < uintptrMax) (hfree : s.heap p = none)
    (when : Timestamp) (interval : Seconds) : Memory (s.newTimer p when interval) := by
  -- what is live now is the new timer, or was live before
  have old : ∀ q u, (s.newTimer p when interval).heap q = some u →
      q = p ∧ u = ⟨when, interval, wrap 64 (s.numCreated + 1), s.numCreated⟩ ∨
        s.heap q = some u := by
    intro q u hu
    simp only [State.newTimer, Function.update_apply] at hu
    split at hu
    · next hq => exact .inl ⟨hq, (Option.some.inj hu).symm⟩
    · exact .inr hu
  refine
    { addr := ?_, born_lt := ?_, born_inj := ?_, live := ?_
      deleted_handed := h.deleted_handed, deleted_nodup := h.deleted_nodup
      handed_lt := fun g hg => Nat.lt_succ_of_lt (h.handed_lt g hg)
      handed_nodup := h.handed_nodup, kept := ?_, id_created := ?_, created_lt := ?_
      created_inj := ?_ }
  · intro q u hu
    rcases old q u hu with ⟨rfl, -⟩ | hu
    · exact hp
    · exact h.addr q u hu
  · intro q u hu
    rcases old q u hu with ⟨-, rfl⟩ | hu
    · exact Nat.lt_succ_self _
    · exact Nat.lt_succ_of_lt (h.born_lt q u hu)
  · intro q r u v hu hv huv
    rcases old q u hu with ⟨hq, hu'⟩ | hu <;> rcases old r v hv with ⟨hr, hv'⟩ | hv
    · rw [hq, hr]
    · have := h.born_lt r v hv
      rw [← huv, hu'] at this
      exact absurd this (lt_irrefl _)
    · have := h.born_lt q u hu
      rw [huv, hv'] at this
      exact absurd this (lt_irrefl _)
    · exact h.born_inj q r u v hu hv huv
  · intro q u hu hd
    rcases old q u hu with ⟨-, rfl⟩ | hu
    · exact absurd (h.handed_lt _ (h.deleted_handed _ hd)) (lt_irrefl _)
    · exact h.live q u hu hd
  · intro g hg
    rcases h.kept g hg with hd | ⟨q, u, hu, hgu⟩
    · exact Or.inl hd
    · refine Or.inr ⟨q, u, ?_, hgu⟩
      have hqp : q ≠ p := fun e => by rw [e, hfree] at hu; cases hu
      simpa [State.newTimer, Function.update_apply, hqp] using hu
  · intro q u hu
    show _ ∈ s.created ++ [(⟨p, wrap 64 (s.numCreated + 1)⟩, s.numCreated)]
    rcases old q u hu with ⟨rfl, rfl⟩ | hu
    · simp
    · exact List.mem_append_left _ (h.id_created q u hu)
  · intro c hc
    show c.2 < s.numCreated + 1
    rcases List.mem_append.1 hc with hc | hc
    · have := h.created_lt c hc
      omega
    · rw [List.mem_singleton.1 hc]
      omega
  · intro c hc d hd hcd
    simp only [State.newTimer, List.mem_append, List.mem_singleton] at hc hd
    rcases hc with hc | rfl <;> rcases hd with hd | rfl
    · exact h.created_inj c hc d hd hcd
    · have := h.created_lt c hc
      simp only at hcd
      omega
    · have := h.created_lt d hd
      simp only at hcd
      omega
    · rfl

/-- Giving a fresh timer to the loop. -/
theorem hand (h : Memory s) (ht : s.heap p = some t) (hfresh : t.born ∉ s.handed) :
    Memory { s with handed := s.handed ++ [t.born] } :=
  { h with
    deleted_handed := fun g hg => List.mem_append_left _ (h.deleted_handed g hg)
    handed_lt := by
      intro g hg
      rcases List.mem_append.1 hg with hg | hg
      · exact h.handed_lt g hg
      · rw [List.mem_singleton.1 hg]; exact h.born_lt p t ht
    handed_nodup := by
      refine List.nodup_append.2 ⟨h.handed_nodup, List.nodup_singleton _, ?_⟩
      intro g hg g' hg' e
      rw [List.mem_singleton.1 hg'] at e
      exact hfresh (e ▸ hg)
    kept := by
      intro g hg
      rcases List.mem_append.1 hg with hg | hg
      · exact h.kept g hg
      · rw [List.mem_singleton.1 hg]; exact Or.inr ⟨p, t, ht, rfl⟩ }

theorem delete (h : Memory s) (ht : s.heap p = some t) (hh : t.born ∈ s.handed) :
    Memory (s.dropped p t) := by
  -- what is still live was live before, at another address
  have old : ∀ q u, Function.update s.heap p none q = some u → q ≠ p ∧ s.heap q = some u := by
    intro q u hu
    rw [Function.update_apply] at hu
    split at hu
    · cases hu
    · next hq => exact ⟨hq, hu⟩
  refine
    { addr := fun q u hu => h.addr q u (old q u hu).2
      born_lt := fun q u hu => h.born_lt q u (old q u hu).2
      born_inj := fun q r u v hu hv => h.born_inj q r u v (old q u hu).2 (old r v hv).2
      live := ?_, deleted_handed := ?_, deleted_nodup := ?_
      handed_lt := h.handed_lt, handed_nodup := h.handed_nodup, kept := ?_
      id_created := fun q u hu => h.id_created q u (old q u hu).2
      created_lt := h.created_lt, created_inj := h.created_inj }
  · intro q u hu hd
    obtain ⟨hq, hu⟩ := old q u hu
    rcases List.mem_append.1 hd with hd | hd
    · exact h.live q u hu hd
    · exact hq (h.born_inj q p u t hu ht (List.mem_singleton.1 hd))
  · intro g hg
    rcases List.mem_append.1 hg with hg | hg
    · exact h.deleted_handed g hg
    · rw [List.mem_singleton.1 hg]; exact hh
  · refine List.nodup_append.2 ⟨h.deleted_nodup, List.nodup_singleton _, ?_⟩
    intro g hg g' hg' e
    rw [List.mem_singleton.1 hg'] at e
    exact h.live p t ht (e ▸ hg)
  · intro g hg
    rcases h.kept g hg with hd | ⟨q, u, hu, hgu⟩
    · exact Or.inl (List.mem_append_left _ hd)
    · by_cases hq : q = p
      · subst hq
        rw [ht] at hu
        cases hu
        left
        simp [State.dropped, ← hgu]
      · right
        exact ⟨q, u, by simpa [State.dropped, Function.update_apply, hq] using hu, hgu⟩

/-- Changing the expiration of a live timer. -/
theorem setTimer (h : Memory s) (ht : s.heap p = some t) {u : Timer} (hb : u.born = t.born)
    (hs : u.sequence = t.sequence) :
    Memory { s with heap := Function.update s.heap p (some u) } := by
  -- what is live now was live before, as the same object
  have old : ∀ q v, Function.update s.heap p (some u) q = some v →
      ∃ v', s.heap q = some v' ∧ v'.born = v.born ∧ v'.sequence = v.sequence := by
    intro q v hv
    rw [Function.update_apply] at hv
    split at hv
    · next hq => cases hv; exact ⟨t, hq ▸ ht, hb.symm, hs.symm⟩
    · exact ⟨v, hv, rfl, rfl⟩
  refine
    { h with addr := ?_, born_lt := ?_, born_inj := ?_, live := ?_, kept := ?_, id_created := ?_ }
  · intro q v hv
    obtain ⟨v', hv', -, -⟩ := old q v hv
    exact h.addr q v' hv'
  · intro q v hv
    obtain ⟨v', hv', hb', -⟩ := old q v hv
    rw [← hb']; exact h.born_lt q v' hv'
  · intro q r v w hv hw hvw
    obtain ⟨v', hv', hbv, -⟩ := old q v hv
    obtain ⟨w', hw', hbw, -⟩ := old r w hw
    exact h.born_inj q r v' w' hv' hw' (by rw [hbv, hbw, hvw])
  · intro q v hv
    obtain ⟨v', hv', hb', -⟩ := old q v hv
    rw [← hb']; exact h.live q v' hv'
  · intro g hg
    rcases h.kept g hg with hd | ⟨q, v, hv, hgv⟩
    · exact Or.inl hd
    · right
      by_cases hq : q = p
      · subst hq
        rw [ht] at hv
        cases hv
        exact ⟨q, u, by simp, by rw [hb, hgv]⟩
      · exact ⟨q, v, by simpa [Function.update_apply, hq] using hv, hgv⟩
  · intro q v hv
    obtain ⟨v', hv', hb', hs'⟩ := old q v hv
    rw [← hb', ← hs']; exact h.id_created q v' hv'

end Memory

/-! ## The two sets -/

/-- `p` is a live timer given to the loop and not in `out`. -/
def State.Waiting (s : State) (out : List Addr) (p : Addr) (t : Timer) : Prop :=
  s.heap p = some t ∧ t.born ∈ s.handed ∧ p ∉ out

structure Sets (s : State) (out : List Addr) : Prop where
  timers : ∀ when p, toLex (when, p) ∈ s.timers ↔ ∃ t, s.Waiting out p t ∧ t.expiration = when
  active : ∀ p seq, toLex (p, seq) ∈ s.activeTimers ↔ ∃ t, s.Waiting out p t ∧ t.sequence = seq
  sizes : s.timers.size = s.activeTimers.size
  out_live : ∀ p ∈ out, ∃ t, s.heap p = some t ∧ t.born ∈ s.handed
  out_nodup : out.Nodup

/-- The state `insert` leaves. -/
def State.inserted (s : State) (p : Addr) (t : Timer) : State :=
  { s with
    timers := (s.timers.insert (toLex (t.expiration, p))).1
    activeTimers := (s.activeTimers.insert (toLex (p, t.sequence))).1 }

/-- The state with the timer `t` at `p` erased from both sets. -/
def State.erased (s : State) (p : Addr) (t : Timer) : State :=
  { s with
    timers := (s.timers.erase (toLex (t.expiration, p))).1
    activeTimers := (s.activeTimers.erase (toLex (p, t.sequence))).1 }

namespace Sets

variable {s s' : State} {out : List Addr} {p : Addr} {t : Timer}

/-- The sets only see the timers given to the loop. -/
theorem of_waiting (h : Sets s out) (htimers : s'.timers = s.timers)
    (hactive : s'.activeTimers = s.activeTimers)
    (hw : ∀ q u, s'.Waiting out q u ↔ s.Waiting out q u)
    (hout : ∀ q ∈ out, ∃ u, s'.heap q = some u ∧ u.born ∈ s'.handed) : Sets s' out where
  timers := by simp only [htimers, hw]; exact h.timers
  active := by simp only [hactive, hw]; exact h.active
  sizes := by rw [htimers, hactive]; exact h.sizes
  out_live := hout
  out_nodup := h.out_nodup

theorem congr (h : Sets s out) (htimers : s'.timers = s.timers)
    (hactive : s'.activeTimers = s.activeTimers) (hheap : s'.heap = s.heap)
    (hhanded : s'.handed = s.handed) : Sets s' out := by
  refine h.of_waiting htimers hactive ?_ ?_
  · intro q u
    unfold State.Waiting
    rw [hheap, hhanded]
  · rw [hheap, hhanded]
    exact h.out_live

theorem newTimer (h : Sets s out) (hm : Memory s) (hfree : s.heap p = none) (when : Timestamp)
    (interval : Seconds) : Sets (s.newTimer p when interval) out := by
  refine h.of_waiting rfl rfl ?_ ?_
  · intro q u
    by_cases hq : q = p
    · subst hq
      -- the new timer's number is not among those given to the loop
      have hn : s.numCreated ∉ s.handed := fun hn => Nat.lt_irrefl _ (hm.handed_lt _ hn)
      constructor
      · rintro ⟨hu, hb, -⟩
        simp only [State.newTimer, Function.update_self, Option.some.injEq] at hu
        rw [← hu] at hb
        exact absurd hb hn
      · rintro ⟨hu, -⟩
        rw [hfree] at hu
        cases hu
    · simp [State.Waiting, State.newTimer, hq]
  · intro q hq
    obtain ⟨u, hu, hb⟩ := h.out_live q hq
    have hqp : q ≠ p := fun e => by rw [e, hfree] at hu; cases hu
    exact ⟨u, by simpa [State.newTimer, Function.update_apply, hqp] using hu, hb⟩

theorem hand (h : Sets s out) (hm : Memory s) (ht : s.heap p = some t)
    (hfresh : t.born ∉ s.handed) : Sets { s with handed := s.handed ++ [t.born] } (p :: out) := by
  have hpo : p ∉ out := by
    intro hp
    obtain ⟨u, hu, hb⟩ := h.out_live p hp
    rw [ht] at hu
    cases hu
    exact hfresh hb
  have hw : ∀ q u, State.Waiting { s with handed := s.handed ++ [t.born] } (p :: out) q u ↔
      s.Waiting out q u := by
    intro q u
    unfold State.Waiting
    simp only [List.mem_append, List.mem_cons, not_or]
    constructor
    · rintro ⟨hu, hb | hb, hq, hqo⟩
      · exact ⟨hu, hb, hqo⟩
      · exact absurd (hm.born_inj q p u t hu ht (by simpa using hb)) hq
    · rintro ⟨hu, hb, hqo⟩
      refine ⟨hu, Or.inl hb, ?_, hqo⟩
      rintro rfl
      rw [ht] at hu
      cases hu
      exact hfresh hb
  refine ⟨?_, ?_, h.sizes, ?_, List.nodup_cons.2 ⟨hpo, h.out_nodup⟩⟩
  · simp only [hw]; exact h.timers
  · simp only [hw]; exact h.active
  · intro q hq
    rcases List.mem_cons.1 hq with rfl | hq
    · exact ⟨t, ht, by simp⟩
    · obtain ⟨u, hu, hb⟩ := h.out_live q hq
      exact ⟨u, hu, List.mem_append_left _ hb⟩

theorem not_mem_timers (h : Sets s (p :: out)) (when : Timestamp) : toLex (when, p) ∉ s.timers := by
  rw [h.timers]
  rintro ⟨u, ⟨-, -, hp⟩, -⟩
  exact hp List.mem_cons_self

theorem not_mem_active (h : Sets s (p :: out)) (seq : Int) : toLex (p, seq) ∉ s.activeTimers := by
  rw [h.active]
  rintro ⟨u, ⟨-, -, hp⟩, -⟩
  exact hp List.mem_cons_self

theorem insert (h : Sets s (p :: out)) (ht : s.heap p = some t) : Sets (s.inserted p t) out := by
  have hnd := List.nodup_cons.1 h.out_nodup
  have hb : t.born ∈ s.handed := by
    obtain ⟨u, hu, hb⟩ := h.out_live p List.mem_cons_self
    rw [ht] at hu
    cases hu
    exact hb
  have hw : ∀ q u, s.Waiting out q u ↔ (q = p ∧ u = t) ∨ s.Waiting (p :: out) q u := by
    intro q u
    unfold State.Waiting
    by_cases hq : q = p
    · subst hq
      simp only [ht, List.mem_cons, true_or, not_true_eq_false, and_false, or_false,
        Option.some.injEq, true_and]
      constructor
      · rintro ⟨rfl, -, -⟩; rfl
      · rintro rfl; exact ⟨rfl, hb, hnd.1⟩
    · simp [hq]
  have hex (q : Nat) (E : Timer → Prop) : (∃ u, s.Waiting out q u ∧ E u) ↔
      (q = p ∧ E t) ∨ ∃ u, s.Waiting (p :: out) q u ∧ E u := by
    constructor
    · rintro ⟨u, hu, he⟩
      rcases (hw q u).1 hu with ⟨rfl, rfl⟩ | hu
      · exact .inl ⟨rfl, he⟩
      · exact .inr ⟨u, hu, he⟩
    · rintro (⟨rfl, he⟩ | ⟨u, hu, he⟩)
      · exact ⟨t, (hw q t).2 (.inl ⟨rfl, rfl⟩), he⟩
      · exact ⟨u, (hw q u).2 (.inr hu), he⟩
  refine ⟨?_, ?_, ?_, fun q hq => h.out_live q (List.mem_cons_of_mem _ hq), hnd.2⟩
  · intro when q
    show toLex (when, q) ∈ (s.timers.insert _).1 ↔ ∃ u, s.Waiting out q u ∧ _
    rw [hex, OrderedSet.mem_insert, h.timers, EmbeddingLike.apply_eq_iff_eq, Prod.mk.injEq,
      and_comm, eq_comm (a := when)]
  · intro q seq
    show toLex (q, seq) ∈ (s.activeTimers.insert _).1 ↔ ∃ u, s.Waiting out q u ∧ _
    rw [hex, OrderedSet.mem_insert, h.active, EmbeddingLike.apply_eq_iff_eq, Prod.mk.injEq,
      eq_comm (a := seq)]
  · show (s.timers.insert _).1.size = (s.activeTimers.insert _).1.size
    rw [s.timers.size_insert _ (h.not_mem_timers _),
      s.activeTimers.size_insert _ (h.not_mem_active _),
      h.sizes]

theorem erase (h : Sets s out) (hp : s.Waiting out p t) : Sets (s.erased p t) (p :: out) := by
  have hw : ∀ q u, s.Waiting (p :: out) q u ↔ s.Waiting out q u ∧ q ≠ p := by
    intro q u
    simp only [State.Waiting, List.mem_cons, not_or]
    constructor
    · rintro ⟨hu, hb, hq, hqo⟩; exact ⟨⟨hu, hb, hqo⟩, hq⟩
    · rintro ⟨⟨hu, hb, hqo⟩, hq⟩; exact ⟨hu, hb, hq, hqo⟩
  -- one timer, one key: an entry at `p` is the one erased
  have hkey : ∀ u, s.Waiting out p u → u = t := by
    rintro u ⟨hu, -, -⟩
    rw [hp.1] at hu
    cases hu
    rfl
  refine ⟨?_, ?_, ?_, ?_, List.nodup_cons.2 ⟨hp.2.2, h.out_nodup⟩⟩
  · intro when q
    show toLex (when, q) ∈ (s.timers.erase _).1 ↔ ∃ u, s.Waiting (p :: out) q u ∧ _
    simp only [OrderedSet.mem_erase, h.timers, hw, ne_eq, EmbeddingLike.apply_eq_iff_eq,
      Prod.mk.injEq]
    constructor
    · rintro ⟨⟨u, hu, he⟩, hne⟩
      refine ⟨u, ⟨hu, ?_⟩, he⟩
      rintro rfl
      rw [hkey u hu] at he
      exact hne ⟨he.symm, rfl⟩
    · rintro ⟨u, ⟨hu, hq⟩, he⟩
      exact ⟨⟨u, hu, he⟩, fun hc => hq hc.2⟩
  · intro q seq
    show toLex (q, seq) ∈ (s.activeTimers.erase _).1 ↔ ∃ u, s.Waiting (p :: out) q u ∧ _
    simp only [OrderedSet.mem_erase, h.active, hw, ne_eq, EmbeddingLike.apply_eq_iff_eq,
      Prod.mk.injEq]
    constructor
    · rintro ⟨⟨u, hu, he⟩, hne⟩
      refine ⟨u, ⟨hu, ?_⟩, he⟩
      rintro rfl
      rw [hkey u hu] at he
      exact hne ⟨rfl, he.symm⟩
    · rintro ⟨u, ⟨hu, hq⟩, he⟩
      exact ⟨⟨u, hu, he⟩, fun hc => hq hc.1⟩
  · show (s.timers.erase _).1.size = (s.activeTimers.erase _).1.size
    have h1 := s.timers.size_erase _ ((h.timers _ _).2 ⟨t, hp, rfl⟩)
    have h2 := s.activeTimers.size_erase _ ((h.active _ _).2 ⟨t, hp, rfl⟩)
    have h3 := h.sizes
    omega
  · intro q hq
    rcases List.mem_cons.1 hq with rfl | hq
    · exact ⟨t, hp.1, hp.2.1⟩
    · exact h.out_live q hq

theorem delete (h : Sets s (p :: out)) (t : Timer) : Sets (s.dropped p t) out := by
  have hnd := List.nodup_cons.1 h.out_nodup
  have hw : ∀ q u, (s.dropped p t).Waiting out q u ↔ s.Waiting (p :: out) q u := by
    intro q u
    by_cases hq : q = p
    · simp [State.Waiting, State.dropped, hq]
    · simp [State.Waiting, State.dropped, hq]
  refine ⟨?_, ?_, h.sizes, ?_, hnd.2⟩
  · simp only [hw]; exact h.timers
  · simp only [hw]; exact h.active
  · intro q hq
    have hqp : q ≠ p := fun e => hnd.1 (e ▸ hq)
    obtain ⟨u, hu, hb⟩ := h.out_live q (List.mem_cons_of_mem _ hq)
    exact ⟨u, by simpa [State.dropped, Function.update_apply, hqp] using hu, hb⟩

theorem setTimer (h : Sets s (p :: out)) (ht : s.heap p = some t) {u : Timer}
    (hb : u.born = t.born) :
    Sets { s with heap := Function.update s.heap p (some u) } (p :: out) := by
  refine h.of_waiting rfl rfl ?_ ?_
  · intro q v
    by_cases hq : q = p
    · simp [State.Waiting, hq]
    · simp [State.Waiting, hq]
  · intro q hq
    obtain ⟨v, hv, hbv⟩ := h.out_live q hq
    by_cases hqp : q = p
    · subst hqp
      rw [ht] at hv
      cases hv
      exact ⟨u, by simp, by rw [hb]; exact hbv⟩
    · exact ⟨v, by simpa [Function.update_apply, hqp] using hv, hbv⟩

end Sets

end Rawmd.TimerQueue
