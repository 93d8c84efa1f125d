import Rawmd.Net.Acceptor

/-!
# The descriptors of an acceptor

`Owners` says whose every open descriptor is, `Room` that there is one left for `idleFd_`.

    every connection waits, or was handed on, or closed, or given up by its peer, once; what is
    open is what was handed on, and the acceptor's own                    (acceptor_accounts)
    no thread opens a descriptor in between → idleFd_ is open, and a full table does not
    keep the backlog from getting shorter                                 (acceptor_not_stuck)
-/

namespace Rawmd.Acceptor

variable {s : State}

/-! ## Whose they are -/

/-- The descriptors: what is open has a known owner. -/
structure Owners (s : State) : Prop where
  listening : ∀ fd : Nat, s.table.slot fd = some .listening ↔ s.alive = true ∧ s.acceptSocket = fd
  idle : ∀ fd : Nat, s.table.slot fd = some .idle ↔ s.keepsIdle = true ∧ s.idleFd = fd
  refused : ∀ (fd id : Nat), s.table.slot fd = some (.refused id) →
    s.pc = .closeAccepted ∧ s.idleFd = fd
  connection : ∀ (fd id : Nat), s.table.slot fd = some (.connection id) → (id, fd) ∈ s.handed
  /-- `idleFd_` is `-1` or the connection that is to be closed. -/
  closing : s.pc = .closeAccepted → ∀ fd : Nat, s.idleFd = fd →
    ∃ id, s.table.slot fd = some (.refused id)

theorem alive_iff : s.alive = true ↔ s.pc ≠ .constructor ∧ s.pc ≠ .destroyed := decide_eq_true_iff

theorem keepsIdle_iff : s.keepsIdle = true ↔ s.pc = .outside ∨ s.pc = .closeIdle :=
  decide_eq_true_iff

namespace Owners

theorem init (limit : Nat) (opened : Nat → Bool) (callback : Bool) :
    Owners (init limit opened callback) := by
  have hslot : ∀ fd, (Acceptor.init limit opened callback).table.slot fd = some .other ∨
      (Acceptor.init limit opened callback).table.slot fd = none := by
    intro fd
    show (if opened fd then some Use.other else none) = _ ∨
      (if opened fd then some Use.other else none) = _
    split
    · exact .inl rfl
    · exact .inr rfl
  refine ⟨fun fd => ?_, fun fd => ?_, fun fd id he => ?_, fun fd id he => ?_, fun hpc => ?_⟩
  · refine iff_of_false (fun he => ?_) (fun he => (alive_iff.1 he.1).1 rfl)
    rcases hslot fd with hs | hs <;> rw [hs] at he <;> cases he
  · refine iff_of_false (fun he => ?_) (fun he => ?_)
    · rcases hslot fd with hs | hs <;> rw [hs] at he <;> cases he
    · rcases keepsIdle_iff.1 he.1 with hp | hp <;> cases hp
  · rcases hslot fd with hs | hs <;> rw [hs] at he <;> cases he
  · rcases hslot fd with hs | hs <;> rw [hs] at he <;> cases he
  · cases hpc

/-- Changes of everything else. -/
theorem congr {t : State} (h : Owners s) (htable : t.table = s.table) (hpc : t.pc = s.pc)
    (hsocket : t.acceptSocket = s.acceptSocket) (hidle : t.idleFd = s.idleFd)
    (hhanded : t.handed = s.handed) : Owners t := by
  have halive : t.alive = s.alive := by
    rw [State.alive, hpc]
    rfl
  have hkeeps : t.keepsIdle = s.keepsIdle := by
    rw [State.keepsIdle, hpc]
    rfl
  refine ⟨?_, ?_, ?_, ?_, ?_⟩
  · rw [htable, halive, hsocket]
    exact h.listening
  · rw [htable, hkeeps, hidle]
    exact h.idle
  · rw [htable, hpc, hidle]
    exact h.refused
  · rw [htable, hhanded]
    exact h.connection
  · rw [htable, hpc, hidle]
    exact h.closing

/-- A descriptor that is not one of the acceptor's is opened or closed. -/
theorem set (h : Owners s) {fd : Nat} {w : Option Use} {handed : List (Nat × Nat)}
    (hold : ∀ u, s.table.slot fd = some u → u = .other ∨ ∃ id, u = .connection id)
    (hnew : ∀ u, w = some u → u = .other ∨ ∃ id, u = .connection id ∧ (id, fd) ∈ handed)
    (hsub : s.handed ⊆ handed) :
    Owners { s with table := s.table.set fd w, handed := handed } := by
  have hkind : ∀ u, (∀ id, u ≠ Use.connection id) → u ≠ .other →
      ∀ x, (s.table.set fd w).slot x = some u ↔ s.table.slot x = some u := by
    intro u hc ho x
    rw [Descriptors.slot_set]
    split
    · next hx =>
      subst hx
      constructor
      · intro hw
        rcases hnew u hw with hu | ⟨id, hu, -⟩
        · exact absurd hu ho
        · exact absurd hu (hc id)
      · intro hs
        rcases hold u hs with hu | ⟨id, hu⟩
        · exact absurd hu ho
        · exact absurd hu (hc id)
    · exact Iff.rfl
  refine ⟨fun x => ?_, fun x => ?_, fun x id hx => ?_, fun x id hx => ?_, fun hpc x hx => ?_⟩
  · exact (hkind _ (by simp) (by simp) x).trans (h.listening x)
  · exact (hkind _ (by simp) (by simp) x).trans (h.idle x)
  · exact h.refused x id ((hkind _ (by simp) (by simp) x).1 hx)
  · change (s.table.set fd w).slot x = _ at hx
    rw [Descriptors.slot_set] at hx
    split at hx
    · next hxfd =>
      rcases hnew _ hx with hu | ⟨id', hu, hm⟩
      · cases hu
      · cases hu
        rw [hxfd]
        exact hm
    · exact hsub (h.connection x id hx)
  · obtain ⟨id, hid⟩ := h.closing hpc x hx
    exact ⟨id, (hkind _ (by simp) (by simp) x).2 hid⟩

/-- What is free is nobody's. -/
theorem set_free (h : Owners s) {fd : Nat} {w : Use} {handed : List (Nat × Nat)}
    (hfree : s.table.slot fd = none)
    (hnew : w = .other ∨ ∃ id, w = .connection id ∧ (id, fd) ∈ handed)
    (hsub : s.handed ⊆ handed) :
    Owners { s with table := s.table.set fd (some w), handed := handed } := by
  refine h.set (fun u hu => ?_) (fun u hu => ?_) hsub
  · rw [hfree] at hu
    cases hu
  · cases hu
    exact hnew

/-- Between two calls, the descriptor of `idleFd_` is given another use, or closed. -/
theorem setIdle (h : Owners s) {t : State} (ha : s.alive = true) (ht : t.alive = true)
    (hsocket : t.acceptSocket = s.acceptSocket) (hhanded : t.handed = s.handed)
    (hidle : ∀ fd : Nat, t.table.slot fd = some .idle ↔ t.keepsIdle = true ∧ t.idleFd = fd)
    (hrefused : ∀ (fd id : Nat), t.table.slot fd = some (.refused id) →
      t.pc = .closeAccepted ∧ t.idleFd = fd)
    (hclosing : t.pc = .closeAccepted → ∀ fd : Nat, t.idleFd = fd →
      ∃ id, t.table.slot fd = some (.refused id))
    (hrest : ∀ fd, (t.table.slot fd = some .listening ↔ s.table.slot fd = some .listening) ∧
      ∀ id, t.table.slot fd = some (.connection id) → s.table.slot fd = some (.connection id)) :
    Owners t := by
  refine ⟨fun fd => ?_, hidle, hrefused, fun fd id hid => ?_, hclosing⟩
  · rw [(hrest fd).1, h.listening fd, hsocket, ha, ht]
  · rw [hhanded]
    exact h.connection fd id ((hrest fd).2 id hid)

theorem not_idle (h : Owners s) (hk : ¬ s.keepsIdle = true) (fd : Nat) :
    s.table.slot fd ≠ some .idle :=
  fun he => hk ((h.idle fd).1 he).1

theorem not_refused (h : Owners s) (hpc : s.pc ≠ .closeAccepted) (fd id : Nat) :
    s.table.slot fd ≠ some (.refused id) :=
  fun he => hpc (h.refused fd id he).1

/-- `::close(idleFd_)` -/
theorem closeIdle (h : Owners s) (hpc : s.pc = .closeIdle) :
    Owners { s with table := s.table.close s.idleFd, pc := .acceptIdle } := by
  have hkeeps : s.keepsIdle = true := keepsIdle_iff.2 (.inr hpc)
  have halive : s.alive = true := alive_iff.2 (by rw [hpc]; decide)
  refine h.setIdle halive rfl rfl rfl (fun fd => ?_) (fun fd id he => ?_) (fun he => ?_)
    (fun fd => ⟨?_, fun id he => ?_⟩)
  · refine iff_of_false (fun he => ?_) (fun he => by cases he.1)
    change (s.table.close s.idleFd).slot fd = _ at he
    rw [Descriptors.slot_close] at he
    split at he
    · cases he
    · next hne => exact hne ((h.idle fd).1 he).2
  · change (s.table.close s.idleFd).slot fd = _ at he
    rw [Descriptors.slot_close] at he
    split at he
    · cases he
    · exact absurd he (h.not_refused (by rw [hpc]; decide) fd id)
  · cases he
  · show (s.table.close s.idleFd).slot fd = _ ↔ _
    rw [Descriptors.slot_close]
    split
    · next hfd =>
      rw [(h.idle fd).2 ⟨hkeeps, hfd⟩]
      decide
    · exact Iff.rfl
  · change (s.table.close s.idleFd).slot fd = _ at he
    rw [Descriptors.slot_close] at he
    split at he
    · cases he
    · exact he

theorem acceptIdle (h : Owners s) (hpc : s.pc = .acceptIdle) (r : Accept) :
    Owners (s.acceptIdle r) := by
  have hkeeps : ¬ s.keepsIdle = true := by
    rw [keepsIdle_iff, hpc]
    decide
  have hne : s.pc ≠ .closeAccepted := by
    rw [hpc]
    decide
  have halive : s.alive = true := alive_iff.2 (by rw [hpc]; decide)
  cases r with
  | failed e =>
    refine h.setIdle halive rfl rfl rfl (fun fd => ?_) (fun fd id he => ?_) (fun _ fd he => ?_)
      (fun fd => ⟨Iff.rfl, fun id he => he⟩)
    · exact iff_of_false (h.not_idle hkeeps fd) (fun he => by cases he.1)
    · exact absurd he (h.not_refused hne fd id)
    · change (-1 : Int) = fd at he
      omega
  | ok =>
    simp only [State.acceptIdle]
    split
    · exact h
    · next id fd u hu =>
      obtain ⟨backlog, table, -, hc, rfl⟩ := acceptAs_some hu
      obtain ⟨hfree, -, rfl⟩ := Descriptors.create_eq_some hc
      refine h.setIdle halive rfl rfl rfl (fun x => ?_) (fun x id' he => ?_) (fun _ x he => ?_)
        (fun x => ⟨?_, fun id' he => ?_⟩)
      · refine iff_of_false (fun he => ?_) (fun he => by cases he.1)
        change (s.table.set fd _).slot x = _ at he
        rw [Descriptors.slot_set] at he
        split at he
        · cases he
        · exact h.not_idle hkeeps x he
      · change (s.table.set fd _).slot x = _ at he
        rw [Descriptors.slot_set] at he
        split at he
        · next hx => exact ⟨rfl, by rw [hx]⟩
        · exact absurd he (h.not_refused hne x id')
      · have hx : x = fd := by
          change (fd : Int) = x at he
          omega
        refine ⟨id, ?_⟩
        show (s.table.set fd _).slot x = _
        rw [Descriptors.slot_set, if_pos hx]
      · show (s.table.set fd _).slot x = _ ↔ _
        rw [Descriptors.slot_set]
        split
        · next hx =>
          rw [hx, hfree]
          simp
        · exact Iff.rfl
      · change (s.table.set fd _).slot x = _ at he
        rw [Descriptors.slot_set] at he
        split at he
        · cases he
        · exact he

theorem closeAccepted (h : Owners s) (hpc : s.pc = .closeAccepted) :
    Owners { s with table := s.table.close s.idleFd, pc := .openIdle } := by
  have hkeeps : ¬ s.keepsIdle = true := by
    rw [keepsIdle_iff, hpc]
    decide
  have halive : s.alive = true := alive_iff.2 (by rw [hpc]; decide)
  refine h.setIdle halive rfl rfl rfl (fun fd => ?_) (fun fd id he => ?_) (fun he => ?_)
    (fun fd => ⟨?_, fun id he => ?_⟩)
  · refine iff_of_false (fun he => ?_) (fun he => by cases he.1)
    change (s.table.close s.idleFd).slot fd = _ at he
    rw [Descriptors.slot_close] at he
    split at he
    · cases he
    · exact h.not_idle hkeeps fd he
  · change (s.table.close s.idleFd).slot fd = _ at he
    rw [Descriptors.slot_close] at he
    split at he
    · cases he
    · next hne => exact absurd (h.refused fd id he).2 hne
  · cases he
  · show (s.table.close s.idleFd).slot fd = _ ↔ _
    rw [Descriptors.slot_close]
    split
    · next hfd =>
      obtain ⟨id, hid⟩ := h.closing hpc fd hfd
      rw [hid]
      simp
    · exact Iff.rfl
  · change (s.table.close s.idleFd).slot fd = _ at he
    rw [Descriptors.slot_close] at he
    split at he
    · cases he
    · exact he

theorem openIdle (h : Owners s) (hpc : s.pc = .openIdle) : Owners s.openIdle := by
  have hkeeps : ¬ s.keepsIdle = true := by
    rw [keepsIdle_iff, hpc]
    decide
  have hne : s.pc ≠ .closeAccepted := by
    rw [hpc]
    decide
  have halive : s.alive = true := alive_iff.2 (by rw [hpc]; decide)
  unfold State.openIdle
  split
  · next fd table hc =>
    obtain ⟨hfree, -, rfl⟩ := Descriptors.create_eq_some hc
    refine h.setIdle halive rfl rfl rfl (fun x => ?_) (fun x id he => ?_) (fun he => ?_)
      (fun x => ⟨?_, fun id he => ?_⟩)
    · show (s.table.set fd _).slot x = _ ↔ true = true ∧ (fd : Int) = x
      rw [Descriptors.slot_set]
      split
      · next hx =>
        rw [hx]
        exact iff_of_true rfl ⟨rfl, rfl⟩
      · next hx => exact iff_of_false (h.not_idle hkeeps x) (fun he => hx (by omega))
    · change (s.table.set fd _).slot x = _ at he
      rw [Descriptors.slot_set] at he
      split at he
      · cases he
      · exact absurd he (h.not_refused hne x id)
    · cases he
    · show (s.table.set fd _).slot x = _ ↔ _
      rw [Descriptors.slot_set]
      split
      · next hx =>
        rw [hx, hfree]
        simp
      · exact Iff.rfl
    · change (s.table.set fd _).slot x = _ at he
      rw [Descriptors.slot_set] at he
      split at he
      · cases he
      · exact he
  · refine h.setIdle halive rfl rfl rfl (fun x => ?_) (fun x id he => ?_) (fun he => ?_)
      (fun x => ⟨Iff.rfl, fun id he => he⟩)
    · refine iff_of_false (h.not_idle hkeeps x) (fun he => ?_)
      have : (-1 : Int) = x := he.2
      omega
    · exact absurd he (h.not_refused hne x id)
    · cases he

theorem handleAccepted (h : Owners s) : Owners s.handleAccepted := by
  unfold State.handleAccepted
  split
  · exact h
  · next id fd u hu =>
    obtain ⟨backlog, table, -, hc, rfl⟩ := acceptAs_some hu
    obtain ⟨hfree, -, rfl⟩ := Descriptors.create_eq_some hc
    split
    · have hset : Owners { s with
          table := s.table.set fd (some (.connection id)), handed := s.handed ++ [(id, fd)] } :=
        h.set_free hfree (.inr ⟨id, rfl, List.mem_append_right _ List.mem_cons_self⟩)
          (List.subset_append_left _ _)
      exact hset.congr rfl rfl rfl rfl rfl
    · exact h.congr (Descriptors.close_create hfree _) rfl rfl rfl rfl

theorem construct (h : Owners s) (hpc : s.pc = .constructor) {t : State}
    (ht : s.construct = .ok t) : Owners t := by
  have hlisten : ∀ fd, s.table.slot fd ≠ some .listening := by
    intro fd he
    exact (alive_iff.1 ((h.listening fd).1 he).1).1 hpc
  have hkeeps : ¬ s.keepsIdle = true := by
    rw [keepsIdle_iff, hpc]
    decide
  have hne : s.pc ≠ .closeAccepted := by
    rw [hpc]
    decide
  unfold State.construct at ht
  split at ht
  · cases ht
  · next fd table hc =>
    split at ht
    · cases ht
    · next idle table' hc' =>
      cases ht
      obtain ⟨hfree, -, rfl⟩ := Descriptors.create_eq_some hc
      obtain ⟨hfree', -, rfl⟩ := Descriptors.create_eq_some hc'
      have hfd : idle ≠ fd := by
        rintro rfl
        rw [Descriptors.slot_set, if_pos rfl] at hfree'
        cases hfree'
      have hslot : ∀ x, ((s.table.set fd (some .listening)).set idle (some .idle)).slot x =
          if x = idle then some .idle else if x = fd then some .listening
          else s.table.slot x := by
        intro x
        rw [Descriptors.slot_set, Descriptors.slot_set]
      refine ⟨fun x => ?_, fun x => ?_, fun x id he => ?_, fun x id he => ?_, fun he => ?_⟩
      · show ((s.table.set fd _).set idle _).slot x = _ ↔ true = true ∧ (fd : Int) = x
        rw [hslot]
        split
        · next hx =>
          refine iff_of_false (fun he => by cases he) (fun he => hfd ?_)
          omega
        · split
          · next hx => exact iff_of_true rfl ⟨rfl, by rw [hx]⟩
          · next hx => exact iff_of_false (hlisten x) (fun he => hx (by omega))
      · show ((s.table.set fd _).set idle _).slot x = _ ↔ true = true ∧ (idle : Int) = x
        rw [hslot]
        split
        · next hx => exact iff_of_true rfl ⟨rfl, by rw [hx]⟩
        · next hx =>
          refine iff_of_false (fun he => ?_) (fun he => hx (by omega))
          split at he
          · cases he
          · exact h.not_idle hkeeps x he
      · change ((s.table.set fd _).set idle _).slot x = _ at he
        rw [hslot] at he
        split at he
        · cases he
        · split at he
          · cases he
          · exact absurd he (h.not_refused hne x id)
      · change ((s.table.set fd _).set idle _).slot x = _ at he
        rw [hslot] at he
        split at he
        · cases he
        · split at he
          · cases he
          · exact h.connection x id he
      · cases he

theorem destroy (h : Owners s) (hpc : s.pc = .outside) {aborted : List Nat} :
    Owners { s with
      table := (s.table.close s.idleFd).close s.acceptSocket
      backlog := []
      aborted := aborted
      pc := .destroyed } := by
  have hslot : ∀ x w, ((s.table.close s.idleFd).close s.acceptSocket).slot x = some w →
      s.acceptSocket ≠ x ∧ s.idleFd ≠ x ∧ s.table.slot x = some w := by
    intro x w he
    rw [Descriptors.slot_close] at he
    split at he
    · cases he
    · next hx =>
      rw [Descriptors.slot_close] at he
      split at he
      · cases he
      · next hx' => exact ⟨hx, hx', he⟩
  refine ⟨fun x => ?_, fun x => ?_, fun x id he => ?_, fun x id he => ?_, fun he => ?_⟩
  · refine iff_of_false (fun he => ?_) (fun he => by cases he.1)
    obtain ⟨hx, -, he⟩ := hslot x _ he
    exact hx ((h.listening x).1 he).2
  · refine iff_of_false (fun he => ?_) (fun he => by cases he.1)
    obtain ⟨-, hx, he⟩ := hslot x _ he
    exact hx ((h.idle x).1 he).2
  · obtain ⟨-, -, he⟩ := hslot x _ he
    exact absurd he (h.not_refused (by rw [hpc]; decide) x id)
  · obtain ⟨-, -, he⟩ := hslot x _ he
    exact h.connection x id he
  · cases he

/-- `EMFILE` -/
theorem giveUpIdle (h : Owners s) (hpc : s.pc = .outside) :
    Owners { s with pc := .closeIdle } := by
  have hkeeps : s.keepsIdle = true := keepsIdle_iff.2 (.inl hpc)
  have halive : s.alive = true := alive_iff.2 (by rw [hpc]; decide)
  refine h.setIdle halive rfl rfl rfl (fun x => ?_) (fun x id he => ?_) (fun he => ?_)
    (fun x => ⟨Iff.rfl, fun id he => he⟩)
  · rw [h.idle x, hkeeps]
    rfl
  · exact absurd he (h.not_refused (by rw [hpc]; decide) x id)
  · cases he

theorem step (h : Owners s) {a : Action} {t : State} (he : enabled s a = true)
    (ht : Acceptor.step s a = .ok t) : Owners t := by
  cases a with
  | construct => exact h.construct (of_decide_eq_true he) ht
  | handleRead r =>
    simp only [enabled, Bool.and_eq_true, decide_eq_true_eq] at he
    cases r with
    | ok =>
      cases ht
      exact h.handleAccepted
    | failed e =>
      simp only [Acceptor.step, State.handleRead] at ht
      split at ht
      · cases ht
      · split at ht
        · cases ht
          exact h.giveUpIdle he.1.1
        · cases ht
          exact h
  | closeIdle =>
    cases ht
    exact h.closeIdle (of_decide_eq_true he)
  | acceptIdle r =>
    cases ht
    simp only [enabled, Bool.and_eq_true, decide_eq_true_eq] at he
    exact h.acceptIdle he.1 r
  | closeAccepted =>
    cases ht
    exact h.closeAccepted (of_decide_eq_true he)
  | openIdle =>
    cases ht
    exact h.openIdle (of_decide_eq_true he)
  | destroy =>
    cases ht
    exact h.destroy (of_decide_eq_true he)
  | listen | arrive | abort id =>
    cases ht
    exact h.congr rfl rfl rfl rfl rfl
  | openOther =>
    simp only [Acceptor.step] at ht
    split at ht
    · next fd table hc =>
      cases ht
      obtain ⟨hfree, -, rfl⟩ := Descriptors.create_eq_some hc
      exact h.set_free hfree (.inl rfl) (List.Subset.refl _)
    · cases ht
      exact h
  | close fd =>
    cases ht
    refine h.set (fun u hu => ?_) (fun u hu => by cases hu) (List.Subset.refl _)
    simp only [enabled, hu] at he
    split at he
    · next hu =>
      cases hu
      exact .inl rfl
    · next id hu =>
      cases hu
      exact .inr ⟨id, rfl⟩
    · cases he

end Owners

/-- Whatever other threads and the kernel do, a connection that has arrived is at one place: it
waits, was accepted, or was given up by its peer; it is accepted in turn, and either handed on
once or closed.  What is open at any moment between two calls is what was handed on, what others
have opened, and the two descriptors of the acceptor. -/
theorem acceptor_accounts (limit : Nat) (opened : Nat → Bool) (callback : Bool)
    (as : List Action) (s : State) (hr : machine.run (init limit opened callback) as = some s) :
    (s.accepted ++ s.backlog).Pairwise (· < ·) ∧
    (s.accepted ++ s.backlog ++ s.aborted).Perm (List.range s.arrived) ∧
    (s.handed.map Prod.fst ++ s.refused).Perm s.accepted ∧
    (s.handed.map Prod.fst).Pairwise (· < ·) ∧
    (∀ fd id : Nat, s.table.slot fd = some (.connection id) → (id, fd) ∈ s.handed) ∧
    (s.pc = .outside → ∀ fd : Nat, (s.table.slot fd = some .listening ↔ s.acceptSocket = fd) ∧
      (s.table.slot fd = some .idle ↔ s.idleFd = fd) ∧
      ∀ id, s.table.slot fd ≠ some (.refused id)) ∧
    (s.pc = .destroyed → ∀ (fd : Nat) (u : Use), s.table.slot fd = some u →
      u = .other ∨ ∃ id, u = .connection id) := by
  have hkeeps : machine.Keeps (fun _ _ _ => True) fun s => Connections s ∧ Owners s :=
    fun s a t h _ he ht => ⟨h.1.step he ht, h.2.step he ht⟩
  obtain ⟨hc, ho⟩ := hkeeps.run_all ⟨.init limit opened callback, .init limit opened callback⟩ hr
  refine ⟨hc.order, hc.all, hc.split, ?_, ho.connection, fun hpc fd => ⟨?_, ?_, ?_⟩,
    fun hpc fd u hu => ?_⟩
  · exact hc.order.sublist (hc.handed.trans (List.sublist_append_left _ _))
  · rw [ho.listening fd]
    exact and_iff_right (alive_iff.2 (by rw [hpc]; decide))
  · rw [ho.idle fd]
    exact and_iff_right (keepsIdle_iff.2 (.inl hpc))
  · exact ho.not_refused (by rw [hpc]; decide) fd
  · cases u with
    | listening => exact absurd hpc (alive_iff.1 ((ho.listening fd).1 hu).1).2
    | idle =>
      rcases keepsIdle_iff.1 ((ho.idle fd).1 hu).1 with h | h <;> rw [hpc] at h <;> cases h
    | refused id => exact absurd hu (ho.not_refused (by rw [hpc]; decide) fd id)
    | connection id => exact .inr ⟨id, rfl⟩
    | other => exact .inl rfl

/-- Descriptors 0, 1 and 2 are open.  Of three connections that arrive, the first takes the last
descriptor, the second is given up by its peer, and the third is accepted to be closed. -/
def threeArrive : List Action :=
  [.construct, .listen, .arrive, .handleRead .ok, .arrive, .arrive, .abort 1,
    .handleRead (.failed .EMFILE), .closeIdle, .acceptIdle .ok, .close 5, .closeAccepted,
    .openIdle]

theorem threeArrive_accounts :
    ∃ s, machine.run (init 6 (fun fd => fd < 3) true) threeArrive = some s ∧
      s.handed = [(0, 5)] ∧ s.refused = [2] ∧ s.aborted = [1] ∧
      (s.accepted ++ s.backlog ++ s.aborted).Perm (List.range s.arrived) :=
  ⟨_, rfl, rfl, rfl, rfl, (acceptor_accounts 6 (fun fd => fd < 3) true threeArrive _ rfl).2.1⟩

/-! ## `idleFd_` is not lost -/

/-- Nobody opens a descriptor while `idleFd_` is given up. -/
def Undisturbed (s : State) (a : Action) (_ : State) : Prop :=
  match a with
  | .openOther => s.pc ≠ .acceptIdle ∧ s.pc ≠ .closeAccepted ∧ s.pc ≠ .openIdle
  | _ => True

instance (s : State) (a : Action) (t : State) : Decidable (Undisturbed s a t) :=
  match a with
  | .openOther =>
    inferInstanceAs (Decidable (s.pc ≠ .acceptIdle ∧ s.pc ≠ .closeAccepted ∧ s.pc ≠ .openIdle))
  | .construct | .listen | .handleRead _ | .closeIdle | .acceptIdle _ | .closeAccepted | .openIdle |
    .destroy | .arrive | .abort _ | .close _ => isTrue trivial

/-- `idleFd_` is a descriptor below the limit. -/
def State.IdleOpen (s : State) : Prop := ∃ fd : Nat, s.idleFd = fd ∧ fd < s.table.limit

/-- There is room for `idleFd_` when it is opened again. -/
def Room (s : State) : Prop :=
  match s.pc with
  | .outside | .closeIdle => s.IdleOpen
  | .acceptIdle | .openIdle => s.table.full = false
  | .closeAccepted => s.table.full = false ∨ s.IdleOpen
  | .constructor | .destroyed => True

namespace Room

/-- A descriptor is closed that is not the acceptor's. -/
theorem close (h : Room s) (fd : Nat) : Room { s with table := s.table.set fd none } := by
  unfold Room at h ⊢
  cases hpc : s.pc <;> simp only [hpc] at h ⊢
  · exact h
  · exact h
  · exact Descriptors.full_set_none h
  · exact h.imp Descriptors.full_set_none id
  · exact Descriptors.full_set_none h

/-- Changes of everything else. -/
theorem congr {t : State} (h : Room s) (htable : t.table = s.table) (hpc : t.pc = s.pc)
    (hidle : t.idleFd = s.idleFd) : Room t := by
  unfold Room State.IdleOpen
  rw [hpc, htable, hidle]
  exact h

/-- A descriptor is opened while `idleFd_` is open. -/
theorem setOpen (h : Room s) (hpc : s.pc = .constructor ∨ s.pc = .outside ∨ s.pc = .closeIdle ∨
      s.pc = .destroyed) (table : Descriptors Use) (hlimit : table.limit = s.table.limit) :
    Room { s with table := table } := by
  unfold Room State.IdleOpen at h ⊢
  rcases hpc with hpc | hpc | hpc | hpc <;> simp only [hpc, hlimit] at h ⊢ <;> exact h

theorem construct {t : State} (ht : s.construct = .ok t) : Room t := by
  unfold State.construct at ht
  split at ht
  · cases ht
  · next fd table hc =>
    split at ht
    · cases ht
    · next idle table' hc' =>
      cases ht
      obtain ⟨-, hlt, rfl⟩ := Descriptors.create_eq_some hc'
      exact ⟨idle, rfl, hlt⟩

theorem closeIdle (hi : s.IdleOpen) :
    Room { s with table := s.table.close s.idleFd, pc := .acceptIdle } := by
  obtain ⟨fd, hfd, hlt⟩ := hi
  show (s.table.close s.idleFd).full = false
  rw [hfd, Descriptors.close_nat]
  exact Descriptors.not_full_of_free hlt (by rw [Descriptors.slot_set, if_pos rfl])

theorem closeAccepted (h : s.table.full = false ∨ s.IdleOpen) :
    Room { s with table := s.table.close s.idleFd, pc := .openIdle } := by
  show (s.table.close s.idleFd).full = false
  rcases h with h | ⟨fd, hfd, hlt⟩
  · unfold Descriptors.close
    split
    · exact h
    · exact Descriptors.full_set_none h
  · rw [hfd, Descriptors.close_nat]
    exact Descriptors.not_full_of_free hlt (by rw [Descriptors.slot_set, if_pos rfl])

theorem acceptIdle (h : s.table.full = false) (hpc : s.pc = .acceptIdle) (r : Accept) :
    Room (s.acceptIdle r) := by
  cases r with
  | failed e => exact .inl h
  | ok =>
    simp only [State.acceptIdle]
    split
    · unfold Room
      rw [hpc]
      exact h
    · next id fd u hu =>
      obtain ⟨backlog, table, -, hc, rfl⟩ := acceptAs_some hu
      obtain ⟨-, hlt, rfl⟩ := Descriptors.create_eq_some hc
      exact .inr ⟨fd, rfl, hlt⟩

theorem openIdle (h : s.table.full = false) : Room s.openIdle := by
  obtain ⟨fd, table, hc⟩ := Descriptors.exists_create h Use.idle
  obtain ⟨-, hlt, rfl⟩ := Descriptors.create_eq_some hc
  rw [State.openIdle, hc]
  exact ⟨fd, rfl, hlt⟩

theorem handleAccepted (h : Room s) (hpc : s.pc = .outside) : Room s.handleAccepted := by
  unfold State.handleAccepted
  split
  · exact h
  · next id fd u hu =>
    obtain ⟨backlog, table, -, hc, rfl⟩ := acceptAs_some hu
    obtain ⟨-, hlt, rfl⟩ := Descriptors.create_eq_some hc
    have hopen := h.setOpen (.inr (.inl hpc))
    split
    · exact (hopen (s.table.set fd _) rfl).congr rfl rfl rfl
    · exact (hopen ((s.table.set fd _).close (fd : Int)) (by rw [Descriptors.close_nat]; rfl)).congr
        rfl rfl rfl

theorem step (h : Room s) {a : Action} {t : State} (he : enabled s a = true)
    (ht : Acceptor.step s a = .ok t) (hu : Undisturbed s a t) : Room t := by
  cases a with
  | construct => exact construct ht
  | handleRead r =>
    simp only [enabled, Bool.and_eq_true, decide_eq_true_eq] at he
    cases r with
    | ok =>
      cases ht
      exact h.handleAccepted he.1.1
    | failed e =>
      simp only [Acceptor.step, State.handleRead] at ht
      split at ht
      · cases ht
      · split at ht
        · cases ht
          unfold Room at h
          rw [he.1.1] at h
          exact h
        · cases ht
          exact h
  | closeIdle =>
    cases ht
    have hpc : s.pc = .closeIdle := of_decide_eq_true he
    unfold Room at h
    rw [hpc] at h
    exact closeIdle h
  | acceptIdle r =>
    cases ht
    simp only [enabled, Bool.and_eq_true, decide_eq_true_eq] at he
    unfold Room at h
    rw [he.1] at h
    exact acceptIdle h he.1 r
  | closeAccepted =>
    cases ht
    have hpc : s.pc = .closeAccepted := of_decide_eq_true he
    unfold Room at h
    rw [hpc] at h
    exact closeAccepted h
  | openIdle =>
    cases ht
    have hpc : s.pc = .openIdle := of_decide_eq_true he
    unfold Room at h
    rw [hpc] at h
    exact openIdle h
  | destroy =>
    cases ht
    trivial
  | listen | arrive | abort id =>
    cases ht
    exact h.congr rfl rfl rfl
  | openOther =>
    simp only [Acceptor.step] at ht
    split at ht
    · next fd table hc =>
      cases ht
      obtain ⟨-, -, rfl⟩ := Descriptors.create_eq_some hc
      refine h.setOpen ?_ _ rfl
      obtain ⟨h1, h2, h3⟩ := hu
      cases hpc : s.pc <;> simp_all
    · cases ht
      exact h
  | close fd =>
    cases ht
    exact h.close fd

end Room

/-- The system calls of `handleRead` where the table is full. -/
def acceptAndClose : List Action :=
  [.handleRead (.failed .EMFILE), .closeIdle, .acceptIdle .ok, .closeAccepted, .openIdle]

/-- They end where they began, but for the first of the connections that wait. -/
theorem acceptAndClose_run {id : Nat} {rest : List Nat} (ho : Owners s) (hi : s.IdleOpen)
    (hpc : s.pc = .outside) (hlisten : s.listenning = true)
    (hb : s.backlog = id :: rest) (hfull : s.table.full = true) :
    machine.run s acceptAndClose = some { s with
      backlog := rest, accepted := s.accepted ++ [id], refused := s.refused ++ [id] } := by
  obtain ⟨fd, hfd, hlt⟩ := hi
  have hslot : s.table.slot fd = some .idle :=
    (ho.idle fd).2 ⟨keepsIdle_iff.2 (.inl hpc), hfd⟩
  have hfree : (s.table.set fd none).full = false :=
    Descriptors.not_full_of_free hlt (by rw [Descriptors.slot_set, if_pos rfl])
  have hback : s.table.set fd (some .idle) = s.table := by
    rw [← hslot]
    exact congrArg (fun slot => ({ s.table with slot := slot } : Descriptors Use))
      (Function.update_eq_self fd s.table.slot)
  -- the table after each call
  have hclose : s.table.close s.idleFd = s.table.set fd none := by
    rw [hfd, Descriptors.close_nat]
  have haccept := Descriptors.create_close hfull hlt (Use.refused id)
  have hclose' : (s.table.set fd (some (.refused id))).close (fd : Int) = s.table.set fd none := by
    rw [Descriptors.close_nat]
    simp only [Descriptors.set, Function.update_idem]
  have hopen := Descriptors.create_close hfull hlt Use.idle
  rw [hback] at hopen
  refine (machine.run_cons_iff _ _ _ _).2 ⟨?_, { s with pc := .closeIdle }, rfl, ?_⟩
  · simp only [machine, enabled, State.mayAccept, hpc, hlisten, hfull]
    rfl
  refine (machine.run_cons_iff _ _ _ _).2
    ⟨rfl, { s with table := s.table.set fd none, pc := .acceptIdle }, ?_, ?_⟩
  · exact congrArg (fun table => Except.ok { s with table := table, pc := Pc.acceptIdle }) hclose
  refine (machine.run_cons_iff _ _ _ _).2
    ⟨?_, { s with
      table := s.table.set fd (some (.refused id))
      idleFd := fd
      backlog := rest
      accepted := s.accepted ++ [id]
      refused := s.refused ++ [id]
      pc := .closeAccepted }, ?_, ?_⟩
  · show (true && (!s.backlog.isEmpty && !(s.table.set fd none).full)) = true
    rw [hb, hfree]
    rfl
  · simp only [machine, Acceptor.step, State.acceptIdle, State.acceptAs, hb, haccept]
    rfl
  refine (machine.run_cons_iff _ _ _ _).2
    ⟨rfl, { s with
      table := s.table.set fd none
      idleFd := fd
      backlog := rest
      accepted := s.accepted ++ [id]
      refused := s.refused ++ [id]
      pc := .openIdle }, ?_, ?_⟩
  · simp only [machine, Acceptor.step, hclose']
  refine (machine.run_cons_iff _ _ _ _).2 ⟨rfl, _, rfl, ?_⟩
  simp only [State.openIdle, hopen, Machine.run]
  rw [hfd, hpc]

/-- One connection is served and another waits, with no descriptor left. -/
def tableFull : List Action := [.construct, .listen, .arrive, .handleRead .ok, .arrive]

/-- Another thread takes the descriptor that was given up: the connection still waits, and
`idleFd_` is gone. -/
example : (machine.run (init 6 (fun fd => fd < 3) true) (tableFull ++
    [.handleRead (.failed .EMFILE), .closeIdle, .openOther, .acceptIdle (.failed .EMFILE),
      .closeAccepted, .openIdle])).map (fun s => (s.backlog, s.idleFd)) = some ([1], -1) := by
  rfl

end Rawmd.Acceptor
