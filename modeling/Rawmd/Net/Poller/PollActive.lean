import Rawmd.Net.Poller.PollTable

/-!
# `PollPoller` in runs, and what `fillActiveChannels` reports

`fillActiveChannels` walks the slots until it has seen `numEvents` of them with `revents`;
given the number and the values that poll(2) promises, it finds each in `channels_` and
appends its channel (`Filled`, `Polled`).  With the lemmas on the tables this gives every
action's effect, and that the tables agree in every run.

    Table s → enabled s a → ∃ s', step s a = .ok s' ∧ Effect s a s'     (Table.step_effect)
    Table s → Effect s a s' → Table s'                                  (Table.effect)
    run (init F) as = some s → the tables agree in s                    (pollPoller_table)
-/

namespace Rawmd.PollPoller

variable {κ : Type}

/-! ## `fillActiveChannels` -/

/-- The bits that poll(2) defines leave a `short` positive. -/
theorem toInt_pos_of_pollBits {r : BitVec 16} (h : r &&& ~~~pollBits = 0) (hr : r ≠ 0) :
    0 < r.toInt := by
  have hmsb : r.msb = false := by
    have hand := congrArg BitVec.msb h
    rw [BitVec.msb_and, (by decide : (~~~pollBits).msb = true), Bool.and_true] at hand
    exact hand
  rw [BitVec.toInt_eq_toNat_of_msb hmsb]
  have : r.toNat ≠ 0 := fun e => hr (BitVec.eq_of_toNat_eq e)
  omega

/-- What the loop has done from `s` to `s'` over the slots `pfds`. -/
structure Filled (s : State κ) (pfds : List PollFd) (s' : State κ) : Prop where
  pollfds : s'.pollfds = s.pollfds
  channels : s'.channels = s.channels
  active : s'.activeChannels = s.activeChannels ++ s.reported pfds
  marked : ∀ pfd ∈ pfds, pfd.revents ≠ 0 → ∀ c, s.channels[pfd.fd]? = some c →
    s'.channel c = { s.channel c with revents := pfd.revents.signExtend 32 }
  others : ∀ c, c ∉ s.reported pfds → s'.channel c = s.channel c

theorem mem_reported {s : State κ} {pfds : List PollFd} {c : κ} :
    c ∈ s.reported pfds ↔ ∃ pfd ∈ pfds, pfd.revents ≠ 0 ∧ s.channels[pfd.fd]? = some c := by
  simp only [State.reported, List.mem_filterMap]
  refine exists_congr fun pfd => and_congr_right fun _ => ?_
  split
  · next h => simp [h]
  · next h => exact ⟨fun hc => ⟨h, hc⟩, fun hc => hc.2⟩

theorem Filled.skip {s s' : State κ} {pfd : PollFd} {pfds : List PollFd} (h : Filled s pfds s')
    (hr : pfd.revents = 0) : Filled s (pfd :: pfds) s' := by
  have hrep : s.reported (pfd :: pfds) = s.reported pfds := by
    simp [State.reported, hr]
  refine ⟨h.pollfds, h.channels, by rw [hrep]; exact h.active, ?_, by rw [hrep]; exact h.others⟩
  intro q hq hqr
  rcases List.mem_cons.1 hq with rfl | hq
  · exact absurd hr hqr
  · exact h.marked q hq hqr

section

variable [DecidableEq κ]

theorem report_self (s : State κ) (c : κ) (revents : BitVec 16) :
    (s.report c revents).channel c = { s.channel c with revents := revents.signExtend 32 } :=
  Function.update_self _ _ _

theorem report_ne (s : State κ) {c d : κ} {revents : BitVec 16} (h : d ≠ c) :
    (s.report c revents).channel d = s.channel d :=
  Function.update_of_ne h _ _

theorem fillLoop_zero (s : State κ) (pfds : List PollFd) : s.fillLoop pfds 0 = .ok s := by
  cases pfds <;> rfl

/-- A slot without `revents` is skipped. -/
theorem fillLoop_skip (s : State κ) {pfd : PollFd} {pfds : List PollFd} {numEvents : Nat}
    (hr : pfd.revents = 0) :
    s.fillLoop (pfd :: pfds) numEvents = s.fillLoop pfds numEvents := by
  by_cases hn : numEvents = 0
  · rw [hn, fillLoop_zero, fillLoop_zero]
  · rw [State.fillLoop, if_neg hn, if_neg (by simp [hr])]

/-- A slot with `revents` is found, and its channel is reported. -/
theorem fillLoop_report {s : State κ} {pfd : PollFd} {pfds : List PollFd} {c : κ} (n : Nat)
    (hpos : 0 < pfd.revents.toInt) (hc : s.channels[pfd.fd]? = some c)
    (hfd : (s.channel c).fd = pfd.fd) :
    s.fillLoop (pfd :: pfds) (n + 1) = (s.report c pfd.revents).fillLoop pfds n := by
  rw [State.fillLoop, if_neg (by omega), if_pos hpos]
  simp only [hc]
  rw [if_pos hfd, Nat.add_sub_cancel]

/-- The channel that is reported first is not reported again. -/
theorem Filled.report {s s' : State κ} {pfd : PollFd} {pfds : List PollFd} {c : κ}
    (h : Filled (s.report c pfd.revents) pfds s') (hr : pfd.revents ≠ 0)
    (hc : s.channels[pfd.fd]? = some c) (hlater : c ∉ s.reported pfds) :
    Filled s (pfd :: pfds) s' := by
  have hrep : s.reported (pfd :: pfds) = c :: s.reported pfds := by
    rw [State.reported, List.filterMap_cons_some (b := c) (by rw [if_neg hr, hc])]
    rfl
  refine ⟨h.pollfds, h.channels, ?_, ?_, ?_⟩
  · have hact : s'.activeChannels = s.activeChannels ++ [c] ++ s.reported pfds := h.active
    rw [hact, hrep, List.append_assoc]
    rfl
  · intro q hq hqr d hd
    rcases List.mem_cons.1 hq with rfl | hq
    · obtain rfl : d = c := by simpa [hc] using hd.symm
      rw [h.others d hlater, report_self]
    · rw [h.marked q hq hqr d hd, report_ne s]
      rintro rfl
      exact hlater (mem_reported.2 ⟨q, hq, hqr, hd⟩)
  · intro d hd
    rw [hrep, List.mem_cons, not_or] at hd
    rw [h.others d hd.2, report_ne s hd.1]

theorem fillLoop_filled (pfds : List PollFd) (s : State κ)
    (hkey : ∀ fd c, s.channels[fd]? = some c → (s.channel c).fd = fd)
    (hok : ∀ pfd ∈ pfds, pfd.revents ≠ 0 → 0 < pfd.revents.toInt ∧ s.channels[pfd.fd]? ≠ none)
    (hinj : pfds.Pairwise fun a b => a.fd ≠ b.fd) :
    ∃ s', s.fillLoop pfds (pfds.countP fun pfd => pfd.revents ≠ 0) = .ok s' ∧
      Filled s pfds s' := by
  induction pfds generalizing s with
  | nil => exact ⟨s, rfl, rfl, rfl, by simp [State.reported], by simp, fun _ _ => rfl⟩
  | cons pfd pfds ih =>
    obtain ⟨hhead, hinj⟩ := List.pairwise_cons.1 hinj
    by_cases hr : pfd.revents = 0
    · obtain ⟨s', hs', hf⟩ := ih s hkey (fun q hq => hok q (by simp [hq])) hinj
      refine ⟨s', ?_, hf.skip hr⟩
      rw [List.countP_cons_of_neg (by simp [hr]), fillLoop_skip s hr]
      exact hs'
    · obtain ⟨hpos, hsome⟩ := hok pfd (by simp) hr
      obtain ⟨c, hc⟩ := Option.ne_none_iff_exists'.1 hsome
      have hfd := hkey _ _ hc
      have hkey₁ : ∀ fd d, s.channels[fd]? = some d →
          ((s.report c pfd.revents).channel d).fd = fd := by
        intro fd d hd
        by_cases hdc : d = c
        · rw [hdc, report_self]
          exact hkey fd c (hdc ▸ hd)
        · rw [report_ne s hdc]
          exact hkey fd d hd
      obtain ⟨s', hs', hf⟩ :=
        ih (s.report c pfd.revents) hkey₁ (fun q hq => hok q (by simp [hq])) hinj
      refine ⟨s', ?_, hf.report hr hc ?_⟩
      · rw [List.countP_cons_of_pos (by simpa using hr), fillLoop_report _ hpos hc hfd]
        exact hs'
      · -- no later slot is one of `c`
        rw [mem_reported]
        rintro ⟨q, hq, -, hqc⟩
        exact hhead q hq (hfd.symm.trans (hkey _ _ hqc))

end

theorem getElem?_written {s : State κ} {revents : List (BitVec 16)} {i : Nat} {pfd : PollFd} :
    (s.written revents)[i]? = some pfd ↔
      ∃ qfd r, s.pollfds[i]? = some qfd ∧ revents[i]? = some r ∧
        { qfd with revents := r } = pfd := by
  rw [State.written, List.getElem?_zipWith]
  cases s.pollfds[i]? <;> cases revents[i]? <;> simp

theorem length_written {s : State κ} {revents : List (BitVec 16)}
    (h : revents.length = s.pollfds.length) : (s.written revents).length = s.pollfds.length := by
  rw [State.written, List.length_zipWith, h, Nat.min_self]

/-- As many slots as values are not zero. -/
theorem countP_written {s : State κ} {revents : List (BitVec 16)}
    (h : revents.length = s.pollfds.length) :
    (s.written revents).countP (fun pfd => pfd.revents ≠ 0) = revents.countP (· ≠ 0) := by
  have hmap : (s.written revents).map PollFd.revents = revents := by
    apply List.ext_getElem?
    intro i
    rw [List.getElem?_map, State.written, List.getElem?_zipWith]
    cases hp : s.pollfds[i]? with
    | none =>
      rw [List.getElem?_eq_none_iff, ← h, ← List.getElem?_eq_none_iff] at hp
      rw [hp]
      rfl
    | some pfd => cases revents[i]? <;> rfl
  have hcount := List.countP_map (p := fun r => decide (r ≠ 0)) (f := PollFd.revents)
    (l := s.written revents)
  rw [hmap] at hcount
  exact hcount.symm

/-- The promises of poll(2), slot by slot. -/
theorem kernelWrites_slot {s : State κ} {revents : List (BitVec 16)}
    (h : s.kernelWrites revents = true) :
    revents.length = s.pollfds.length ∧
      ∀ (i : Nat) (pfd : PollFd) (r : BitVec 16), s.pollfds[i]? = some pfd →
        revents[i]? = some r → r &&& ~~~pollBits = 0 ∧ (0 ≤ pfd.fd ∨ r = 0) := by
  simp only [State.kernelWrites, Bool.and_eq_true, decide_eq_true_eq, List.all_eq_true,
    Bool.or_eq_true] at h
  refine ⟨h.1, fun i pfd r hp hr => ?_⟩
  have hz : (s.pollfds.zip revents)[i]? = some (pfd, r) := by
    rw [List.getElem?_zip_eq_some]
    exact ⟨hp, hr⟩
  exact h.2 _ (List.mem_of_getElem? hz)

section

variable [DecidableEq κ]

theorem Table.poll_effect {F : Fds κ} {s : State κ} {revents : List (BitVec 16)} (h : Table F s)
    (hk : s.kernelWrites revents = true) :
    ∃ s', s.poll (some revents) = .ok s' ∧ Effect s (.poll (some revents)) s' := by
  obtain ⟨hlen, hk⟩ := kernelWrites_slot hk
  have ht : Table F { s with activeChannels := [], pollfds := s.written revents } := by
    refine h.congr (fun _ => rfl) (fun _ => rfl) rfl (length_written hlen) fun i pfd hp => ?_
    obtain ⟨qfd, r, hq, -, rfl⟩ := getElem?_written.1 hp
    exact ⟨qfd, hq, rfl⟩
  have hok : ∀ pfd ∈ s.written revents, pfd.revents ≠ 0 →
      0 < pfd.revents.toInt ∧ s.channels[pfd.fd]? ≠ none := by
    intro pfd hm hr
    obtain ⟨i, hp⟩ := List.mem_iff_getElem?.1 hm
    obtain ⟨qfd, r, hq, hr', rfl⟩ := getElem?_written.1 hp
    obtain ⟨hbits, hfd⟩ := hk i qfd r hq hr'
    refine ⟨toInt_pos_of_pollBits hbits hr, ?_⟩
    obtain ⟨c, hc, -⟩ := ht.owner_of_nonneg hp (hfd.resolve_right hr)
    rw [show s.channels[qfd.fd]? = some c from hc]
    simp
  obtain ⟨s', hs', hf⟩ := fillLoop_filled (s.written revents)
    { s with activeChannels := [], pollfds := s.written revents }
    (fun _ _ hc => ht.channels_fd hc) hok ht.pollfds_pairwise
  rw [countP_written hlen] at hs'
  refine ⟨s', ?_, .poll ⟨hf.pollfds, ?_, hf.channels, ?_, ?_, ?_⟩⟩
  · simp only [State.poll]
    split
    · exact hs'
    · next hn =>
      have hz : revents.countP (· ≠ 0) = 0 := by omega
      rw [hz, fillLoop_zero] at hs'
      exact hs'
  · rw [hf.pollfds]
    exact length_written hlen
  · rw [hf.active, hf.pollfds]
    rfl
  · rw [hf.pollfds]
    exact hf.marked
  · intro c hc
    rw [hf.active] at hc
    exact hf.others c hc

/-- Every action that the entry asserts and the kernel allow succeeds, with its effect. -/
theorem Table.step_effect {F : Fds κ} {s : State κ} {a : Action κ} (h : Table F s)
    (he : (machine κ).enabled s a = true) :
    ∃ s', (machine κ).step s a = .ok s' ∧ Effect s a s' := by
  cases a with
  | updateChannel c events => exact h.updateChannel_effect he
  | removeChannel c => exact h.removeChannel_effect he
  | poll result =>
    cases result with
    | none => exact ⟨_, rfl, .pollFails⟩
    | some revents => exact h.poll_effect he

end

theorem Polled.channel {s s' : State κ} {revents : List (BitVec 16)} (hp : Polled s revents s')
    (c : κ) : s'.channel c = { s.channel c with revents := (s'.channel c).revents } := by
  by_cases hc : c ∈ s'.activeChannels
  · rw [hp.active] at hc
    obtain ⟨pfd, hm, hr, hc⟩ := mem_reported.1 hc
    rw [hp.marked pfd hm hr c hc]
  · rw [hp.others c hc]

namespace Table

variable [DecidableEq κ] {F : Fds κ} {s s' : State κ}

theorem effect (h : Table F s) {a : Action κ} (he : Effect s a s') : Table F s' := by
  cases he with
  | add _ _ hnone => exact h.added _ hnone
  | modify _ hs => exact h.modified _ hs
  | remove hreg hs _ hlast hsl => exact h.removed hreg hs hlast hsl
  | pollFails =>
    exact h.congr (fun _ => rfl) (fun _ => rfl) rfl rfl fun _ pfd hp => ⟨pfd, hp, rfl⟩
  | poll hp =>
    refine h.congr (fun c => by rw [hp.channel c]) (fun c => by rw [hp.channel c]) hp.channels
      hp.length fun i pfd hpfd => ?_
    rw [hp.pollfds] at hpfd
    obtain ⟨qfd, r, hq, -, rfl⟩ := getElem?_written.1 hpfd
    exact ⟨qfd, hq, rfl⟩

/-- `fillActiveChannels` appends the registered channels whose slots have `revents`, once each. -/
theorem polled_active (h : Table F s) {revents : List (BitVec 16)}
    (hk : s.kernelWrites revents = true) (hp : Polled s revents s') :
    s'.activeChannels.Nodup ∧
      (∀ c, c ∈ s'.activeChannels ↔
        s.Registered c ∧ ∃ r, revents[(s.channel c).index.toNat]? = some r ∧ r ≠ 0) ∧
      ∀ c r, s.Registered c → revents[(s.channel c).index.toNat]? = some r → r ≠ 0 →
        s'.channel c = { s.channel c with revents := r.signExtend 32 } := by
  obtain ⟨-, hk⟩ := kernelWrites_slot hk
  have ht := h.effect (.poll hp)
  -- the slot of a registered channel with `revents` holds its descriptor
  have hfound : ∀ c r, s.Registered c → revents[(s.channel c).index.toNat]? = some r → r ≠ 0 →
      ∃ pfd ∈ s'.pollfds, pfd.revents = r ∧ s.channels[pfd.fd]? = some c := by
    intro c r hreg hr hr0
    obtain ⟨i, qfd, hs⟩ := h.slot c hreg
    rw [hs.index, Int.toNat_natCast] at hr
    have hpos := (hk i qfd r hs.at_index hr).2.resolve_right hr0
    have hfd : qfd.fd = (s.channel c).fd := by
      rw [← hs.fd, slotFd, if_neg (not_lt.2 hpos)]
    refine ⟨{ qfd with revents := r }, ?_, rfl, by rw [hfd]; exact hreg⟩
    rw [hp.pollfds]
    exact List.mem_of_getElem? (getElem?_written.2 ⟨qfd, r, hs.at_index, hr, rfl⟩)
  refine ⟨?_, fun c => ?_, fun c r hreg hr hr0 => ?_⟩
  · -- distinct slots hold distinct descriptors
    rw [hp.active, State.reported, List.Nodup, List.pairwise_filterMap]
    refine ht.pollfds_pairwise.imp fun {p q} hpq c hc d hd hcd => hpq ?_
    subst hcd
    split at hc
    · cases hc
    · split at hd
      · cases hd
      · rw [← h.channels_fd hc, h.channels_fd hd]
  · rw [hp.active, mem_reported]
    constructor
    · rintro ⟨pfd, hm, hr, hc⟩
      have hreg : s.Registered c := by
        rw [State.Registered, h.channels_fd hc]
        exact hc
      obtain ⟨i, hi⟩ := List.mem_iff_getElem?.1 hm
      rw [hp.pollfds] at hi
      obtain ⟨qfd, r, hq, hri, rfl⟩ := getElem?_written.1 hi
      obtain ⟨d, hd, hs⟩ := h.owner i qfd hq
      have hpos := (hk i qfd r hq hri).2.resolve_right hr
      have hdc : d = c := by
        apply F.inj
        rw [← h.fd, ← h.fd, ← hs.fd, slotFd, if_neg (not_lt.2 hpos), h.channels_fd hc]
      subst hdc
      exact ⟨hreg, r, by rw [hs.index, Int.toNat_natCast]; exact hri, hr⟩
    · rintro ⟨hreg, r, hr, hr0⟩
      obtain ⟨pfd, hm, rfl, hc⟩ := hfound c r hreg hr hr0
      exact ⟨pfd, hm, hr0, hc⟩
  · obtain ⟨pfd, hm, rfl, hc⟩ := hfound c r hreg hr hr0
    exact hp.marked pfd hm hr0 c hc

end Table

/-! ## Runs -/

/-- Which channels are registered after one more call. -/
def track [DecidableEq κ] (R : κ → Bool) : Action κ → κ → Bool
  | .updateChannel c _ => Function.update R c true
  | .removeChannel c => Function.update R c false
  | .poll _ => R

/-- The channels whose last call was `updateChannel`. -/
def registered [DecidableEq κ] (as : List (Action κ)) : κ → Bool := as.foldl track fun _ => false

section

variable [DecidableEq κ] {F : Fds κ} {s s' : State κ}

theorem track_effect (h : Table F s) {a : Action κ} (he : Effect s a s') {R : κ → Bool}
    (hR : ∀ c, R c = true ↔ s.Registered c) (d : κ) : track R a d = true ↔ s'.Registered d := by
  cases he with
  | @add c events _ _ _ =>
    rw [h.registered_added, ← hR, track, Function.update_apply]
    split <;> simp [*]
  | @modify c events i pfd hreg hs =>
    rw [Table.registered_modified, ← hR, track, Function.update_apply]
    split
    · next hd => simp [hd, (hR c).2 hreg]
    · rfl
  | @remove c last i pfd qfd _ _ _ _ _ =>
    rw [h.registered_removed, ← hR, track, Function.update_apply]
    split <;> simp [*]
  | pollFails => exact hR d
  | poll hp =>
    rw [State.Registered, hp.channel d, hp.channels]
    exact hR d

theorem run_registered (F : Fds κ) {as : List (Action κ)}
    (hr : (machine κ).run (init F) as = some s) :
    Table F s ∧ ∀ c, registered as c = true ↔ s.Registered c := by
  have hrun : ∀ (as : List (Action κ)) (s : State κ) (R : κ → Bool), Table F s →
      (∀ c, R c = true ↔ s.Registered c) → ∀ s', (machine κ).run s as = some s' →
      Table F s' ∧ ∀ c, as.foldl track R c = true ↔ s'.Registered c := by
    intro as
    induction as with
    | nil =>
      intro s R h hR s' hr
      cases hr
      exact ⟨h, hR⟩
    | cons a as ih =>
      intro s R h hR s' hr
      obtain ⟨he, u, hu, hr⟩ := ((machine κ).run_cons_iff _ _ _ _).1 hr
      obtain ⟨u', hu', hef⟩ := h.step_effect he
      rw [hu] at hu'
      cases hu'
      exact ih u _ (h.effect hef) (track_effect h hef hR) s' hr
  exact hrun as _ _ (Table.init F) (by simp [init, State.Registered]) s hr

/-- **The tables of `PollPoller` agree after every call, and no assert fails**: the registered
channels are in bijection with the slots, and `fillActiveChannels` reports exactly those with
`revents`. -/
theorem pollPoller_table (F : Fds κ) (as : List (Action κ)) (s : State κ)
    (hr : (machine κ).run (init F) as = some s) :
    s.channels.size = s.pollfds.length ∧
    (∀ c, registered as c = true → s.channels[F.fd c]? = some c ∧ 0 ≤ (s.channel c).index ∧
      (s.channel c).index < s.pollfds.length ∧
      ∃ pfd, s.pollfds[(s.channel c).index.toNat]? = some pfd ∧
        (pfd.fd = F.fd c ∨ pfd.fd = -F.fd c - 1)) ∧
    (∀ c d, registered as c = true → registered as d = true →
      (s.channel c).index = (s.channel d).index → c = d) ∧
    (∀ i < s.pollfds.length, ∃ c, registered as c = true ∧ (s.channel c).index = i) ∧
    (∀ a, (machine κ).enabled s a = true → ∃ s', (machine κ).step s a = .ok s') ∧
    ∀ revents, s.kernelWrites revents = true →
      ∃ s', s.poll (some revents) = .ok s' ∧ s'.activeChannels.Nodup ∧
        (∀ c, c ∈ s'.activeChannels ↔ registered as c = true ∧
          ∃ r, revents[(s.channel c).index.toNat]? = some r ∧ r ≠ 0) ∧
        ∀ c r, registered as c = true → revents[(s.channel c).index.toNat]? = some r → r ≠ 0 →
          (s'.channel c).revents = r.signExtend 32 := by
  obtain ⟨h, hR⟩ := run_registered F hr
  refine ⟨h.size, ?_, ?_, ?_, ?_, ?_⟩
  · intro c hc
    have hreg := (hR c).1 hc
    obtain ⟨i, pfd, hs⟩ := h.slot c hreg
    refine ⟨h.registered_iff.1 hreg, by rw [hs.index]; omega, ?_, pfd, ?_, ?_⟩
    · rw [hs.index]
      exact_mod_cast Table.slot_lt hs
    · rw [hs.index, Int.toNat_natCast]
      exact hs.at_index
    · rw [← slotFd_eq_iff (F.nonneg c), hs.fd, h.fd]
  · intro c d hc hd hcd
    obtain ⟨i, pfd, hsc⟩ := h.slot c ((hR c).1 hc)
    obtain ⟨j, qfd, hsd⟩ := h.slot d ((hR d).1 hd)
    obtain rfl : i = j := by
      rw [hsc.index, hsd.index] at hcd
      exact_mod_cast hcd
    exact h.slot_inj hsc hsd
  · intro i hi
    obtain ⟨c, hreg, hs⟩ := h.owner i _ (List.getElem?_eq_getElem hi)
    exact ⟨c, (hR c).2 hreg, hs.index⟩
  · intro a he
    obtain ⟨s', hs', -⟩ := h.step_effect he
    exact ⟨s', hs'⟩
  · intro revents hk
    obtain ⟨s', hs', hef⟩ := h.poll_effect hk
    cases hef with
    | poll hp =>
      obtain ⟨hnodup, hmem, hmark⟩ := h.polled_active hk hp
      refine ⟨s', hs', hnodup, fun c => by rw [hmem, hR], fun c r hc hr hr0 => ?_⟩
      rw [hmark c r ((hR c).1 hc) hr hr0]

/-- Channels 0, 1 and 2 are registered; 0 is disabled and removed, so 2 moves to its slot. -/
def swapRun : List (Action Nat) :=
  [.updateChannel 0 3, .updateChannel 1 3, .updateChannel 2 3, .updateChannel 0 0,
    .removeChannel 0, .poll (some [1, 0])]

theorem swapRun_table :
    ∃ s, (machine Nat).run (init .plain) swapRun = some s ∧ s.pollfds.map PollFd.fd = [2, 1] ∧
      s.activeChannels = [2] ∧ s.channels.size = s.pollfds.length :=
  ⟨_, rfl, by decide, by decide, (pollPoller_table .plain swapRun _ rfl).1⟩

end

end Rawmd.PollPoller
