import Rawmd.Lib.Except
import Rawmd.Net.TcpServerNames
import Mathlib.Data.List.Nodup

/-!
# Who owns a connection of a `TcpServer`

`Core s listed queued` ties the states of the connections to the poller and to their owners:
`listed` are the connections that `connections_` (or the loop of `~TcpServer`) still holds and
`queued` those of the functors that are still to be called.  One call of `connectDestroyed`
takes its connection out of both (`Core.connectDestroyed`), so `doPendingFunctors` and
`~TcpServer` are two inductions over a list with the same step.
-/

namespace Rawmd

/-! ## What a call asks the server for -/

/-- Not a callback of the user. -/
def Request.inner : Request → Bool
  | .connectionCallback _ => false
  | .messageCallback _ => false
  | _ => true

namespace TcpConnection

def work (c : TcpConnection) : List Request := c.requests.filter Request.inner

variable {c c' c'' : TcpConnection}

theorem work_request (c : TcpConnection) (r : Request) :
    (c.request r).work = c.work ++ if r.inner then [r] else [] := by
  rw [work, request, List.filter_append]
  cases h : r.inner <;> simp [work, h]

theorem work_callBack (c : TcpConnection) : c.callBack.work = c.work := by
  rw [callBack, work_request]
  exact List.append_nil _

/-- A callback of the channel does nothing, or closes the connection. -/
inductive Outcome (c c' : TcpConnection) : Prop where
  | same (name : c'.name = c.name) (sockfd : c'.sockfd = c.sockfd) (state : c'.state = c.state)
      (past : c'.past = c.past) (work : c'.work = c.work)
  | closed (name : c'.name = c.name) (sockfd : c'.sockfd = c.sockfd)
      (before : c.state ≠ .kDisconnected) (state : c'.state = .kDisconnected)
      (work : c'.work = c.work ++ [.update .disableAll, .closeCallback])

theorem Outcome.trans (h : Outcome c c') (h' : Outcome c' c'') : Outcome c c'' := by
  cases h with
  | same hn hf hs hp hw =>
    cases h' with
    | same hn' hf' hs' hp' hw' =>
      exact .same (hn'.trans hn) (hf'.trans hf) (hs'.trans hs) (hp'.trans hp) (hw'.trans hw)
    | closed hn' hf' hb' hs' hw' =>
      rw [hs] at hb'
      rw [hw] at hw'
      exact .closed (hn'.trans hn) (hf'.trans hf) hb' hs' hw'
  | closed hn hf hb hs hw =>
    cases h' with
    | same hn' hf' hs' _ hw' =>
      exact .closed (hn'.trans hn) (hf'.trans hf) hb (hs'.trans hs) (hw'.trans hw)
    | closed _ _ hb' _ _ => exact absurd hs hb'

theorem handleClose_outcome (h : c.handleClose = .ok c') : Outcome c c' := by
  unfold handleClose at h
  split at h
  · next hs =>
    cases h
    refine .closed rfl rfl ?_ rfl ?_
    · rcases hs with hs | hs <;> rw [hs] <;> decide
    · rw [work_request, work_callBack, work_request]
      simp [Request.inner, work, setState]
  · cases h

theorem callback_outcome {n : Int} {k : Channel.Callback} (h : callback n c k = .ok c') :
    Outcome c c' := by
  cases k with
  | close => exact handleClose_outcome h
  | error =>
    cases h
    exact .same rfl rfl rfl rfl rfl
  | write =>
    cases h
    exact .same rfl rfl rfl rfl rfl
  | read =>
    unfold callback handleRead at h
    simp only at h
    split at h
    · cases h
      refine .same rfl rfl rfl rfl ?_
      rw [work_request]
      exact List.append_nil _
    · split at h
      · exact handleClose_outcome h
      · cases h
        exact .same rfl rfl rfl rfl rfl

theorem callbacks_outcome {n : Int} {ks : List Channel.Callback}
    (h : ks.foldlM (callback n) c = .ok c') : Outcome c c' := by
  induction ks generalizing c with
  | nil =>
    cases h
    exact .same rfl rfl rfl rfl rfl
  | cons k ks ih =>
    rw [List.foldlM_cons] at h
    obtain ⟨c₁, hk, h⟩ := Except.bind_ok h
    exact (callback_outcome hk).trans (ih h)

/-- `connectDestroyed` leaves the connection disconnected and unregisters its channel. -/
theorem connectDestroyed_work (c : TcpConnection) :
    c.connectDestroyed.work = c.work ++
      if c.state = .kConnected then [.update .disableAll, .remove] else [.remove] := by
  unfold connectDestroyed
  rw [work_request]
  split
  · rw [work_callBack, work_request]
    simp [Request.inner, work, setState]
  · rfl

theorem connectDestroyed_state (c : TcpConnection) :
    c.connectDestroyed.state = if c.state = .kConnected then .kDisconnected else c.state := by
  unfold connectDestroyed
  split <;> rfl

theorem connectDestroyed_name (c : TcpConnection) : c.connectDestroyed.name = c.name := by
  unfold connectDestroyed
  split <;> rfl

theorem connectDestroyed_sockfd (c : TcpConnection) : c.connectDestroyed.sockfd = c.sockfd := by
  unfold connectDestroyed
  split <;> rfl

end TcpConnection

/-! ## What the server does -/

theorem Poller.Sets.trans {κ : Type} {p q r : Poller κ} {c : κ} {x y : Option κ}
    (h : p.Sets c x q) (h' : q.Sets c y r) : p.Sets c y r := by
  refine ⟨fun d => (h'.fd d).trans (h.fd d), fun fd => ?_⟩
  rw [h'.channels, h.channels, h.fd]
  split <;> rfl

namespace TcpServer

variable {s s' : TcpServer} {c : Nat}

theorem perform_update {op : Channel.Op} (h : perform c s (.update op) = .ok s') :
    ∃ p, s.poller.Sets c (some c) p ∧ s' = { s with poller := p } := by
  unfold perform at h
  simp only at h
  split at h
  · next p hp =>
    cases h
    exact ⟨p, Poller.updateChannel_sets hp, rfl⟩
  · cases h

theorem perform_remove (h : perform c s .remove = .ok s') :
    ∃ p, s.poller.Sets c none p ∧ s' = { s with poller := p } := by
  unfold perform at h
  simp only at h
  split at h
  · next p hp =>
    cases h
    exact ⟨p, (Poller.removeChannel_sets hp).2, rfl⟩
  · cases h

theorem removeConnection_ok (h : s.removeConnection c = .ok s') :
    s' = { s with
      connections := s.connections.erase (s.conn c).name
      pendingFunctors := s.pendingFunctors ++ [c] } := by
  unfold removeConnection at h
  simp only at h
  split at h
  · cases h
  · cases hn : s.connections.contains (s.conn c).name with
    | false => simp [hn] at h
    | true =>
      simp only [hn, if_true, ne_eq, not_true_eq_false, if_false] at h
      cases h
      rfl

/-- The callbacks of the user can be left out. -/
theorem foldlM_perform (c : Nat) (rs : List Request) (s : TcpServer) :
    rs.foldlM (perform c) s = (rs.filter Request.inner).foldlM (perform c) s := by
  induction rs generalizing s with
  | nil => rfl
  | cons r rs ih =>
    cases r with
    | update op => exact bind_congr fun t => ih t
    | remove => exact bind_congr fun t => ih t
    | connectionCallback b => exact ih s
    | messageCallback n => exact ih s
    | closeCallback => exact bind_congr fun t => ih t

theorem finish_eq (s : TcpServer) (c : Nat) (conn : TcpConnection) :
    s.finish c conn = conn.work.foldlM (perform c)
      { s with conn := Function.update s.conn c { conn with requests := [] } } :=
  foldlM_perform c _ _

theorem connectDestroyed_ok (hr : (s.conn c).requests = []) (h : s.connectDestroyed c = .ok s') :
    ∃ p conn, s.poller.Sets c none p ∧
      conn.name = (s.conn c).name ∧ conn.sockfd = (s.conn c).sockfd ∧ conn.requests = [] ∧
      conn.state = (if (s.conn c).state = .kConnected then .kDisconnected else (s.conn c).state) ∧
      s' = { s with
        poller := p, conn := Function.update s.conn c conn, destroyed := s.destroyed ++ [c] } := by
  unfold connectDestroyed at h
  split at h
  · cases h
  · rw [finish_eq, TcpConnection.connectDestroyed_work, TcpConnection.work, hr, List.filter_nil,
      List.nil_append] at h
    have hall := (s.conn c).connectDestroyed_state
    split at h
    · next hs =>
      rw [if_pos hs] at hall
      rw [List.foldlM_cons] at h
      obtain ⟨s₁, h₁, h⟩ := Except.bind_ok h
      rw [List.foldlM_cons] at h
      obtain ⟨s₂, h₂, h⟩ := Except.bind_ok h
      cases h
      obtain ⟨p, hp, rfl⟩ := perform_update h₁
      obtain ⟨q, hq, rfl⟩ := perform_remove h₂
      refine ⟨q, { (s.conn c).connectDestroyed with requests := [] }, hp.trans hq, ?_⟩
      exact ⟨TcpConnection.connectDestroyed_name _, TcpConnection.connectDestroyed_sockfd _, rfl,
        hall.trans (if_pos hs).symm, rfl⟩
    · next hs =>
      rw [if_neg hs] at hall
      rw [List.foldlM_cons] at h
      obtain ⟨s₂, h₂, h⟩ := Except.bind_ok h
      cases h
      obtain ⟨q, hq, rfl⟩ := perform_remove h₂
      refine ⟨q, { (s.conn c).connectDestroyed with requests := [] }, hq, ?_⟩
      exact ⟨TcpConnection.connectDestroyed_name _, TcpConnection.connectDestroyed_sockfd _, rfl,
        hall.trans (if_neg hs).symm, rfl⟩

theorem nodup_snoc {l : List Nat} (h : l.Nodup) (hc : c ∉ l) : (l ++ [c]).Nodup := by
  rw [← List.concat_eq_append]
  exact h.concat hc

/-- A field that stays the same for `c` stays the same for all. -/
theorem field_update {β : Type} (f : TcpConnection → β) {conn : TcpConnection}
    (h : f conn = f (s.conn c)) (d : Nat) :
    f (Function.update s.conn c conn d) = f (s.conn d) := by
  rw [Function.update_apply]
  split
  · next hd => rw [hd, h]
  · rfl

theorem requests_update {conn : TcpConnection} (h : ∀ d, (s.conn d).requests = [])
    (hc : conn.requests = []) (d : Nat) : (Function.update s.conn c conn d).requests = [] := by
  rw [Function.update_apply]
  split
  · exact hc
  · exact h d

theorem created_succ {d : Nat} (hpos : 1 ≤ s.nextConnId) :
    (1 ≤ d ∧ d < s.nextConnId + 1) ↔ s.Created d ∨ d = s.nextConnId := by
  unfold Created
  omega

theorem Created.ne_next {d : Nat} (h : s.Created d) : d ≠ s.nextConnId := Nat.ne_of_lt h.2

/-! ## The invariant -/

structure Core (s : TcpServer) (listed : Nat → Prop) (queued : List Nat) : Prop where
  requests : ∀ c, (s.conn c).requests = []
  fd : ∀ c, s.Created c → (s.poller.channel c).fd = (s.conn c).sockfd
  key : ∀ x c, s.poller.channels[x]? = some c →
    s.Created c ∧ (s.conn c).sockfd = x ∧ c ∉ s.destroyed
  registered : ∀ c, s.Created c → c ∉ s.destroyed →
    s.poller.channels[(s.conn c).sockfd]? = some c
  up : ∀ c, listed c → s.Created c ∧ c ∉ s.destroyed ∧ (s.conn c).state = .kConnected
  down : ∀ c, s.Created c → ¬ listed c → (s.conn c).state = .kDisconnected
  waiting : ∀ c, c ∈ queued ↔ s.Created c ∧ ¬ listed c ∧ c ∉ s.destroyed
  queuedNodup : queued.Nodup
  destroyedNodup : s.destroyed.Nodup
  created : ∀ c ∈ s.destroyed, s.Created c
  released : ∀ c ∈ s.released, c ∈ s.destroyed

namespace Core

variable {listed listed' : Nat → Prop} {queued : List Nat}

theorem congr (h : Core s listed queued) (hl : ∀ d, listed d ↔ listed' d) :
    Core s listed' queued := by
  obtain rfl : listed = listed' := funext fun d => propext (hl d)
  exact h

/-- A channel that is registered is not there twice. -/
theorem fd_ne (h : Core s listed queued) {d : Nat} (hc : s.Created c) (hcd : c ∉ s.destroyed)
    (hd : s.Created d) (hdd : d ∉ s.destroyed) (hne : d ≠ c) :
    (s.conn d).sockfd ≠ (s.conn c).sockfd := by
  intro heq
  have hrd := h.registered d hd hdd
  rw [heq, h.registered c hc hcd] at hrd
  exact hne (Option.some.inj hrd).symm

/-- Connection `c` leaves the list and is disconnected; the others are as before. -/
theorem state_update (h : Core s listed queued) {conn : TcpConnection}
    (hstate : conn.state = .kDisconnected) {d : Nat} (hd : s.Created d) :
    (listed d ∧ d ≠ c → (Function.update s.conn c conn d).state = .kConnected) ∧
      (¬ (listed d ∧ d ≠ c) → (Function.update s.conn c conn d).state = .kDisconnected) := by
  by_cases hdc : d = c
  · rw [hdc, Function.update_self]
    exact ⟨fun hl => absurd rfl hl.2, fun _ => hstate⟩
  · rw [Function.update_of_ne hdc]
    exact ⟨fun hl => (h.up d hl.1).2.2, fun hl => h.down d hd fun hld => hl ⟨hld, hdc⟩⟩

theorem connectDestroyed (h : Core s listed queued) (hc : s.Created c) (hcd : c ∉ s.destroyed)
    (hs : s.connectDestroyed c = .ok s') :
    Core s' (fun d => listed d ∧ d ≠ c) (queued.erase c) := by
  obtain ⟨p, conn, hp, hname, hfd, hreq, hstate, rfl⟩ := connectDestroyed_ok (h.requests c) hs
  have hsock := field_update TcpConnection.sockfd hfd
  have hmem : ∀ d, d ∈ s.destroyed ++ [c] ↔ d ∈ s.destroyed ∨ d = c := by simp
  have hdown : conn.state = .kDisconnected := by
    rw [hstate]
    split
    · rfl
    · next hup => exact h.down c hc fun hl => hup (h.up c hl).2.2
  constructor
  · exact requests_update h.requests hreq
  · intro d hd
    show (p.channel d).fd = (Function.update s.conn c conn d).sockfd
    rw [hp.fd, hsock]
    exact h.fd d hd
  · intro x d hx
    have hx' := (hp.channels x).symm.trans hx
    split at hx'
    · cases hx'
    · next hne =>
      obtain ⟨hd, hdx, hdd⟩ := h.key x d hx'
      refine ⟨hd, (hsock d).trans hdx, fun hin => ?_⟩
      rcases (hmem d).1 hin with hin | rfl
      · exact hdd hin
      · exact hne (by rw [h.fd d hd, hdx])
  · intro d hd hdd
    show p.channels[(Function.update s.conn c conn d).sockfd]? = some d
    have hdd' := fun hin => hdd ((hmem d).2 (.inl hin))
    have hne := fun heq => hdd ((hmem d).2 (.inr heq))
    rw [hsock, hp.channels, h.fd c hc, if_neg (h.fd_ne hc hcd hd hdd' hne)]
    exact h.registered d hd hdd'
  · rintro d ⟨hl, hne⟩
    obtain ⟨hd, hdd, -⟩ := h.up d hl
    refine ⟨hd, fun hin => ?_, (h.state_update hdown hd).1 ⟨hl, hne⟩⟩
    exact ((hmem d).1 hin).elim hdd hne
  · intro d hd hl
    exact (h.state_update hdown hd).2 hl
  · intro d
    rw [h.queuedNodup.mem_erase_iff, h.waiting d]
    show _ ↔ s.Created d ∧ _ ∧ d ∉ s.destroyed ++ [c]
    rw [hmem]
    constructor
    · rintro ⟨hne, hd, hl, hdd⟩
      exact ⟨hd, fun hld => hl hld.1, fun hin => hin.elim hdd hne⟩
    · rintro ⟨hd, hl, hdd⟩
      have hne : d ≠ c := fun heq => hdd (.inr heq)
      exact ⟨hne, hd, fun hld => hl ⟨hld, hne⟩, fun hin => hdd (.inl hin)⟩
  · exact h.queuedNodup.erase c
  · exact nodup_snoc h.destroyedNodup hcd
  · intro d hd
    rcases (hmem d).1 hd with hd | rfl
    · exact h.created d hd
    · exact hc
  · intro d hd
    exact (hmem d).2 (.inl (h.released d hd))

/-- The connection closes: the map gives it to a new functor. -/
theorem close (h : Core s listed queued) {p : Poller Nat} {conn : TcpConnection}
    (hc : s.Created c) (hcd : c ∉ s.destroyed) (hl : listed c) (hp : s.poller.Sets c (some c) p)
    (hfd : conn.sockfd = (s.conn c).sockfd) (hreq : conn.requests = [])
    (hstate : conn.state = .kDisconnected) {connections : Std.TreeMap Text Nat} :
    Core { s with
      poller := p, conn := Function.update s.conn c conn, connections := connections
      pendingFunctors := s.pendingFunctors ++ [c] }
      (fun d => listed d ∧ d ≠ c) (queued ++ [c]) := by
  have hsock := field_update TcpConnection.sockfd hfd
  -- the channel was registered, so the poller's map is as before
  have hch : ∀ x : Int, p.channels[x]? = s.poller.channels[x]? := by
    intro x
    rw [hp.channels, h.fd c hc]
    exact (getElem?_same (h.registered c hc hcd) x).symm
  have hnq : c ∉ queued := fun hq => ((h.waiting c).1 hq).2.1 hl
  constructor
  · exact requests_update h.requests hreq
  · intro d hd
    show (p.channel d).fd = (Function.update s.conn c conn d).sockfd
    rw [hp.fd, hsock]
    exact h.fd d hd
  · intro x d hx
    obtain ⟨hd, hdx, hdd⟩ := h.key x d ((hch x).symm.trans hx)
    exact ⟨hd, (hsock d).trans hdx, hdd⟩
  · intro d hd hdd
    show p.channels[(Function.update s.conn c conn d).sockfd]? = some d
    rw [hsock, hch]
    exact h.registered d hd hdd
  · rintro d ⟨hld, hne⟩
    obtain ⟨hd, hdd, -⟩ := h.up d hld
    exact ⟨hd, hdd, (h.state_update hstate hd).1 ⟨hld, hne⟩⟩
  · intro d hd hld
    exact (h.state_update hstate hd).2 hld
  · intro d
    rw [List.mem_append, h.waiting d, List.mem_singleton]
    constructor
    · rintro (⟨hd, hld, hdd⟩ | rfl)
      · exact ⟨hd, fun hl' => hld hl'.1, hdd⟩
      · exact ⟨hc, fun hl' => hl'.2 rfl, hcd⟩
    · rintro ⟨hd, hld, hdd⟩
      by_cases hdc : d = c
      · exact .inr hdc
      · exact .inl ⟨hd, fun hl' => hld ⟨hl', hdc⟩, hdd⟩
  · exact nodup_snoc h.queuedNodup hnq
  · exact h.destroyedNodup
  · exact h.created
  · exact h.released

/-- A connection is created on a descriptor that is not open. -/
theorem create (h : Core s listed queued) (p : Poller Nat) (conn : TcpConnection)
    (hfresh : ∀ d, s.Created d → d ∉ s.released → (s.conn d).sockfd ≠ conn.sockfd)
    (hfd : ∀ d, (p.channel d).fd =
      if d = s.nextConnId then conn.sockfd else (s.poller.channel d).fd)
    (hch : ∀ x : Int, p.channels[x]? =
      if x = conn.sockfd then some s.nextConnId else s.poller.channels[x]?)
    (hreq : conn.requests = []) (hstate : conn.state = .kConnected) (hpos : 1 ≤ s.nextConnId)
    {connections : Std.TreeMap Text Nat} :
    Core { s with
      nextConnId := s.nextConnId + 1
      poller := p, conn := Function.update s.conn s.nextConnId conn, connections := connections }
      (fun d => listed d ∨ d = s.nextConnId) queued := by
  have hnew := fun d => created_succ (d := d) hpos
  have hnd : s.nextConnId ∉ s.destroyed := fun hd => (h.created _ hd).ne_next rfl
  constructor
  · exact requests_update h.requests hreq
  · intro d hd
    show (p.channel d).fd = (Function.update s.conn s.nextConnId conn d).sockfd
    rw [hfd]
    rcases (hnew d).1 hd with hd | rfl
    · rw [if_neg hd.ne_next, Function.update_of_ne hd.ne_next]
      exact h.fd d hd
    · rw [if_pos rfl, Function.update_self]
  · intro x d hx
    show (1 ≤ d ∧ d < s.nextConnId + 1) ∧
      (Function.update s.conn s.nextConnId conn d).sockfd = x ∧ d ∉ s.destroyed
    rw [hnew]
    have hx' := (hch x).symm.trans hx
    split at hx'
    · next heq =>
      obtain rfl := Option.some.inj hx'
      exact ⟨.inr rfl, by rw [Function.update_self, heq], hnd⟩
    · obtain ⟨hd, hdx, hdd⟩ := h.key x d hx'
      exact ⟨.inl hd, by rw [Function.update_of_ne hd.ne_next, hdx], hdd⟩
  · intro d hd hdd
    show p.channels[(Function.update s.conn s.nextConnId conn d).sockfd]? = some d
    rw [hch]
    rcases (hnew d).1 hd with hd | rfl
    · rw [Function.update_of_ne hd.ne_next,
        if_neg (hfresh d hd fun hr => hdd (h.released d hr))]
      exact h.registered d hd hdd
    · rw [Function.update_self, if_pos rfl]
  · intro d hl
    show (1 ≤ d ∧ d < s.nextConnId + 1) ∧ d ∉ s.destroyed ∧
      (Function.update s.conn s.nextConnId conn d).state = _
    rw [hnew]
    rcases hl with hl | rfl
    · obtain ⟨hd, hdd, hup⟩ := h.up d hl
      exact ⟨.inl hd, hdd, by rw [Function.update_of_ne hd.ne_next, hup]⟩
    · exact ⟨.inr rfl, hnd, by rw [Function.update_self, hstate]⟩
  · intro d hd hl
    show (Function.update s.conn s.nextConnId conn d).state = _
    rcases (hnew d).1 hd with hd | hd
    · rw [Function.update_of_ne hd.ne_next]
      exact h.down d hd fun hl' => hl (.inl hl')
    · exact absurd (.inr hd) hl
  · intro d
    rw [h.waiting d]
    show _ ↔ (1 ≤ d ∧ d < s.nextConnId + 1) ∧ _ ∧ d ∉ s.destroyed
    rw [hnew]
    constructor
    · rintro ⟨hd, hl, hdd⟩
      exact ⟨.inl hd, fun hl' => hl'.elim hl hd.ne_next, hdd⟩
    · rintro ⟨hd, hl, hdd⟩
      exact ⟨hd.resolve_right fun heq => hl (.inr heq), fun hl' => hl (.inl hl'), hdd⟩
  · exact h.queuedNodup
  · exact h.destroyedNodup
  · intro d hd
    exact (hnew d).2 (.inl (h.created d hd))
  · exact h.released

/-- The object goes once nobody owns it, which is after its `connectDestroyed`. -/
theorem release (h : Core s listed queued) (hc : s.Created c) (hl : ¬ listed c)
    (hq : c ∉ queued) : Core (s.release c) listed queued := by
  have hch : (s.release c).poller.channels = s.poller.channels := by
    unfold TcpServer.release Poller.closed
    cases s.poller <;> rfl
  have hfd : (s.release c).poller.channel = s.poller.channel := by
    unfold TcpServer.release Poller.closed
    cases s.poller <;> rfl
  have hcd : c ∈ s.destroyed := by
    by_contra hcd
    exact hq ((h.waiting c).2 ⟨hc, hl, hcd⟩)
  refine ⟨h.requests, ?_, ?_, ?_, h.up, h.down, h.waiting, h.queuedNodup, h.destroyedNodup,
    h.created, ?_⟩
  · rw [hfd]
    exact h.fd
  · rw [hch]
    exact h.key
  · rw [hch]
    exact h.registered
  · exact fun d hd => (List.mem_cons.1 hd).elim (fun heq => heq ▸ hcd) (h.released d)

end Core

/-! ## The server's map -/

/-- The entries of `connections_` are under the names of their connections. -/
structure Named (s : TcpServer) : Prop where
  pos : 1 ≤ s.nextConnId
  name : ∀ c, s.Created c → (s.conn c).name = s.connName c
  entry : ∀ nm c, s.connections[nm]? = some c → s.Created c ∧ (s.conn c).name = nm

/-- What `connectDestroyed` leaves as it is. -/
structure Frame (s s' : TcpServer) : Prop where
  hostport : s'.hostport = s.hostport
  name : s'.name = s.name
  nextConnId : s'.nextConnId = s.nextConnId
  connections : s'.connections = s.connections
  pendingFunctors : s'.pendingFunctors = s.pendingFunctors
  alive : s'.alive = s.alive
  connName : ∀ d, (s'.conn d).name = (s.conn d).name

theorem connectDestroyed_frame (hr : (s.conn c).requests = [])
    (h : s.connectDestroyed c = .ok s') : Frame s s' := by
  obtain ⟨p, conn, -, hname, -, -, -, rfl⟩ := connectDestroyed_ok hr h
  exact ⟨rfl, rfl, rfl, rfl, rfl, rfl, field_update TcpConnection.name hname⟩

theorem Frame.listed (h : Frame s s') (d : Nat) : s'.Listed d ↔ s.Listed d := by
  rw [Listed, Listed, h.connections, h.connName]

theorem Frame.named (h : Frame s s') (hn : Named s) : Named s' := by
  refine ⟨?_, fun c hc => ?_, fun nm c hc => ?_⟩
  · rw [h.nextConnId]
    exact hn.pos
  · rw [Created, h.nextConnId] at hc
    rw [h.connName, TcpServer.connName, h.name, h.hostport]
    exact hn.name c hc
  · rw [h.connections] at hc
    rw [Created, h.nextConnId, h.connName]
    exact hn.entry nm c hc

structure Owned (s : TcpServer) : Prop where
  core : Core s s.Listed s.pendingFunctors
  named : Named s
  dead : s.alive = false → ∀ c, ¬ s.Listed c

theorem Owned.init (usePoll : Bool) (listenAddr : SockaddrIn) (nameArg : Text) :
    Owned (TcpServer.make usePoll listenAddr nameArg) := by
  have hnone : ∀ c, ¬ (TcpServer.make usePoll listenAddr nameArg).Created c := by
    intro c hc
    have : 1 ≤ c ∧ c < 1 := hc
    omega
  have hch : ∀ x : Int, (TcpServer.make usePoll listenAddr nameArg).poller.channels[x]? = none := by
    intro x
    cases usePoll <;> exact Std.TreeMap.getElem?_emptyc
  have hl : ∀ c, ¬ (TcpServer.make usePoll listenAddr nameArg).Listed c := by
    intro c hc
    rw [Listed, TcpServer.make, Std.TreeMap.getElem?_emptyc] at hc
    cases hc
  refine ⟨⟨fun _ => rfl, fun c hc => absurd hc (hnone c), fun x c hx => ?_,
    fun c hc => absurd hc (hnone c), fun c hc => absurd hc (hl c), fun c hc => absurd hc (hnone c),
    fun c => ?_, List.nodup_nil, List.nodup_nil, fun c hc => absurd hc List.not_mem_nil,
    fun c hc => absurd hc List.not_mem_nil⟩,
    ⟨Nat.le_refl 1, fun c hc => absurd hc (hnone c), fun nm c hc => ?_⟩, nofun⟩
  · rw [hch] at hx
    cases hx
  · exact iff_of_false List.not_mem_nil fun hc => hnone c hc.1
  · rw [TcpServer.make, Std.TreeMap.getElem?_emptyc] at hc
    cases hc

namespace Owned

/-! ## Each operation -/

/-- The part of the invariant that speaks of the functors still to be called. -/
def Calling (rest : List Nat) (t : TcpServer) : Prop :=
  Core t t.Listed rest ∧ Named t ∧ t.pendingFunctors = [] ∧ (t.alive = false → ∀ c, ¬ t.Listed c)

theorem Calling.step {rest : List Nat} (h : Calling (c :: rest) s)
    (hs : s.connectDestroyed c = .ok s') : Calling rest s' := by
  obtain ⟨hcore, hn, hp, hdead⟩ := h
  obtain ⟨hc, hl, hcd⟩ := (hcore.waiting c).1 List.mem_cons_self
  have hf := connectDestroyed_frame (hcore.requests c) hs
  have hcore' := hcore.connectDestroyed hc hcd hs
  rw [List.erase_cons_head] at hcore'
  refine ⟨hcore'.congr fun d => ?_, hf.named hn, hf.pendingFunctors.trans hp, fun ha d hd => ?_⟩
  · rw [hf.listed]
    exact ⟨fun hd => hd.1, fun hd => ⟨hd, fun heq => hl (heq ▸ hd)⟩⟩
  · rw [hf.alive] at ha
    exact hdead ha d ((hf.listed d).1 hd)

theorem doPendingFunctors (h : Owned s) (hs : s.doPendingFunctors = .ok s') : Owned s' := by
  obtain ⟨hcore, hn, hdead⟩ := h
  have hstart : Calling s.pendingFunctors { s with pendingFunctors := [] } :=
    ⟨⟨hcore.requests, hcore.fd, hcore.key, hcore.registered, hcore.up, hcore.down, hcore.waiting,
      hcore.queuedNodup, hcore.destroyedNodup, hcore.created, hcore.released⟩,
      ⟨hn.pos, hn.name, hn.entry⟩, rfl, hdead⟩
  obtain ⟨hcore, hn, hp, hdead⟩ :=
    Except.foldlM_rest (I := Calling) (fun _ _ _ _ => Calling.step) hstart hs
  rw [← hp] at hcore
  exact ⟨hcore, hn, hdead⟩

/-- The connections that `~TcpServer` goes over. -/
theorem mem_values (h : Named s) (c : Nat) :
    c ∈ s.connections.toList.map Prod.snd ↔ s.Listed c := by
  rw [List.mem_map]
  constructor
  · rintro ⟨⟨nm, d⟩, hm, rfl⟩
    have hget := Std.TreeMap.mem_toList_iff_getElem?_eq_some.1 hm
    rw [Listed, (h.entry nm d hget).2]
    exact hget
  · intro hl
    exact ⟨((s.conn c).name, c), Std.TreeMap.mem_toList_iff_getElem?_eq_some.2 hl, rfl⟩

theorem nodup_values (h : Named s) : (s.connections.toList.map Prod.snd).Nodup := by
  rw [List.Nodup, List.pairwise_map]
  refine (Std.TreeMap.distinct_keys_toList (t := s.connections)).imp_of_mem ?_
  rintro ⟨nm, c⟩ ⟨nm', c'⟩ hm hm' hne heq
  have hget := Std.TreeMap.mem_toList_iff_getElem?_eq_some.1 hm
  have hget' := Std.TreeMap.mem_toList_iff_getElem?_eq_some.1 hm'
  simp only at heq
  subst heq
  apply hne
  rw [Std.LawfulEqCmp.compare_eq_iff_eq]
  exact (h.entry nm c hget).2.symm.trans (h.entry nm' c hget').2

/-- The part of the invariant that speaks of the connections still to be destroyed. -/
def Destructing (rest : List Nat) (t : TcpServer) : Prop :=
  Core t (· ∈ rest) t.pendingFunctors ∧ Named t ∧ rest.Nodup

theorem Destructing.step {rest : List Nat} (h : Destructing (c :: rest) s)
    (hs : s.connectDestroyed c = .ok s') : Destructing rest s' := by
  obtain ⟨hcore, hn, hnd⟩ := h
  obtain ⟨hc, hcd, -⟩ := hcore.up c List.mem_cons_self
  have hf := connectDestroyed_frame (hcore.requests c) hs
  have hcore' := hcore.connectDestroyed hc hcd hs
  have hq : c ∉ s.pendingFunctors := fun hq => ((hcore.waiting c).1 hq).2.1 List.mem_cons_self
  rw [List.erase_of_not_mem hq, ← hf.pendingFunctors] at hcore'
  obtain ⟨hnc, hnd⟩ := List.nodup_cons.1 hnd
  refine ⟨hcore'.congr fun d => ?_, hf.named hn, hnd⟩
  rw [List.mem_cons]
  exact ⟨fun hd => hd.1.resolve_left hd.2, fun hd => ⟨.inr hd, fun heq => hnc (heq ▸ hd)⟩⟩

theorem destruct (h : Owned s) (hs : s.destruct = .ok s') : Owned s' := by
  obtain ⟨t, ht, hs⟩ := Except.bind_ok hs
  cases hs
  have hstart : Destructing (s.connections.toList.map Prod.snd) s :=
    ⟨h.core.congr fun d => (mem_values h.named d).symm, h.named, nodup_values h.named⟩
  obtain ⟨hcore, hn, -⟩ :=
    Except.foldlM_rest (I := Destructing) (fun _ _ _ _ => Destructing.step) hstart ht
  have hl : ∀ d, ¬ TcpServer.Listed { t with connections := ∅, alive := false } d := by
    intro d hd
    rw [Listed, Std.TreeMap.getElem?_emptyc] at hd
    cases hd
  have hcore' : Core { t with connections := ∅, alive := false } (· ∈ ([] : List Nat))
      t.pendingFunctors :=
    ⟨hcore.requests, hcore.fd, hcore.key, hcore.registered, hcore.up, hcore.down, hcore.waiting,
      hcore.queuedNodup, hcore.destroyedNodup, hcore.created, hcore.released⟩
  refine ⟨hcore'.congr fun d => ?_, ⟨hn.pos, hn.name, fun nm c hc => ?_⟩, fun _ => hl⟩
  · exact iff_of_false List.not_mem_nil (hl d)
  · rw [Std.TreeMap.getElem?_emptyc] at hc
    cases hc

/-- What a report does to the server. -/
inductive Handled (s : TcpServer) (c : Nat) : TcpServer → Prop where
  | same : Handled s c s
  | closed {p : Poller Nat} {conn : TcpConnection} : s.poller.Sets c (some c) p →
      conn.name = (s.conn c).name → conn.sockfd = (s.conn c).sockfd → conn.requests = [] →
      (s.conn c).state ≠ .kDisconnected → conn.state = .kDisconnected →
      Handled s c { s with
        poller := p, conn := Function.update s.conn c conn
        connections := s.connections.erase (s.conn c).name
        pendingFunctors := s.pendingFunctors ++ [c] }

theorem handleEvent_handled {revents : BitVec 32} {n : Int} (hr : (s.conn c).requests = [])
    (h : s.handleEvent c revents n = .ok s') : Handled s c s' := by
  unfold TcpServer.handleEvent call at h
  split at h
  · cases h
  · split at h
    · next conn hconn =>
      rw [finish_eq] at h
      cases TcpConnection.callbacks_outcome hconn with
      | same hname hfd hstate hpast hwork =>
        have hw : conn.work = [] := by rw [hwork, TcpConnection.work, hr, List.filter_nil]
        have hconn' : { conn with requests := [] } = s.conn c := by
          show TcpConnection.mk conn.name conn.sockfd conn.state conn.past [] = s.conn c
          rw [hname, hfd, hstate, hpast, ← hr]
        rw [hw, hconn', Function.update_eq_self] at h
        cases h
        exact .same
      | closed hname hfd hbefore hstate hwork =>
        have hw : conn.work = [.update .disableAll, .closeCallback] := by
          rw [hwork, TcpConnection.work, hr, List.filter_nil, List.nil_append]
        rw [hw, List.foldlM_cons] at h
        obtain ⟨s₁, h₁, h⟩ := Except.bind_ok h
        rw [List.foldlM_cons] at h
        obtain ⟨s₂, h₂, h⟩ := Except.bind_ok h
        cases h
        obtain ⟨p, hp, rfl⟩ := perform_update h₁
        have hnm : (Function.update s.conn c { conn with requests := [] } c).name =
            (s.conn c).name := by
          rw [Function.update_self]
          exact hname
        rw [removeConnection_ok h₂]
        simp only [hnm]
        exact @Handled.closed s c p { conn with requests := [] } hp hname hfd rfl hbefore hstate
    · cases h

/-- A connection that a report can still close is in the map. -/
theorem listed_of_open (h : Owned s) (hc : s.Created c)
    (hopen : (s.conn c).state ≠ .kDisconnected) : s.Listed c := by
  by_contra hl
  exact hopen (h.core.down c hc hl)

/-- Erasing a name takes its connection out of the map and no other. -/
theorem getElem?_erase_listed (h : Named s) (hl : s.Listed c) (nm : Text) (d : Nat) :
    (s.connections.erase (s.conn c).name)[nm]? = some d ↔ s.connections[nm]? = some d ∧ d ≠ c := by
  rw [getElem?_erase_key]
  split
  · next hnm =>
    rw [hnm, hl]
    simp [eq_comm]
  · next hnm =>
    refine ⟨fun hd => ⟨hd, fun heq => ?_⟩, fun hd => hd.1⟩
    subst heq
    exact hnm (h.entry nm d hd).2.symm

theorem handleEvent {revents : BitVec 32} {n : Int} (h : Owned s)
    (he : s.poller.hasChannel c = true) (hs : s.handleEvent c revents n = .ok s') : Owned s' := by
  obtain ⟨hc, hcfd, hcd⟩ := h.core.key _ c (of_decide_eq_true he)
  cases handleEvent_handled (h.core.requests c) hs with
  | same => exact h
  | @closed p conn hp hname hfd hreq hbefore hstate =>
    have hl := h.listed_of_open hc hbefore
    have hnames := field_update TcpConnection.name hname
    have herase := getElem?_erase_listed h.named hl
    refine ⟨(h.core.close hc hcd hl hp hfd hreq hstate).congr fun d => ?_,
      ⟨h.named.pos, ?_, ?_⟩, ?_⟩
    · show _ ↔ (s.connections.erase (s.conn c).name)[
        (Function.update s.conn c conn d).name]? = some d
      rw [hnames, herase]
      rfl
    · intro d hd
      show (Function.update s.conn c conn d).name = _
      rw [hnames]
      exact h.named.name d hd
    · intro nm d hd
      show s.Created d ∧ (Function.update s.conn c conn d).name = nm
      rw [hnames]
      exact h.named.entry nm d ((herase nm d).1 hd).1
    · intro ha
      exact absurd hl (h.dead ha c)

theorem newConnection_ok {sockfd : Int} (h : s.newConnection sockfd = .ok s') :
    ∃ p conn, (s.poller.construct s.nextConnId sockfd).Sets s.nextConnId (some s.nextConnId) p ∧
      conn.name = s.connName s.nextConnId ∧ conn.sockfd = sockfd ∧ conn.requests = [] ∧
      conn.state = .kConnected ∧
      s' = { s with
        nextConnId := s.nextConnId + 1
        connections := s.connections.insert (s.connName s.nextConnId) s.nextConnId
        poller := p
        conn := Function.update s.conn s.nextConnId conn } := by
  unfold TcpServer.newConnection call at h
  simp only [TcpConnection.connectEstablished, TcpConnection.make, if_true] at h
  rw [finish_eq, TcpConnection.work_callBack, TcpConnection.work_request] at h
  obtain ⟨t, ht, h⟩ := Except.bind_ok h
  cases h
  obtain ⟨p, hp, rfl⟩ := perform_update ht
  refine ⟨p, ⟨s.connName s.nextConnId, sockfd, .kConnected, [.kConnecting], []⟩, hp, rfl, rfl, rfl,
    rfl, ?_⟩
  simp only [Function.update_idem]
  rfl

theorem construct_fd (p : Poller Nat) (c d : Nat) (fd : Int) :
    ((p.construct c fd).channel d).fd = if d = c then fd else (p.channel d).fd := by
  cases p with
  | poll q =>
    show (Function.update q.channel c (.make fd) d).fd = _
    rw [Function.update_apply]
    split <;> rfl
  | ePoll q =>
    show (Function.update q.channel c (.make fd) d).fd = _
    rw [Function.update_apply]
    split <;> rfl

theorem construct_channels (p : Poller Nat) (c : Nat) (fd : Int) :
    (p.construct c fd).channels = p.channels := by
  cases p <;> rfl

/-- A new name adds its connection to the map and takes out no other. -/
theorem getElem?_insert_new (h : Named s)
    (hnm : ∀ d, s.Created d → s.connName d ≠ s.connName s.nextConnId) (nm : Text) (d : Nat) :
    (s.connections.insert (s.connName s.nextConnId) s.nextConnId)[nm]? = some d ↔
      s.connections[nm]? = some d ∨ (nm = s.connName s.nextConnId ∧ d = s.nextConnId) := by
  rw [getElem?_insert_key]
  split
  · next heq =>
    refine ⟨fun hn => .inr ⟨heq, (Option.some.inj hn).symm⟩, fun hn => ?_⟩
    rcases hn with hn | ⟨-, rfl⟩
    · obtain ⟨hc, hcn⟩ := h.entry nm d hn
      exact absurd (((h.name d hc).symm.trans hcn).trans heq) (hnm d hc)
    · rfl
  · next hne =>
    exact ⟨.inl, fun hn => hn.resolve_right fun hn => hne hn.1⟩

theorem newConnection {sockfd : Int} (h : Owned s) (he : enabled s (.newConnection sockfd) = true)
    (hs : s.newConnection sockfd = .ok s') (hd : NamesDistinct s') : Owned s' := by
  obtain ⟨p, conn, hp, hname, hfd, hreq, hstate, rfl⟩ := newConnection_ok hs
  simp only [enabled, Bool.and_eq_true, List.all_eq_true, List.mem_range, decide_eq_true_eq] at he
  obtain ⟨⟨halive, -⟩, hfresh⟩ := he
  have hpos := h.named.pos
  have hnew := fun d => created_succ (d := d) hpos
  have hnm : ∀ d, s.Created d → s.connName d ≠ s.connName s.nextConnId := by
    intro d hc heq
    exact hc.ne_next (hd d _ ((hnew d).2 (.inl hc)) ((hnew _).2 (.inr rfl)) heq)
  have hget := getElem?_insert_new h.named hnm
  refine ⟨(h.core.create p conn ?_ ?_ ?_ hreq hstate hpos).congr fun d => ?_,
    ⟨?_, ?_, ?_⟩, ?_⟩
  · intro d hc hr
    rw [hfd]
    exact (hfresh d hc.2 hc).resolve_left hr
  · intro d
    rw [hp.fd, construct_fd, hfd]
  · intro x
    rw [hp.channels, construct_fd, if_pos rfl, construct_channels, hfd]
  · show _ ↔ (s.connections.insert (s.connName s.nextConnId) s.nextConnId)[
      (Function.update s.conn s.nextConnId conn d).name]? = some d
    rw [hget, Function.update_apply]
    split
    · next heq =>
      rw [heq, hname]
      simp
    · next hne =>
      constructor
      · exact fun hl => .inl (hl.resolve_right hne)
      · exact fun hl => .inl (hl.resolve_right fun hl => hne hl.2)
  · exact Nat.le_succ_of_le hpos
  · intro d hc
    show (Function.update s.conn s.nextConnId conn d).name = s.connName d
    rcases (hnew d).1 hc with hc | rfl
    · rw [Function.update_of_ne hc.ne_next]
      exact h.named.name d hc
    · rw [Function.update_self, hname]
  · intro nm d hn
    show (1 ≤ d ∧ d < s.nextConnId + 1) ∧ (Function.update s.conn s.nextConnId conn d).name = nm
    rw [hnew]
    rcases (hget nm d).1 hn with hn | ⟨rfl, rfl⟩
    · obtain ⟨hc, hcn⟩ := h.named.entry nm d hn
      exact ⟨.inl hc, by rw [Function.update_of_ne hc.ne_next, hcn]⟩
    · exact ⟨.inr rfl, by rw [Function.update_self, hname]⟩
  · intro ha
    rw [halive] at ha
    cases ha

theorem release (h : Owned s) (he : enabled s (.release c) = true) : Owned (s.release c) := by
  simp only [enabled, Bool.and_eq_true, decide_eq_true_eq] at he
  obtain ⟨⟨⟨hc, -⟩, hl⟩, hq⟩ := he
  exact ⟨h.core.release hc hl hq, ⟨h.named.pos, h.named.name, h.named.entry⟩, h.dead⟩

end Owned

/-! ## Runs -/

def Action.isNewConnection : Action → Bool
  | .newConnection _ => true
  | _ => false

/-- What the names are made of, where `n` connections are created. -/
structure NameParts (n : Nat) (s s' : TcpServer) : Prop where
  hostport : s'.hostport = s.hostport
  name : s'.name = s.name
  nextConnId : s'.nextConnId = s.nextConnId + n

namespace NameParts

variable {s₁ : TcpServer} {m n : Nat}

theorem trans (h : NameParts m s s₁) (h' : NameParts n s₁ s') : NameParts (m + n) s s' := by
  refine ⟨h'.hostport.trans h.hostport, h'.name.trans h.name, ?_⟩
  rw [h'.nextConnId, h.nextConnId, Nat.add_assoc]

theorem namesDistinct (h : NameParts n s s') (hd : NamesDistinct s') : NamesDistinct s := by
  have hle : s.nextConnId ≤ s'.nextConnId := Nat.le.intro h.nextConnId.symm
  intro c d hc hd' heq
  refine hd c d ⟨hc.1, hc.2.trans_le hle⟩ ⟨hd'.1, hd'.2.trans_le hle⟩ ?_
  rw [connName, connName, h.hostport, h.name]
  exact heq

theorem perform {r : Request} (h : perform c s r = .ok s') : NameParts 0 s s' := by
  cases r with
  | update op =>
    obtain ⟨p, -, rfl⟩ := perform_update h
    exact ⟨rfl, rfl, rfl⟩
  | remove =>
    obtain ⟨p, -, rfl⟩ := perform_remove h
    exact ⟨rfl, rfl, rfl⟩
  | connectionCallback b =>
    cases h
    exact ⟨rfl, rfl, rfl⟩
  | messageCallback n =>
    cases h
    exact ⟨rfl, rfl, rfl⟩
  | closeCallback =>
    rw [removeConnection_ok h]
    exact ⟨rfl, rfl, rfl⟩

theorem foldlM {α : Type} {f : TcpServer → α → Except Fault TcpServer}
    (hf : ∀ {a t t'}, f t a = .ok t' → NameParts 0 t t') {l : List α} (h : l.foldlM f s = .ok s') :
    NameParts 0 s s' :=
  Except.foldlM_rest (I := fun _ t => NameParts 0 s t) (fun _ _ _ _ ht h => ht.trans (hf h))
    ⟨rfl, rfl, rfl⟩ h

theorem finish {conn : TcpConnection} (h : s.finish c conn = .ok s') : NameParts 0 s s' := by
  obtain ⟨hh, hn, hi⟩ := foldlM perform h
  exact ⟨hh, hn, hi⟩

theorem connectDestroyed (h : s.connectDestroyed c = .ok s') : NameParts 0 s s' := by
  unfold TcpServer.connectDestroyed at h
  split at h
  · cases h
  · obtain ⟨hh, hn, hi⟩ := finish h
    exact ⟨hh, hn, hi⟩

theorem step {a : Action} (h : machine.step s a = .ok s') :
    NameParts ([a].countP Action.isNewConnection) s s' := by
  cases a with
  | newConnection sockfd =>
    obtain ⟨p, conn, -, -, -, -, -, rfl⟩ := Owned.newConnection_ok h
    exact ⟨rfl, rfl, rfl⟩
  | handleEvent c revents n =>
    change s.handleEvent c revents n = .ok s' at h
    unfold TcpServer.handleEvent call at h
    split at h
    · cases h
    · split at h
      · exact finish h
      · cases h
  | doPendingFunctors =>
    obtain ⟨hh, hn, hi⟩ := foldlM connectDestroyed h
    exact ⟨hh, hn, hi⟩
  | destruct =>
    obtain ⟨t, ht, h⟩ := Except.bind_ok h
    cases h
    obtain ⟨hh, hn, hi⟩ := foldlM connectDestroyed ht
    exact ⟨hh, hn, hi⟩
  | release c =>
    cases h
    exact ⟨rfl, rfl, rfl⟩

theorem run {as : List Action} (h : machine.run s as = some s') :
    NameParts (as.countP Action.isNewConnection) s s' := by
  induction as generalizing s with
  | nil =>
    cases h
    exact ⟨rfl, rfl, rfl⟩
  | cons a as ih =>
    obtain ⟨-, t, ht, h⟩ := (machine.run_cons_iff _ _ _ _).1 h
    rw [← List.singleton_append, List.countP_append]
    exact (step ht).trans (ih h)

end NameParts

theorem Owned.step {a : Action} (h : Owned s) (he : machine.enabled s a = true)
    (hs : machine.step s a = .ok s') (hd : NamesDistinct s') : Owned s' := by
  cases a with
  | newConnection sockfd => exact h.newConnection he hs hd
  | handleEvent c revents n => exact h.handleEvent he hs
  | doPendingFunctors => exact h.doPendingFunctors hs
  | destruct => exact h.destruct hs
  | release c =>
    cases hs
    exact h.release he

theorem keeps_owned : machine.Keeps (fun _ _ _ => True) fun s => NamesDistinct s → Owned s :=
  fun _ _ _ h _ he hs hd => (h ((NameParts.step hs).namesDistinct hd)).step he hs hd

/-- The life of the connections that the server has created. -/
structure Lifecycle (s : TcpServer) : Prop where
  listed : s.alive = true → ∀ c, s.Created c → (s.Listed c ↔ (s.conn c).state = .kConnected)
  /-- a channel in the poller is alive, and owned by the map or by one functor -/
  owner : ∀ c, s.poller.hasChannel c = true → c ∉ s.released ∧
    ((s.Listed c ∧ s.pendingFunctors.count c = 0) ∨
      (¬ s.Listed c ∧ s.pendingFunctors.count c = 1))
  fds : ∀ c d, s.poller.hasChannel c = true → s.poller.hasChannel d = true →
    (s.conn c).sockfd = (s.conn d).sockfd → c = d
  once : ∀ c, s.destroyed.count c ≤ 1
  all : s.alive = false → s.pendingFunctors = [] → ∀ c, s.Created c → s.destroyed.count c = 1
  registered : ∀ c, s.Created c → (s.poller.hasChannel c = true ↔ c ∉ s.destroyed)
  closed : ∀ c ∈ s.released, c ∈ s.destroyed

theorem Owned.hasChannel_iff (h : Owned s) :
    s.poller.hasChannel c = true ↔ s.Created c ∧ c ∉ s.destroyed := by
  rw [Poller.hasChannel, decide_eq_true_eq]
  constructor
  · intro hc
    obtain ⟨hcr, -, hcd⟩ := h.core.key _ c hc
    exact ⟨hcr, hcd⟩
  · rintro ⟨hcr, hcd⟩
    rw [h.core.fd c hcr]
    exact h.core.registered c hcr hcd

theorem Owned.lifecycle (h : Owned s) : Lifecycle s where
  listed _ c hc := by
    constructor
    · exact fun hl => (h.core.up c hl).2.2
    · intro hup
      by_contra hl
      rw [h.core.down c hc hl] at hup
      cases hup
  owner c hc := by
    obtain ⟨hcr, hcd⟩ := h.hasChannel_iff.1 hc
    refine ⟨fun hr => hcd (h.core.released c hr), ?_⟩
    by_cases hl : s.Listed c
    · exact .inl ⟨hl, List.count_eq_zero.2 fun hq => ((h.core.waiting c).1 hq).2.1 hl⟩
    · refine .inr ⟨hl, List.count_eq_one_of_mem h.core.queuedNodup ?_⟩
      exact (h.core.waiting c).2 ⟨hcr, hl, hcd⟩
  fds c d hc hd heq := by
    obtain ⟨hc, hcd⟩ := h.hasChannel_iff.1 hc
    obtain ⟨hd, hdd⟩ := h.hasChannel_iff.1 hd
    by_contra hne
    exact h.core.fd_ne hd hdd hc hcd hne heq
  once c := List.nodup_iff_count_le_one.1 h.core.destroyedNodup c
  all ha hp c hc := by
    refine List.count_eq_one_of_mem h.core.destroyedNodup ?_
    by_contra hcd
    have hq := (h.core.waiting c).2 ⟨hc, h.dead ha c, hcd⟩
    rw [hp] at hq
    cases hq
  registered c hc := by
    rw [h.hasChannel_iff]
    exact and_iff_right hc
  closed := h.core.released

/-- **Connections are owned until they are unregistered**, in every state of every run in which
no assert fails and the connection names are distinct. -/
theorem tcpServer_lifecycle (usePoll : Bool) (listenAddr : SockaddrIn) (nameArg : Text)
    (as : List Action) (s : TcpServer)
    (hr : machine.run (make usePoll listenAddr nameArg) as = some s) (hd : NamesDistinct s) :
    Lifecycle s :=
  (keeps_owned.run_all (fun _ => Owned.init usePoll listenAddr nameArg) hr hd).lifecycle

/-- The peer closes connection 1, its descriptor is used again, and the server goes. -/
def closeAndReuse : List Action :=
  [.newConnection 7, .handleEvent 1 POLLIN 3, .handleEvent 1 POLLIN 0, .doPendingFunctors,
    .release 1, .newConnection 7, .newConnection 8, .handleEvent 3 POLLHUP 0, .destruct,
    .release 2, .doPendingFunctors]

theorem closeAndReuse_lifecycle :
    ∃ s, machine.run (make false ⟨(127, 0, 0, 1), (1, 2)⟩ ['s']) closeAndReuse = some s ∧
      s.destroyed = [1, 2, 3] ∧ s.released = [2, 1] ∧ Lifecycle s := by
  have hend : (machine.run (make false ⟨(127, 0, 0, 1), (1, 2)⟩ ['s']) closeAndReuse).map
      (fun s => (s.destroyed, s.released, s.nextConnId)) = some ([1, 2, 3], [2, 1], 4) :=
    rfl
  obtain ⟨s, hs, hend⟩ := Option.map_eq_some_iff.1 hend
  simp only [Prod.mk.injEq] at hend
  obtain ⟨hdestroyed, hreleased, hid⟩ := hend
  have hlen : s.hostport.length = 13 := by
    rw [(NameParts.run hs).hostport]
    rfl
  refine ⟨s, hs, hdestroyed, hreleased, tcpServer_lifecycle _ _ _ closeAndReuse s hs ?_⟩
  rw [namesDistinct_iff (by omega), hid, room, hlen]
  decide

/-! ## The map under the connection names -/

/-- A new connection takes no other's place in `connections_`, and a report takes out exactly the
connection that it closes. -/
def Exact (s : TcpServer) (a : Action) (s' : TcpServer) : Prop :=
  match a with
  | .newConnection _ => s.connections[s.connName s.nextConnId]? = none
  | .handleEvent c _ _ =>
    ∀ d, s'.Listed d ↔ s.Listed d ∧ ¬ (d = c ∧ (s'.conn c).state = .kDisconnected)
  | _ => True

theorem Owned.exact {a : Action} (h : Owned s) (he : machine.enabled s a = true)
    (hs : machine.step s a = .ok s') (hd : NamesDistinct s') : Exact s a s' := by
  cases a with
  | newConnection sockfd =>
    obtain ⟨p, conn, -, -, -, -, -, rfl⟩ := Owned.newConnection_ok hs
    have hpos := h.named.pos
    cases hget : s.connections[s.connName s.nextConnId]? with
    | none => exact hget
    | some d =>
      obtain ⟨⟨hd1, hd2⟩, hcn⟩ := h.named.entry _ d hget
      have heq := hd d s.nextConnId ⟨hd1, Nat.lt_succ_of_lt hd2⟩ ⟨hpos, Nat.lt_succ_self _⟩
        ((h.named.name d ⟨hd1, hd2⟩).symm.trans hcn)
      omega
  | handleEvent c revents n =>
    intro d
    obtain ⟨hc, -, -⟩ := h.core.key _ c (of_decide_eq_true he)
    cases Owned.handleEvent_handled (h.core.requests c) hs with
    | same =>
      refine ⟨fun hl => ⟨hl, ?_⟩, fun hl => hl.1⟩
      rintro ⟨rfl, hdown⟩
      rw [(h.core.up d hl).2.2] at hdown
      cases hdown
    | @closed p conn hp hname hfd hreq hbefore hstate =>
      have hl := h.listed_of_open hc hbefore
      show (s.connections.erase (s.conn c).name)[(Function.update s.conn c conn d).name]? = some d ↔
        _ ∧ ¬ (d = c ∧ (Function.update s.conn c conn c).state = .kDisconnected)
      rw [field_update TcpConnection.name hname, Owned.getElem?_erase_listed h.named hl,
        Function.update_self]
      simp only [hstate, and_true]
      rfl
  | doPendingFunctors => trivial
  | destruct => trivial
  | release c => trivial

theorem stepsMeet_exact {as : List Action} (h : NamesDistinct s → Owned s)
    (hr : machine.run s as = some s') (hd : NamesDistinct s') :
    machine.StepsMeet Exact s as := by
  induction as generalizing s with
  | nil => trivial
  | cons a as ih =>
    obtain ⟨he, t, ht, hr⟩ := (machine.run_cons_iff _ _ _ _).1 hr
    have hdt := (NameParts.run hr).namesDistinct hd
    have ho := h ((NameParts.step ht).namesDistinct hdt)
    rw [Machine.stepsMeet_cons_iff ht]
    exact ⟨ho.exact he ht hdt, ih (fun _ => ho.step he ht hdt) hr⟩

/-- **Connection names are distinct, and `connections_` loses no connection to another one's name,
iff the number of connections has at most as many digits as the buffer of `newConnection` leaves
for it.** -/
theorem connNames_distinct_iff (usePoll : Bool) (listenAddr : SockaddrIn) (nameArg : Text)
    (as : List Action) (s : TcpServer)
    (hr : machine.run (make usePoll listenAddr nameArg) as = some s) :
    (NamesDistinct s ∧ machine.StepsMeet Exact (make usePoll listenAddr nameArg) as) ↔
      s.nextConnId - 1 < 10 ^ (29 - (InetAddress.toIpPort listenAddr).length) := by
  have hlen := (length_toIpPort listenAddr).2
  have hhost : s.hostport = InetAddress.toIpPort listenAddr := (NameParts.run hr).hostport
  have hiff : NamesDistinct s ↔
      s.nextConnId - 1 < 10 ^ (29 - (InetAddress.toIpPort listenAddr).length) := by
    rw [namesDistinct_iff (by rw [hhost]; exact hlen), room, hhost]
  rw [← hiff]
  constructor
  · exact fun h => h.1
  · exact fun hd =>
      ⟨hd, stepsMeet_exact (fun _ => Owned.init usePoll listenAddr nameArg) hr hd⟩

theorem closeAndReuse_names_distinct :
    ∃ s, machine.run (make false ⟨(127, 0, 0, 1), (1, 2)⟩ ['s']) closeAndReuse = some s ∧
      NamesDistinct s := by
  have hend : (machine.run (make false ⟨(127, 0, 0, 1), (1, 2)⟩ ['s']) closeAndReuse).map
      (fun s => s.nextConnId) = some 4 :=
    rfl
  obtain ⟨s, hs, hid⟩ := Option.map_eq_some_iff.1 hend
  refine ⟨s, hs, ((connNames_distinct_iff _ _ _ closeAndReuse s hs).2 ?_).1⟩
  rw [hid]
  decide

/-- The last digit of 100000000 is cut off. -/
theorem connName_of_cut_number :
    10 ^ 8 < 2 ^ 31 - 1 ∧
      ¬ ∀ c d, 1 ≤ c → c ≤ 10 ^ 8 → 1 ≤ d → d ≤ 10 ^ 8 →
        (make false ⟨(255, 255, 255, 255), (255, 255)⟩ ['s']).connName c =
          (make false ⟨(255, 255, 255, 255), (255, 255)⟩ ['s']).connName d → c = d := by
  refine ⟨by decide, fun h => ?_⟩
  have heq := h (10 ^ 7) (10 ^ 8) (by decide) (by decide) (by decide) (by decide) (by decide)
  exact absurd heq (by decide)

end TcpServer

end Rawmd
