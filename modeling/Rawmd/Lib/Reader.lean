import Mathlib.Data.List.Basic

/-!
# Readers

A reader consumes a list, changes a record `δ` on the way and may fail; what it has consumed and
changed by then stays so.

`Reads m input d a d'`: on an input that starts with `input` the reader `m` consumes just that,
returns `a` and takes the record from `d` to `d'`.

    Reads m x d a e → Reads (f a) y e b d' → Reads (m >>= f) (x ++ y) d b d'     (Reads.bind)
    a loop reads the pieces of its rounds one after the other                    (Reads.loop)
    what succeeds has found all it consumed                      (bind_ok, take_ok, loop_ok)
    a loop of readers of `k` elements reads `k * n` or fails as one of them does (Consumes.loop)
-/

def Reader (β δ ε α : Type) : Type := List β → δ → Except ε α × List β × δ

namespace Reader

variable {β δ ε α γ : Type}

instance : Monad (Reader β δ ε) where
  pure a input d := (.ok a, input, d)
  bind m f input d :=
    match m input d with
    | (.ok a, input, d) => f a input d
    | (.error e, input, d) => (.error e, input, d)

def fail (e : ε) : Reader β δ ε α := fun input d => (.error e, input, d)

def get : Reader β δ ε δ := fun input d => (.ok d, input, d)

def modify (f : δ → δ) : Reader β δ ε Unit := fun input d => (.ok (), input, f d)

/-- The next `n` elements; if there are fewer, they are consumed and `e` is the error. -/
def take (n : Nat) (e : ε) : Reader β δ ε (List β) := fun input d =>
  if n ≤ input.length then (.ok (input.take n), input.drop n, d) else (.error e, [], d)

/-- `n` rounds with the indices from `i` on, and their results. -/
def loopFrom (body : Nat → Reader β δ ε α) : Nat → Nat → Reader β δ ε (List α)
  | _, 0 => pure []
  | i, n + 1 => do
    let a ← body i
    let results ← loopFrom body (i + 1) n
    return a :: results

/-- `for (int i = 0; i < n; ++i)`: no round if `n` is negative. -/
def loop (n : Int) (body : Nat → Reader β δ ε α) : Reader β δ ε (List α) :=
  loopFrom body 0 n.toNat

def Reads (m : Reader β δ ε α) (input : List β) (d : δ) (a : α) (d' : δ) : Prop :=
  ∀ rest, m (input ++ rest) d = (.ok a, rest, d')

variable {m : Reader β δ ε α} {x y : List β} {d d' e : δ} {a : α}

theorem Reads.pure (a : α) (d : δ) : Reads (Pure.pure a : Reader β δ ε α) [] d a d := fun _ => rfl

theorem Reads.modify (f : δ → δ) (d : δ) : Reads (modify f : Reader β δ ε Unit) [] d () (f d) :=
  fun _ => rfl

theorem Reads.get (d : δ) : Reads (get : Reader β δ ε δ) [] d d d := fun _ => rfl

theorem Reads.bind {f : α → Reader β δ ε γ} {b : γ} (hm : Reads m x d a e)
    (hf : Reads (f a) y e b d') : Reads (m >>= f) (x ++ y) d b d' := by
  intro rest
  show (match m (x ++ y ++ rest) d with
    | (.ok a, input, d) => f a input d
    | (.error e, input, d) => (.error e, input, d)) = _
  rw [List.append_assoc, hm]
  exact hf rest

/-- A last step that reads nothing. -/
theorem Reads.map {f : α → Reader β δ ε γ} {b : γ} (hm : Reads m x d a e)
    (hf : Reads (f a) [] e b d') : Reads (m >>= f) x d b d' := by
  have h := hm.bind hf
  rwa [List.append_nil] at h

theorem Reads.take {n : Nat} (h : x.length = n) (err : ε) (d : δ) :
    Reads (take n err) x d x d := by
  intro rest
  subst h
  simp [Reader.take]

/-- Round `k` reads the piece of the `k`-th element and updates the record with it, where the
record meets `I`. -/
theorem Reads.loopFrom {τ : Type} {body : Nat → Reader β δ ε α} {piece : τ → List β} {val : τ → α}
    {upd : δ → τ → δ} {I : δ → Prop} {xs : List τ} {i : Nat} (hI : ∀ d t, I d → I (upd d t))
    (h : ∀ k t, xs[k]? = some t → ∀ d, I d →
      Reads (body (i + k)) (piece t) d (val t) (upd d t)) {d : δ} (hd : I d) :
    Reads (loopFrom body i xs.length) (xs.flatMap piece) d (xs.map val) (xs.foldl upd d) := by
  induction xs generalizing i d with
  | nil => exact .pure [] d
  | cons t xs ih =>
    have hbody := h 0 t rfl d hd
    have hrest : Reads (Reader.loopFrom body (i + 1) xs.length) (xs.flatMap piece) (upd d t)
        (xs.map val) (xs.foldl upd (upd d t)) := by
      refine ih (fun k u hu d hd => ?_) (hI d t hd)
      rw [Nat.add_right_comm]
      exact h (k + 1) u hu d hd
    exact hbody.bind (hrest.map (.pure _ _))

theorem Reads.loop {τ : Type} {body : Nat → Reader β δ ε α} {piece : τ → List β} {val : τ → α}
    {upd : δ → τ → δ} {I : δ → Prop} {xs : List τ} {n : Int} (hn : n = xs.length)
    (hI : ∀ d t, I d → I (upd d t))
    (h : ∀ k t, xs[k]? = some t → ∀ d, I d → Reads (body k) (piece t) d (val t) (upd d t))
    {d : δ} (hd : I d) :
    Reads (loop n body) (xs.flatMap piece) d (xs.map val) (xs.foldl upd d) := by
  subst hn
  rw [Reader.loop, Int.toNat_natCast]
  refine Reads.loopFrom hI (fun k t ht d hd => ?_) hd
  rw [Nat.zero_add]
  exact h k t ht d hd

/-- A loop that leaves the record as it is. -/
theorem Reads.loop_same {τ : Type} {body : Nat → Reader β δ ε α} {piece : τ → List β} {val : τ → α}
    {xs : List τ} {n : Int} (hn : n = xs.length) {d : δ}
    (h : ∀ k t, xs[k]? = some t → Reads (body k) (piece t) d (val t) d) :
    Reads (Reader.loop n body) (xs.flatMap piece) d (xs.map val) d := by
  have hloop : Reads (Reader.loop n body) (xs.flatMap piece) d (xs.map val)
      (xs.foldl (fun d _ => d) d) := by
    refine Reads.loop (I := (· = d)) hn (fun _ _ h => h) ?_ rfl
    rintro k t ht _ rfl
    exact h k t ht
  rwa [List.foldl_fixed] at hloop

/-- A loop without effect, for any number of rounds. -/
theorem Reads.loop_pure (n : Int) (a : α) (d : δ) :
    Reads (Reader.loop n fun _ => (Pure.pure a : Reader β δ ε α)) [] d
      (List.replicate n.toNat a) d := by
  rw [Reader.loop]
  generalize 0 = i
  induction n.toNat generalizing i with
  | zero => exact .pure [] d
  | succ k ih => exact Reads.bind (.pure a d) ((ih (i + 1)).map (.pure _ _))

/-! ## What a reader that succeeds has consumed -/

variable {rest : List β}

theorem bind_ok {f : α → Reader β δ ε γ} {b : γ} (h : (m >>= f) x d = (.ok b, rest, d')) :
    ∃ a mid e, m x d = (.ok a, mid, e) ∧ f a mid e = (.ok b, rest, d') := by
  change (match m x d with
    | (.ok a, input, d) => f a input d
    | (.error e, input, d) => (.error e, input, d)) = _ at h
  split at h
  · next a mid e hm => exact ⟨a, mid, e, hm, h⟩
  · cases h

theorem take_ok {n : Nat} {err : ε} {xs : List β}
    (h : take n err x d = (.ok xs, rest, d')) : n ≤ x.length ∧ xs = x.take n ∧ rest = x.drop n := by
  unfold take at h
  split at h
  · next hn =>
    cases h
    exact ⟨hn, rfl, rfl⟩
  · cases h

theorem pure_ok {b : α} (h : (Pure.pure a : Reader β δ ε α) x d = (.ok b, rest, d')) :
    b = a ∧ rest = x := by
  cases h
  exact ⟨rfl, rfl⟩

/-- A loop whose rounds consume `k` elements each. -/
theorem loop_ok {n : Int} {body : Nat → Reader β δ ε α} {k : Nat} {as : List α}
    (hbody : ∀ i x d a rest d', body i x d = (.ok a, rest, d') → x.length = rest.length + k)
    (h : loop n body x d = (.ok as, rest, d')) : x.length = rest.length + k * n.toNat := by
  rw [loop] at h
  generalize 0 = i at h
  generalize n.toNat = rounds at h ⊢
  induction rounds generalizing i x d d' as with
  | zero => rw [(pure_ok h).2, Nat.mul_zero, Nat.add_zero]
  | succ rounds ih =>
    obtain ⟨a, mid, e, hm, h⟩ := bind_ok h
    obtain ⟨results, mid', e', hr, h⟩ := bind_ok h
    obtain ⟨-, rfl⟩ := pure_ok h
    rw [hbody i x d a mid e hm, ih (i + 1) hr, Nat.mul_succ]
    omega

/-! ## Readers of a fixed number of elements -/

/-- The result is one of the errors `E`. -/
def Throws (E : ε → Prop) (r : Except ε α × List β × δ) : Prop :=
  ∃ e rest d', E e ∧ r = (.error e, rest, d')

theorem bind_of_ok {f : α → Reader β δ ε γ} (h : m x d = (.ok a, rest, d')) :
    (m >>= f) x d = f a rest d' := by
  show (match m x d with
    | (.ok a, input, d) => f a input d
    | (.error e, input, d) => (.error e, input, d)) = _
  rw [h]

theorem bind_of_error {f : α → Reader β δ ε γ} {err : ε} (h : m x d = (.error err, rest, d')) :
    (m >>= f) x d = (.error err, rest, d') := by
  show (match m x d with
    | (.ok a, input, d) => f a input d
    | (.error e, input, d) => (.error e, input, d)) = _
  rw [h]

theorem Throws.bind {E : ε → Prop} {f : α → Reader β δ ε γ} (h : Throws E (m x d)) :
    Throws E ((m >>= f) x d) := by
  obtain ⟨e, rest, d', he, h⟩ := h
  exact ⟨e, rest, d', he, bind_of_error h⟩

/-- The reader takes `k` elements, from which it has its result and its change of the record, or
fails with one of the errors `E`. -/
def Consumes (m : Reader β δ ε α) (k : Nat) (val : List β → α) (upd : List β → δ → δ)
    (E : ε → Prop) : Prop :=
  ∀ x d, Throws E (m x d) ∨
    k ≤ x.length ∧ m x d = (.ok (val (x.take k)), x.drop k, upd (x.take k) d)

variable {k : Nat} {val : List β → α} {upd : List β → δ → δ} {E : ε → Prop}

theorem Consumes.take (n : Nat) {err : ε} (h : E err) :
    Consumes (Reader.take n err : Reader β δ ε (List β)) n id (fun _ d => d) E := by
  intro x d
  unfold Reader.take
  split
  · next hn => exact .inr ⟨hn, rfl⟩
  · exact .inl ⟨err, [], d, h, rfl⟩

theorem Consumes.bind (h : Consumes m k val upd E) (f : α → Reader β δ ε γ) (x : List β) (d : δ) :
    Throws E ((m >>= f) x d) ∨
      (m >>= f) x d = f (val (x.take k)) (x.drop k) (upd (x.take k) d) := by
  rcases h x d with hthrow | ⟨-, hok⟩
  · exact .inl hthrow.bind
  · exact .inr (bind_of_ok hok)

theorem throws_or_trans {r s t : Except ε α × List β × δ} (h : Throws E r ∨ r = s)
    (h' : Throws E s ∨ s = t) : Throws E r ∨ r = t := by
  rcases h with h | rfl
  · exact .inl h
  · exact h'

/-- The `i`-th piece of `k` elements. -/
def chunk (k : Nat) (x : List β) (i : Nat) : List β := (x.drop (k * i)).take k

theorem chunk_drop (k : Nat) (x : List β) (i : Nat) : chunk k (x.drop k) i = chunk k x (i + 1) := by
  rw [chunk, chunk, List.drop_drop, Nat.mul_succ, Nat.add_comm]

theorem Consumes.loop {n : Int} {body : Nat → Reader β δ ε α}
    (h : ∀ i, Consumes (body i) k val upd E) (x : List β) (d : δ) :
    Throws E (Reader.loop n body x d) ∨
      k * n.toNat ≤ x.length ∧
        Reader.loop n body x d = (.ok ((List.range n.toNat).map fun i => val (chunk k x i)),
          x.drop (k * n.toNat),
          (List.range n.toNat).foldl (fun d i => upd (chunk k x i) d) d) := by
  rw [Reader.loop]
  generalize 0 = start
  generalize n.toNat = rounds
  induction rounds generalizing start x d with
  | zero => exact .inr ⟨Nat.zero_le _, rfl⟩
  | succ rounds ih =>
    rw [Reader.loopFrom]
    rcases h start x d with hthrow | ⟨hlen, hok⟩
    · exact .inl hthrow.bind
    rw [bind_of_ok hok]
    rcases ih (x.drop k) (upd (x.take k) d) (start + 1) with hthrow | ⟨hrest, hloop⟩
    · exact .inl hthrow.bind
    rw [bind_of_ok hloop]
    rw [List.length_drop] at hrest
    refine .inr ⟨by rw [Nat.mul_succ]; omega, ?_⟩
    simp only [chunk_drop, List.drop_drop, List.range_succ_eq_map, List.map_cons, List.map_map,
      List.foldl_cons, List.foldl_map, Nat.mul_succ, Nat.add_comm k]
    rfl

end Reader
