import Mathlib.Data.List.Sort
import Mathlib.Data.Prod.Lex
import Mathlib.Data.List.TakeWhile

/-!
# Ordered sets: `std::set` as a strictly increasing list

`insert` and `erase` return what their C++ namesakes return next to the new set:
whether the key was new, and how many keys were removed.  `first?` is `*begin()`,
`below b` the keys before `lower_bound(b)` in order, `atLeast b` the set of the others.

    x ∈ (insert a s).1 ↔ x = a ∨ x ∈ s,   (insert a s).2 = (a ∉ s)   (mem_insert, insert_snd)
    x ∈ (erase a s).1 ↔ x ∈ s ∧ x ≠ a,    (erase a s).2 = 1 iff a ∈ s (mem_erase, erase_snd)
    x ∈ below b s ↔ x ∈ s ∧ x < b,        x ∈ atLeast b s ↔ x ∈ s ∧ b ≤ x
-/

structure OrderedSet (α : Type) [LinearOrder α] where
  toList : List α
  sorted : toList.Pairwise (· < ·)

namespace OrderedSet

variable {α : Type} [LinearOrder α] (s : OrderedSet α) (a b x : α)

instance : Membership α (OrderedSet α) := ⟨fun s x => x ∈ s.toList⟩

instance : Decidable (x ∈ s) := inferInstanceAs (Decidable (x ∈ s.toList))

/-! ## Operations -/

def empty : OrderedSet α := ⟨[], .nil⟩

def size : Nat := s.toList.length

def first? : Option α := s.toList.head?

/-- The list with `a` before the first greater key. -/
def insertList (a : α) : List α → List α
  | [] => [a]
  | x :: l => if a < x then a :: x :: l else x :: insertList a l

theorem mem_insertList (a x : α) (l : List α) : x ∈ insertList a l ↔ x = a ∨ x ∈ l := by
  induction l with
  | nil => simp [insertList]
  | cons y l ih =>
    unfold insertList
    split
    · simp
    · rw [List.mem_cons, ih, List.mem_cons, or_left_comm]

theorem length_insertList (a : α) (l : List α) : (insertList a l).length = l.length + 1 := by
  induction l with
  | nil => rfl
  | cons y l ih =>
    unfold insertList
    split
    · rfl
    · simp [ih]

theorem insertList_sorted (a : α) (l : List α) (ha : a ∉ l) (h : l.Pairwise (· < ·)) :
    (insertList a l).Pairwise (· < ·) := by
  induction l with
  | nil => simp [insertList]
  | cons y l ih =>
    rw [List.pairwise_cons] at h
    unfold insertList
    split
    · next hlt =>
      refine List.pairwise_cons.2 ⟨fun z hz => ?_, List.pairwise_cons.2 h⟩
      rcases List.mem_cons.1 hz with rfl | hz
      · exact hlt
      · exact hlt.trans (h.1 z hz)
    · next hge =>
      have hya : y < a := lt_of_le_of_ne (not_lt.1 hge) fun e => ha (by simp [e])
      have hal : a ∉ l := fun hm => ha (List.mem_cons_of_mem _ hm)
      refine List.pairwise_cons.2 ⟨fun z hz => ?_, ih hal h.2⟩
      rcases (mem_insertList a z l).1 hz with rfl | hz
      · exact hya
      · exact h.1 z hz

/-- `std::set::insert`: an equal key is kept and the flag is `false`. -/
def insert : OrderedSet α × Bool :=
  if h : a ∈ s then (s, false)
  else (⟨insertList a s.toList, insertList_sorted a _ h s.sorted⟩, true)

/-- `std::set::erase` by key. -/
def erase : OrderedSet α × Nat :=
  (⟨s.toList.erase a, s.sorted.sublist List.erase_sublist⟩, if a ∈ s then 1 else 0)

/-- The keys before `lower_bound(b)`. -/
def below : List α := s.toList.takeWhile (· < b)

/-- The keys from `lower_bound(b)` on. -/
def atLeast : OrderedSet α :=
  ⟨s.toList.dropWhile (· < b), s.sorted.sublist (List.dropWhile_sublist _)⟩

/-! ## Lemmas -/

theorem mem_toList : x ∈ s.toList ↔ x ∈ s := Iff.rfl

theorem nodup : s.toList.Nodup := s.sorted.imp fun h => ne_of_lt h

@[simp] theorem not_mem_empty : x ∉ (empty : OrderedSet α) := List.not_mem_nil

@[simp] theorem size_empty : (empty : OrderedSet α).size = 0 := rfl

@[simp] theorem insert_snd : (s.insert a).2 = decide (a ∉ s) := by
  unfold insert
  split <;> simp_all

@[simp] theorem mem_insert : x ∈ (s.insert a).1 ↔ x = a ∨ x ∈ s := by
  unfold insert
  split
  · next h =>
    constructor
    · exact Or.inr
    · rintro (rfl | hx)
      · exact h
      · exact hx
  · exact mem_insertList a x s.toList

theorem size_insert (h : a ∉ s) : (s.insert a).1.size = s.size + 1 := by
  unfold insert
  rw [dif_neg h]
  exact length_insertList a s.toList

@[simp] theorem mem_erase : x ∈ (s.erase a).1 ↔ x ∈ s ∧ x ≠ a := by
  show x ∈ s.toList.erase a ↔ _
  rw [s.nodup.mem_erase_iff, and_comm]
  exact Iff.rfl

theorem erase_snd (h : a ∈ s) : (s.erase a).2 = 1 := if_pos h

theorem size_erase (h : a ∈ s) : (s.erase a).1.size + 1 = s.size := by
  show (s.toList.erase a).length + 1 = s.toList.length
  have hpos := List.length_pos_of_mem h
  rw [List.length_erase_of_mem h]
  omega

theorem below_append_atLeast : s.below b ++ (s.atLeast b).toList = s.toList :=
  List.takeWhile_append_dropWhile

theorem lt_of_mem_below (h : x ∈ s.below b) : x < b := by
  simpa using List.mem_takeWhile_imp h

theorem le_of_mem_atLeast (h : x ∈ s.atLeast b) : b ≤ x := by
  -- the first key of the rest is not below `b`, and the others follow it
  have hs := (s.atLeast b).sorted
  have hx : x ∈ (s.atLeast b).toList := h
  cases hd : (s.atLeast b).toList with
  | nil => rw [hd] at hx; cases hx
  | cons y l =>
    have hne : s.toList.dropWhile (· < b) ≠ [] := by
      show (s.atLeast b).toList ≠ []
      rw [hd]; simp
    have hy : b ≤ y := by
      have := List.head_dropWhile_not (fun z => decide (z < b)) hne
      have he : (s.toList.dropWhile (· < b)).head hne = y := by
        have : s.toList.dropWhile (· < b) = y :: l := hd
        simp [this]
      rw [he] at this
      simpa using this
    rw [hd] at hs hx
    rcases List.mem_cons.1 hx with rfl | hx
    · exact hy
    · exact hy.trans (le_of_lt ((List.pairwise_cons.1 hs).1 x hx))

theorem mem_iff_below_or_atLeast : x ∈ s ↔ x ∈ s.below b ∨ x ∈ s.atLeast b := by
  rw [← mem_toList, ← s.below_append_atLeast b, List.mem_append]
  exact Iff.rfl

@[simp] theorem mem_below : x ∈ s.below b ↔ x ∈ s ∧ x < b := by
  constructor
  · intro h
    exact ⟨(s.mem_iff_below_or_atLeast b x).2 (Or.inl h), s.lt_of_mem_below b x h⟩
  · rintro ⟨h, hlt⟩
    rcases (s.mem_iff_below_or_atLeast b x).1 h with h | h
    · exact h
    · exact absurd hlt (not_lt.2 (s.le_of_mem_atLeast b x h))

@[simp] theorem mem_atLeast : x ∈ s.atLeast b ↔ x ∈ s ∧ b ≤ x := by
  constructor
  · intro h
    exact ⟨(s.mem_iff_below_or_atLeast b x).2 (Or.inr h), s.le_of_mem_atLeast b x h⟩
  · rintro ⟨h, hle⟩
    rcases (s.mem_iff_below_or_atLeast b x).1 h with h | h
    · exact absurd (s.lt_of_mem_below b x h) (not_lt.2 hle)
    · exact h

theorem below_sorted : (s.below b).Pairwise (· < ·) := s.sorted.sublist (List.takeWhile_sublist _)

theorem below_nodup : (s.below b).Nodup := (s.below_sorted b).imp fun h => ne_of_lt h

theorem size_eq_below_add_atLeast : s.size = (s.below b).length + (s.atLeast b).size := by
  show s.toList.length = _ + (s.atLeast b).toList.length
  rw [← List.length_append, s.below_append_atLeast b]

theorem first?_eq_none_iff : s.first? = none ↔ s.size = 0 := by
  simp [first?, size]

theorem first?_mem (h : s.first? = some x) : x ∈ s := List.mem_of_head? h

theorem first?_le (h : s.first? = some a) (hx : x ∈ s) : a ≤ x := by
  have hs := s.sorted
  unfold first? at h
  have hx' : x ∈ s.toList := hx
  cases hl : s.toList with
  | nil => rw [hl] at h; cases h
  | cons y l =>
    rw [hl] at h hs hx'
    cases h
    rcases List.mem_cons.1 hx' with rfl | hx'
    · exact le_refl _
    · exact le_of_lt ((List.pairwise_cons.1 hs).1 x hx')

end OrderedSet
