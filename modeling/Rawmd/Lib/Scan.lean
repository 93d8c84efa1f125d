import Rawmd.Lib.MachineInt
import Rawmd.Lib.Printf

/-!
# Searching in texts, and the numbers at their front

`find` and `rfind` are those of `std::string`, for a character or a text.  `scan` is the number that
`strtol` reads at the front of a text, without its bounds: blanks, a sign, digits.

    a text without c is found in x ++ c :: y as it is in x, else as it is in y
                                                              (findText_append)
    scan undoes signed, whatever follows the digits           (scan_signed)
    scan does not read past a character that is no part of a number  (scan_append)
-/

namespace Scan

open Printf MachineInt

/-! ## Searching -/

def find (c : Char) (s : Text) : Option Nat := s.idxOf? c

def rfind (c : Char) (s : Text) : Option Nat :=
  (s.reverse.idxOf? c).map fun i => s.length - 1 - i

def findText (w : Text) : Text → Option Nat
  | [] => if w = [] then some 0 else none
  | c :: s => if w.isPrefixOf (c :: s) then some 0 else (findText w s).map (· + 1)

theorem find_append {c : Char} {x : Text} (h : c ∉ x) (y : Text) :
    find c (x ++ c :: y) = some x.length := by
  unfold find
  induction x with
  | nil => simp [List.idxOf?_cons]
  | cons a x ih =>
    rw [List.cons_append, List.idxOf?_cons, if_neg, ih (List.not_mem_of_not_mem_cons h)]
    · rfl
    · intro heq
      exact h (eq_of_beq heq ▸ List.mem_cons_self)

theorem rfind_append {c : Char} (x : Text) {y : Text} (h : c ∉ y) :
    rfind c (x ++ c :: y) = some x.length := by
  have hfind := find_append (x := y.reverse) (fun hc => h (List.mem_reverse.1 hc)) x.reverse
  have hrev : (x ++ c :: y).reverse = y.reverse ++ c :: x.reverse := by simp
  unfold find at hfind
  rw [rfind, hrev, hfind, Option.map_some, List.length_append, List.length_cons,
    List.length_reverse, Option.some.injEq]
  omega

theorem rfind_lt {c : Char} {s : Text} {i : Nat} (h : rfind c s = some i) : i < s.length := by
  unfold rfind at h
  obtain ⟨j, hj, rfl⟩ := Option.map_eq_some_iff.1 h
  obtain ⟨hlt, -⟩ := List.idxOf?_eq_some_iff.1 hj
  rw [List.length_reverse] at hlt
  omega

theorem prefix_append_cons {w x y : Text} {c : Char} (hc : c ∉ w) :
    w <+: x ++ c :: y ↔ w <+: x := by
  constructor
  · intro h
    induction w generalizing x with
    | nil => exact List.nil_prefix
    | cons b w ih =>
      cases x with
      | nil =>
        have hhead : b = c := (List.cons_prefix_cons.1 h).1
        exact absurd (hhead ▸ List.mem_cons_self) hc
      | cons a x =>
        rw [List.cons_append, List.cons_prefix_cons] at h
        exact List.cons_prefix_cons.2 ⟨h.1, ih (List.not_mem_of_not_mem_cons hc) h.2⟩
  · intro h
    exact h.trans (List.prefix_append x _)

/-- No occurrence of `w` holds a `c`, so the first one is before the `c` or behind it. -/
theorem findText_append {w x : Text} {c : Char} (hc : c ∉ w) (hx : ¬ w <:+: x) (y : Text) :
    findText w (x ++ c :: y) = (findText w y).map (· + (x.length + 1)) := by
  induction x with
  | nil =>
    have hp : w.isPrefixOf (c :: y) = false := by
      rw [← Bool.not_eq_true, List.isPrefixOf_iff_prefix]
      intro h
      exact hx ((prefix_append_cons (x := []) hc).1 h).isInfix
    rw [List.nil_append, findText, hp]
    rfl
  | cons a x ih =>
    have hp : w.isPrefixOf (a :: (x ++ c :: y)) = false := by
      rw [← Bool.not_eq_true, List.isPrefixOf_iff_prefix]
      intro h
      exact hx ((prefix_append_cons (x := a :: x) hc).1 h).isInfix
    rw [List.cons_append, findText, hp, ih (fun h => hx (h.trans (List.suffix_cons a x).isInfix))]
    cases findText w y with
    | none => rfl
    | some i => simp [Nat.add_assoc]

/-- Where `w` occurs in `x`, what follows the `c` does not matter. -/
theorem findText_of_infix {w x : Text} {c : Char} (hc : c ∉ w) (hx : w <:+: x) :
    ∃ i, i + w.length ≤ x.length ∧ ∀ y, findText w (x ++ c :: y) = some i := by
  induction x with
  | nil =>
    obtain rfl : w = [] := List.infix_nil.1 hx
    exact ⟨0, Nat.le_refl _, fun y => rfl⟩
  | cons a x ih =>
    by_cases hp : w <+: a :: x
    · refine ⟨0, by simpa using hp.length_le, ?_⟩
      intro y
      rw [List.cons_append, findText, if_pos]
      exact List.isPrefixOf_iff_prefix.2 (hp.trans (List.prefix_append _ (c :: y)))
    · obtain ⟨i, hi, hfind⟩ := ih ((List.infix_cons_iff.1 hx).resolve_left hp)
      refine ⟨i + 1, by rw [List.length_cons]; omega, ?_⟩
      intro y
      rw [List.cons_append, findText, if_neg, hfind y]
      · rfl
      · rw [List.isPrefixOf_iff_prefix]
        intro h
        exact hp ((prefix_append_cons (x := a :: x) hc).1 h)

/-- What starts with `a` does not start before the first `a`. -/
theorem infix_append_iff {a : Char} {w p x : Text} (ha : a ∉ p) :
    a :: w <:+: p ++ x ↔ a :: w <:+: x := by
  induction p with
  | nil => rfl
  | cons b p ih =>
    rw [List.cons_append, List.infix_cons_iff, ih (List.not_mem_of_not_mem_cons ha)]
    constructor
    · rintro (h | h)
      · have hhead : a = b := (List.cons_prefix_cons.1 h).1
        exact absurd (hhead ▸ List.mem_cons_self) ha
      · exact h
    · exact .inr

theorem findText_self (w y : Text) : findText w (w ++ y) = some 0 := by
  cases w with
  | nil => cases y <;> rfl
  | cons c w =>
    rw [List.cons_append, findText, if_pos]
    exact List.isPrefixOf_iff_prefix.2 (List.prefix_append (c :: w) y)

/-! ## Numbers -/

/-- `isspace` -/
def isSpace (c : Char) : Bool := c == ' ' || decide ('\t' ≤ c) && decide (c ≤ '\r')

def digits (s : Text) : Nat := Nat.ofDigitChars 10 (s.takeWhile Char.isDigit) 0

def scan (s : Text) : Int :=
  match s.dropWhile isSpace with
  | [] => 0
  | c :: t => if c = '-' then -(digits t : Int) else if c = '+' then digits t else digits (c :: t)

/-- A 64-bit `long`: the nearest value. -/
def strtol (s : Text) : Int := max (-2 ^ 63) (min (2 ^ 63 - 1) (scan s))

/-- `(int) strtol(s, NULL, 10)` -/
def atoi (s : Text) : Int := wrap 32 (strtol s)

theorem atoi_of_fits {s : Text} (h : Fits 32 (scan s)) : atoi s = scan s := by
  obtain ⟨hlow, hhigh⟩ := h
  have hclamp : strtol s = scan s := by
    unfold strtol
    omega
  rw [atoi, hclamp]
  exact wrap_of_fits (by decide) ⟨hlow, hhigh⟩

theorem digits_decimal (n : Nat) {after : Text} (h : ∀ c ∈ after.head?, c.isDigit = false) :
    digits (decimal n ++ after) = n := by
  have hdigits : ∀ c ∈ decimal n, c.isDigit = true := by
    intro c hc
    exact Nat.isDigit_of_mem_toDigits (by decide) (by decide) hc
  have hafter : after.takeWhile Char.isDigit = [] := by
    cases after with
    | nil => rfl
    | cons c after => rw [List.takeWhile_cons, h c rfl]; rfl
  rw [digits, List.takeWhile_append_of_pos hdigits, hafter, List.append_nil]
  exact Nat.ofDigitChars_ten_toDigits

theorem decimal_eq_cons (n : Nat) : ∃ c t, decimal n = c :: t ∧ c.isDigit = true := by
  cases h : decimal n with
  | nil => exact absurd h Nat.toDigits_ne_nil
  | cons c t =>
    refine ⟨c, t, rfl, ?_⟩
    have hc : c ∈ decimal n := h ▸ List.mem_cons_self
    exact Nat.isDigit_of_mem_toDigits (by decide) (by decide) hc

/-- A digit is no blank and no sign. -/
theorem digit_cases {c : Char} (h : c.isDigit = true) :
    isSpace c = false ∧ c ≠ '-' ∧ c ≠ '+' := by
  refine ⟨?_, ?_, ?_⟩
  · have hlow : 48 ≤ c.toNat := (Char.isDigit_iff_toNat.1 h).1
    have hblank : c ≠ ' ' := by
      rintro rfl
      cases h
    have hle : ¬ c ≤ '\r' := by
      intro hle
      have : c.toNat ≤ 13 := hle
      omega
    simp [isSpace, hblank, hle]
  · rintro rfl
    cases h
  · rintro rfl
    cases h

theorem scan_signed {ws after : Text} (n : Int) (hws : ∀ c ∈ ws, isSpace c = true)
    (hafter : ∀ c ∈ after.head?, c.isDigit = false) : scan (ws ++ signed n ++ after) = n := by
  obtain ⟨c, t, hct, hc⟩ := decimal_eq_cons n.natAbs
  have hdigits := digits_decimal n.natAbs hafter
  obtain ⟨hspace, hminus, hplus⟩ := digit_cases hc
  rw [scan, List.append_assoc, List.dropWhile_append_of_pos hws]
  by_cases hn : n < 0
  · rw [signed, if_pos hn, List.cons_append, List.dropWhile_cons, if_neg (by decide)]
    show (if '-' = '-' then -(digits (decimal n.natAbs ++ after) : Int) else _) = n
    rw [if_pos rfl, hdigits]
    omega
  · rw [signed, if_neg hn, hct, List.cons_append, List.dropWhile_cons,
      if_neg (by rw [hspace]; decide)]
    show (if c = '-' then _ else if c = '+' then _ else (digits (c :: (t ++ after)) : Int)) = n
    rw [if_neg hminus, if_neg hplus, ← List.cons_append, ← hct, hdigits]
    omega

theorem digits_append {c : Char} (hc : c.isDigit = false) (u v : Text) :
    digits (u ++ c :: v) = digits u := by
  have htake : (c :: v).takeWhile Char.isDigit = [] := by
    rw [List.takeWhile_cons, hc]
    rfl
  rw [digits, digits, List.takeWhile_append, htake, List.append_nil]
  split
  · next hlen => rw [(List.takeWhile_prefix Char.isDigit).eq_of_length hlen]
  · rfl

theorem scan_append {c : Char} (hspace : isSpace c = false) (hdigit : c.isDigit = false)
    (hminus : c ≠ '-') (hplus : c ≠ '+') (u v : Text) : scan (u ++ c :: v) = scan u := by
  have hstop : (c :: v).dropWhile isSpace = c :: v := by
    rw [List.dropWhile_cons, hspace]
    rfl
  have hv := digits_append hdigit [] v
  unfold scan
  rw [List.dropWhile_append, hstop]
  cases u.dropWhile isSpace with
  | nil =>
    show (if c = '-' then _ else if c = '+' then _ else (digits (c :: v) : Int)) = 0
    rw [if_neg hminus, if_neg hplus, ← List.nil_append (c :: v), hv]
    rfl
  | cons b t =>
    show (if b = '-' then -(digits (t ++ c :: v) : Int) else if b = '+' then
      (digits (t ++ c :: v) : Int) else digits (b :: (t ++ c :: v))) = _
    rw [digits_append hdigit t v, ← List.cons_append, digits_append hdigit (b :: t) v]

end Scan
