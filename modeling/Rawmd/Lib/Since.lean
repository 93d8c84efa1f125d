import Mathlib.Data.List.Induction

/-!
# Histories of switches

`Since a stops as`: in the history `as` the event `a` happened, and none of `stops`
after it.  One more event decides it (`since_concat`); a part of the history that comes later
decides it unless it is silent about both (`since_append`).

    since_narrow_iff    more stops change nothing ↔ each of the last of them is made up for later
-/

namespace Rawmd

variable {α : Type} {a : α} {stops as bs : List α}

def Since (a : α) (stops as : List α) : Prop :=
  ∃ us vs, as = us ++ a :: vs ∧ ∀ o ∈ vs, o ∉ stops

theorem not_since_nil : ¬ Since a stops [] := by
  rintro ⟨us, vs, h, -⟩
  simp at h

theorem since_concat (o : α) :
    Since a stops (as ++ [o]) ↔ o = a ∨ (o ∉ stops ∧ Since a stops as) := by
  constructor
  · rintro ⟨us, vs, h, hvs⟩
    -- the event is the last one, or it is in the part before it
    rcases List.eq_nil_or_concat vs with rfl | ⟨ws, o', rfl⟩
    · left
      exact (List.append_inj' h rfl).2 |> List.singleton_inj.1
    · right
      rw [List.concat_eq_append, ← List.cons_append, ← List.append_assoc] at h
      obtain ⟨h₁, h₂⟩ := List.append_inj' h rfl
      obtain rfl := List.singleton_inj.1 h₂
      refine ⟨hvs o (by simp), us, ws, h₁, ?_⟩
      intro x hx
      exact hvs x (by simp [hx])
  · rintro (rfl | ⟨ho, us, vs, rfl, hvs⟩)
    · exact ⟨as, [], rfl, by simp⟩
    · refine ⟨us, vs ++ [o], by simp, ?_⟩
      intro x hx
      rcases List.mem_append.1 hx with hx | hx
      · exact hvs x hx
      · rw [List.mem_singleton.1 hx]
        exact ho

theorem since_append :
    Since a stops (as ++ bs) ↔ Since a stops bs ∨ ((∀ o ∈ bs, o ∉ stops) ∧ Since a stops as) := by
  induction bs using List.reverseRecOn with
  | nil => simp [not_since_nil]
  | append_singleton bs o ih =>
    rw [← List.append_assoc, since_concat, since_concat, ih]
    simp only [List.mem_append, List.mem_singleton, or_imp, forall_and, forall_eq]
    tauto

theorem Since.mem (h : Since a stops as) : a ∈ as := by
  obtain ⟨us, vs, rfl, -⟩ := h
  simp

/-- With fewer stops there is more that has happened since. -/
theorem Since.mono {stops' : List α} (h : Since a stops as) (hsub : ∀ o ∈ stops', o ∈ stops) :
    Since a stops' as := by
  obtain ⟨us, vs, rfl, hvs⟩ := h
  exact ⟨us, vs, rfl, fun o ho hs => hvs o ho (hsub o hs)⟩

theorem since_of_mem (h : a ∈ as) (hs : ∀ o ∈ as, o ∉ stops) : Since a stops as := by
  obtain ⟨us, vs, rfl⟩ := List.append_of_mem h
  exact ⟨us, vs, rfl, fun o ho => hs o (by simp [ho])⟩

/-- A member has a last occurrence. -/
theorem exists_last_of_mem (h : a ∈ as) : ∃ us vs, as = us ++ a :: vs ∧ a ∉ vs := by
  obtain ⟨us, vs, hr, hn⟩ := List.eq_append_cons_of_mem (List.mem_reverse.2 h)
  refine ⟨vs.reverse, us.reverse, ?_, by simpa using hn⟩
  have := congrArg List.reverse hr
  simpa using this

/-- Of the stops `s` and `stops`, `s` makes no difference to `a` exactly if, at the last `s` that
no stop follows, what was `a` before it is made `a` again after it. -/
theorem since_narrow_iff {s : α} (hs : s ∉ stops) (ha : a ≠ s) :
    (Since a stops as → Since a (s :: stops) as) ↔
      ∀ us vs, as = us ++ s :: vs → (∀ o ∈ vs, o ∉ stops) → s ∉ vs →
        Since a stops us → a ∈ vs := by
  constructor
  · rintro h us vs rfl hvs - hus
    have hall : Since a stops (us ++ s :: vs) := by
      refine since_append.2 (.inr ⟨?_, hus⟩)
      intro o ho
      rcases List.mem_cons.1 ho with rfl | ho
      · exact hs
      · exact hvs o ho
    rcases since_append.1 (h hall) with hlate | ⟨hnone, -⟩
    · exact (List.mem_cons.1 hlate.mem).resolve_left ha
    · exact absurd (List.mem_cons_self ..) (hnone s (List.mem_cons_self ..))
  · rintro h ⟨us, vs, rfl, hvs⟩
    by_cases hsv : s ∈ vs
    · obtain ⟨ws, xs, rfl, hxs⟩ := exists_last_of_mem hsv
      have hstops : ∀ o ∈ xs, o ∉ stops := fun o ho => hvs o (by simp [ho])
      have hmem : a ∈ xs := by
        refine h (us ++ a :: ws) xs (by simp) hstops hxs ⟨us, ws, rfl, ?_⟩
        intro o ho
        exact hvs o (by simp [ho])
      have hlast : Since a (s :: stops) xs := by
        refine since_of_mem hmem ?_
        intro o ho hos
        rcases List.mem_cons.1 hos with rfl | hos
        · exact hxs ho
        · exact hstops o ho hos
      have happ : us ++ a :: (ws ++ s :: xs) = (us ++ a :: ws ++ [s]) ++ xs := by simp
      rw [happ]
      exact since_append.2 (.inl hlast)
    · refine ⟨us, vs, rfl, ?_⟩
      intro o ho hos
      rcases List.mem_cons.1 hos with rfl | hos
      · exact hsv ho
      · exact hvs o ho hos

end Rawmd
