import Mathlib.Algebra.BigOperators.Group.List.Basic
import Mathlib.Algebra.GroupWithZero.Nat

set_option autoImplicit false

universe u

-- Totals of a list when one of its elements is replaced or leaves.

namespace List

variable {α : Type u}

theorem countP_eraseIdx_add (q : α → Bool) (l : List α) {i : Nat} {x : α}
    (found : l[i]? = some x) :
    (l.eraseIdx i).countP q + (if q x then 1 else 0) = l.countP q := by
  induction l generalizing i with
  | nil => cases found
  | cons head rest ih =>
    cases i with
    | zero =>
      cases found
      rw [eraseIdx_cons_zero, countP_cons]
    | succ i =>
      have later := ih found
      rw [eraseIdx_cons_succ, countP_cons, countP_cons]
      omega

theorem countP_eraseP_add (q r : α → Bool) (l : List α) (some : l.any r = true) :
    ∃ x ∈ l, r x = true ∧
      (l.eraseP r).countP q + (if q x then 1 else 0) = l.countP q := by
  obtain ⟨a, member, matched⟩ := any_eq_true.mp some
  obtain ⟨x, before, after, _, hit, split, rest⟩ := exists_of_eraseP member matched
  refine ⟨x, by simp [split], hit, ?_⟩
  rw [rest, split, countP_append, countP_append, countP_cons]
  omega

theorem sum_map_set_add (f : α → Nat) (l : List α) {i : Nat} {x : α} (y : α)
    (found : l[i]? = some x) :
    ((l.set i y).map f).sum + f x = (l.map f).sum + f y := by
  induction l generalizing i with
  | nil => cases found
  | cons head rest ih =>
    cases i with
    | zero =>
      cases found
      simp only [set_cons_zero, map_cons, sum_cons]
      omega
    | succ i =>
      have later := ih found
      simp only [set_cons_succ, map_cons, sum_cons]
      omega

end List
