import Mathlib.Algebra.GroupWithZero.Nat
import Mathlib.Algebra.Order.BigOperators.Group.List
import Mathlib.Algebra.Order.Group.Nat

/-!
# Sums Over Those Under Way

What several parties have come to is counted by a sum over the list of them, and a step
of one of them changes one entry of the list.

## Theorems

* `sum_map_set`: a sum over a list of which one entry has changed.
* `sum_map_set_le`: the same where the others have become no larger.
-/

namespace Bourse

/-- A sum over a list of which one entry has changed. -/
theorem sum_map_set {α : Type u} (f : α → ℕ) {l : List α} {n : ℕ} {x : α} (h : l[n]? = some x)
    (y : α) : ((l.set n y).map f).sum + f x = (l.map f).sum + f y := by
  induction l generalizing n with
  | nil => exact absurd h (by simp only [List.getElem?_nil, reduceCtorEq, not_false_eq_true])
  | cons z rest ih =>
      cases n with
      | zero =>
          rw [List.getElem?_cons_zero, Option.some.injEq] at h
          rw [h, List.set_cons_zero, List.map_cons, List.map_cons, List.sum_cons, List.sum_cons]
          omega
      | succ n =>
          have hrest := ih h
          rw [List.set_cons_succ, List.map_cons, List.map_cons, List.sum_cons, List.sum_cons]
          omega

/-- A sum after one of its terms has changed and the others have become no larger. -/
theorem sum_map_set_le {α : Type u} {g h : α → ℕ} {l : List α} {i : ℕ} {a b : α}
    (hi : l[i]? = some a) (hle : ∀ x, g x ≤ h x) :
    ((l.set i b).map g).sum + h a ≤ (l.map h).sum + g b := by
  induction l generalizing i with
  | nil => exact absurd hi.symm (Option.some_ne_none a)
  | cons x xs ih =>
      cases i with
      | zero =>
          have hrest : (xs.map g).sum ≤ (xs.map h).sum := List.sum_le_sum fun y _ => hle y
          cases Option.some.inj hi
          simp only [List.set_cons_zero, List.map_cons, List.sum_cons]
          omega
      | succ i =>
          have hrest := ih hi
          have hx := hle x
          simp only [List.set_cons_succ, List.map_cons, List.sum_cons]
          omega

end Bourse
