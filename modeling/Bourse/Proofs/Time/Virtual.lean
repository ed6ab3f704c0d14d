import Bourse.Time.Virtual

/-!
# What Time Does

Letting time pass is settling and moving forward, over and over. So whatever these two
keep is kept, however long it takes and whatever is waited for; and the wait is over when
what was waited for has happened, or else exactly when the time is up.

## Main definitions

* `Virtual.Lawful`: the clock of a system is moved from outside only.

## Theorems

* `runUntil_induction`: what settling and moving forward keep is kept.
* `ends_of_runUntil`: when the wait is over.
* `now_wait`: letting a span of time pass takes just that span.
-/

namespace Bourse

namespace Virtual

variable {σ : Type} {v : Virtual σ}

/-- The clock stands still while a system settles, and stands where it was moved to. -/
structure Lawful (v : Virtual σ) : Prop where
  now_settle : ∀ s, v.now (v.settle s) = v.now s
  now_moved : ∀ t s, v.now (v.moved t s) = t

/-- One jump of the clock, after which the system has settled. -/
theorem Lawful.now_jump (hv : v.Lawful) (t : Nat) (s : σ) :
    v.now (v.settle (v.moved t s)) = t := by
  rw [hv.now_settle, hv.now_moved]

/-- What settling and moving forward keep is kept while time passes. -/
theorem runUntil_induction (hv : v.Lawful) (P : σ → Prop)
    (hsettle : ∀ s, P s → P (v.settle s))
    (hmoved : ∀ t s, v.now s ≤ t → P s → P (v.moved t s)) {done : σ → Bool} {stop now : Nat}
    {s : σ} (hnow : v.now s = now) (hs : P s) : P (v.runUntil done stop now s) := by
  fun_induction runUntil v done stop now s with
  | case1 => exact hs
  | case2 now s hdone hlt t ih =>
      -- The next jump goes forward, so the clock and the induction agree after it.
      have hle : v.now s ≤ t := by omega
      exact ih (hv.now_jump t s) (hsettle _ (hmoved t s hle hs))
  | case3 => exact hs

theorem await_induction (hv : v.Lawful) (P : σ → Prop) (hsettle : ∀ s, P s → P (v.settle s))
    (hmoved : ∀ t s, v.now s ≤ t → P s → P (v.moved t s)) (done : σ → Bool) (ms : Nat) {s : σ}
    (hs : P s) : P (v.await done ms s) :=
  runUntil_induction hv P hsettle hmoved rfl (hsettle s hs)

/-- The wait is over when what was waited for has happened, or else when the time is up. -/
theorem ends_of_runUntil (hv : v.Lawful) (done : σ → Bool) {stop now : Nat} {s : σ}
    (hnow : v.now s = now) (hle : now ≤ stop) :
    now ≤ v.now (v.runUntil done stop now s) ∧ v.now (v.runUntil done stop now s) ≤ stop ∧
      (done (v.runUntil done stop now s) = true ∨ v.now (v.runUntil done stop now s) = stop) := by
  fun_induction runUntil v done stop now s with
  | case1 now s hdone =>
      rw [hnow]
      exact ⟨Nat.le_refl _, hle, Or.inl hdone⟩
  | case2 now s hdone hlt t ih =>
      have hforward : now ≤ t := by omega
      have hstop : t ≤ stop := Nat.min_le_left _ _
      rcases ih (hv.now_jump t s) hstop with ⟨hlater, hsoon, hover⟩
      exact ⟨Nat.le_trans hforward hlater, hsoon, hover⟩
  | case3 now s hdone hlt =>
      rw [hnow]
      exact ⟨Nat.le_refl _, hle, Or.inr (Nat.le_antisymm hle (Nat.le_of_not_lt hlt))⟩

/-- Letting a span of time pass takes just that span. -/
theorem now_wait (hv : v.Lawful) (ms : Nat) (s : σ) : v.now (v.wait ms s) = v.now s + ms := by
  rcases (ends_of_runUntil hv (fun _ => false) rfl (Nat.le_add_right _ ms)).2.2 with hdone | hnow
  · exact absurd hdone Bool.false_ne_true
  · exact hnow.trans (congrArg (· + ms) (hv.now_settle s))

end Virtual

end Bourse
