import Mathlib.Data.List.Induction
import Mathlib.Logic.Relation

/-!
# Runs

A system that takes one step after the other, each of an action that may or may not
be possible, runs along a list of actions as `List.foldlM` does. What is known about
one step is carried along a run by induction from its end, so that the actions taken
so far are at hand at each step.

## Theorems

* `run_append`, `run_snoc`: a run and another one, or one more step.
* `run_induction`: what holds at first and is kept by every step.
* `exists_run_of_reaches`: where steps lead, a run leads.
-/

namespace Bourse

variable {σ : Type u} {α : Type v} {step? : σ → α → Option σ} {s t t' : σ} {actions : List α}

theorem run_append {later : List α} (h : actions.foldlM step? s = some t)
    (hlater : later.foldlM step? t = some t') : (actions ++ later).foldlM step? s = some t' := by
  rw [List.foldlM_append, h]
  exact hlater

theorem run_snoc {a : α} (h : actions.foldlM step? s = some t) (hstep : step? t a = some t') :
    (actions ++ [a]).foldlM step? s = some t' := by
  refine run_append h ?_
  simp only [Option.bind_eq_bind, List.foldlM_cons, hstep, Option.bind_some, List.foldlM_nil]
  rfl

/-- What holds at the first moment of a run, and at each next one if it holds at the one before,
holds at the last. -/
theorem run_induction (P : List α → σ → Prop) (hfirst : P [] s)
    (hstep : ∀ past a t t', past.foldlM step? s = some t → P past t → step? t a = some t' →
      P (past ++ [a]) t')
    (h : actions.foldlM step? s = some t) : P actions t := by
  induction actions using List.reverseRecOn generalizing t with
  | nil =>
      rw [← Option.some.inj h]
      exact hfirst
  | append_singleton past a ih =>
      rw [List.foldlM_append] at h
      rcases Option.bind_eq_some_iff.1 h with ⟨m, hm, hlast⟩
      rw [List.foldlM_cons] at hlast
      rcases Option.bind_eq_some_iff.1 hlast with ⟨m', hm', heq⟩
      rw [← Option.some.inj heq]
      exact hstep past a m m' hm (ih hm) hm'

/-- Where some steps lead, a run leads. -/
theorem exists_run_of_reaches
    (h : Relation.ReflTransGen (fun s t => ∃ a, step? s a = some t) s t) :
    ∃ actions : List α, actions.foldlM step? s = some t := by
  induction h with
  | refl => exact ⟨[], rfl⟩
  | tail _ hlast ih =>
      rcases ih with ⟨actions, hactions⟩
      rcases hlast with ⟨a, ha⟩
      exact ⟨actions ++ [a], run_snoc hactions ha⟩

end Bourse
