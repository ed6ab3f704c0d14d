import Bourse.Throttle
import Mathlib.Data.List.Chain
import Mathlib.Data.List.Induction

/-!
# What Passes a Throttle

A throttle takes each item that it can take: the first one, and every later one that is not
too near to the last one taken. Nothing better can be done with the same distance between
items. Whatever else is chosen from the source, after each of its items the throttle has
passed as many, or as many and the last of them no later, so the other choice never gets
ahead.

## Main definitions

* `Throttle.after`: the throttle after some items.
* `Throttle.Spaced`: neighbours are an interval apart.
* `Throttle.Greedy`: the choice of each item that can be taken.

## Theorems

* `isOpen_after`, `pass_spaced`: what passes a throttle is an interval apart.
* `greedy_iff`: what passes a fresh throttle is the greedy choice.
* `Greedy.ahead`: no other choice gets ahead of the greedy one.
* `exists_pass_split`: every item passes in its place, or is near to one that has passed.
-/

namespace Bourse.Throttle

variable {α : Type}

/-! ## The throttle between two items -/

/-- The throttle after the items of a list. -/
def after (t : Throttle) : List (Nat × α) → Throttle
  | [] => t
  | e :: rest => (t.offer e.1).2.after rest

theorem pass_append (t : Throttle) (l l' : List (Nat × α)) :
    t.pass (l ++ l') = t.pass l ++ (t.after l).pass l' := by
  induction l generalizing t with
  | nil => rfl
  | cons e rest ih =>
      rw [List.cons_append, pass_cons, pass_cons, after, ih, List.append_assoc]

theorem after_append (t : Throttle) (l l' : List (Nat × α)) :
    t.after (l ++ l') = (t.after l).after l' := by
  induction l generalizing t with
  | nil => rfl
  | cons e rest ih => exact ih _

/-- A throttle is open again when all that has passed is an interval ago. -/
theorem isOpen_after (t : Throttle) (l : List (Nat × α)) (now : Nat) :
    (t.after l).isOpen now = true ↔
      t.isOpen now = true ∧ ∀ e ∈ t.pass l, e.1 + t.interval ≤ now := by
  induction l generalizing t with
  | nil => exact ⟨fun h => ⟨h, fun e he => absurd he List.not_mem_nil⟩, fun h => h.1⟩
  | cons e rest ih =>
      rw [after, ih, pass]
      cases hopen : t.isOpen e.1 with
      | false => rw [offer, hopen, if_neg Bool.false_ne_true, if_neg Bool.false_ne_true]
      | true =>
          rw [offer, if_pos hopen, if_pos rfl]
          have hshut : ({ t with next := some (e.1 + t.interval) } : Throttle).isOpen now = true ↔
              e.1 + t.interval ≤ now := decide_eq_true_iff
          rw [hshut, List.forall_mem_cons]
          refine ⟨fun h => ⟨?_, h⟩, fun h => h.2⟩
          -- What was open then has not been closed by time passing.
          unfold isOpen at hopen ⊢
          split
          · rfl
          · next n hn =>
            rw [hn] at hopen
            have hn := of_decide_eq_true hopen
            exact decide_eq_true (by omega)

/-- What passes is an interval apart. -/
theorem pass_spaced (t : Throttle) (l : List (Nat × α)) :
    (t.pass l).Pairwise (fun a b => a.1 + t.interval ≤ b.1) := by
  induction l using List.reverseRecOn with
  | nil => exact .nil
  | append_singleton past e ih =>
      rw [pass_append, List.pairwise_append]
      rw [pass_cons, pass_nil, List.append_nil]
      split
      · next hopen =>
        refine ⟨ih, List.pairwise_singleton _ e, fun a ha b hb => ?_⟩
        rw [List.mem_singleton.1 hb]
        exact ((isOpen_after t past e.1).1 hopen).2 a ha
      · exact ⟨ih, .nil, fun a _ b hb => absurd hb List.not_mem_nil⟩

/-- What passes was among the items. -/
theorem pass_sublist (t : Throttle) (l : List (Nat × α)) : (t.pass l).Sublist l := by
  induction l generalizing t with
  | nil => exact .slnil
  | cons e rest ih =>
      rw [pass]
      split
      · exact (ih _).cons_cons e
      · exact (ih t).cons e

/-! ## The greedy choice -/

variable {interval : Nat} {source passed : List (Nat × α)} {e : Nat × α}

/-- Each item of a list comes at least an interval after the one before. -/
def Spaced (interval : Nat) (l : List (Nat × α)) : Prop :=
  l.IsChain (fun a b => a.1 + interval ≤ b.1)

/-- Each item of a source is taken that comes first or at least an interval after the last one
taken. -/
inductive Greedy (interval : Nat) : List (Nat × α) → List (Nat × α) → Prop where
  | nil : Greedy interval [] []
  | taken {source passed : List (Nat × α)} {e : Nat × α} (past : Greedy interval source passed)
      (hfar : ∀ p, passed.getLast? = some p → p.1 + interval ≤ e.1) :
      Greedy interval (source ++ [e]) (passed ++ [e])
  | dropped {source passed : List (Nat × α)} {e p : Nat × α}
      (past : Greedy interval source passed) (hlast : passed.getLast? = some p)
      (hnear : e.1 < p.1 + interval) :
      Greedy interval (source ++ [e]) passed

/-- A throttle that began fresh is open when the last item that passed is an interval ago. -/
theorem isOpen_after_fresh (interval : Nat) (source : List (Nat × α)) (now : Nat) :
    ((fresh interval).after source).isOpen now = true ↔
      ∀ p, ((fresh interval).pass source).getLast? = some p → p.1 + interval ≤ now := by
  rw [isOpen_after]
  refine ⟨fun h p hp => h.2 p (List.mem_of_getLast? hp), fun h => ⟨rfl, fun e he => ?_⟩⟩
  -- Any other that passed is an interval before the last one.
  rcases List.eq_nil_or_concat ((fresh interval).pass source) with hnil | ⟨front, p, heq⟩
  · exact absurd (hnil ▸ he) List.not_mem_nil
  · have hspaced := pass_spaced (fresh interval) source
    rw [heq, List.concat_eq_append] at h hspaced he
    have hp : p.1 + interval ≤ now := h p List.getLast?_concat
    rcases List.mem_append.1 he with he | he
    · have hfar : e.1 + interval ≤ p.1 :=
        (List.pairwise_append.1 hspaced).2.2 e he p (List.mem_singleton_self p)
      exact (by omega : e.1 + interval ≤ now)
    · exact List.mem_singleton.1 he ▸ hp

/-- One more item passes a throttle that is open. -/
theorem pass_concat (t : Throttle) (source : List (Nat × α)) (e : Nat × α) :
    t.pass (source ++ [e]) =
      t.pass source ++ if (t.after source).isOpen e.1 then [e] else [] := by
  rw [pass_append, pass_cons, pass_nil, List.append_nil]

/-- What passes a fresh throttle is the greedy choice, and nothing else is. -/
theorem greedy_iff : Greedy interval source passed ↔ passed = (fresh interval).pass source := by
  constructor
  · intro h
    induction h with
    | nil => rfl
    | @taken source passed e past hfar ih =>
        subst ih
        rw [pass_concat, if_pos ((isOpen_after_fresh interval source e.1).2 hfar)]
    | @dropped source passed e p past hlast hnear ih =>
        subst ih
        have hshut : ((fresh interval).after source).isOpen e.1 ≠ true := fun hopen =>
          absurd ((isOpen_after_fresh interval source e.1).1 hopen p hlast) (by omega)
        rw [pass_concat, if_neg hshut, List.append_nil]
  · rintro rfl
    induction source using List.reverseRecOn with
    | nil => exact .nil
    | append_singleton source e ih =>
        rw [pass_concat]
        split
        · next hopen => exact .taken ih ((isOpen_after_fresh interval source e.1).1 hopen)
        · next hshut =>
          rw [isOpen_after_fresh] at hshut
          push Not at hshut
          obtain ⟨p, hlast, hnear⟩ := hshut
          rw [List.append_nil]
          exact .dropped ih hlast (by omega)

/-! ## No choice gets ahead -/

theorem Greedy.sublist (h : Greedy interval source passed) : passed.Sublist source :=
  greedy_iff.1 h ▸ pass_sublist _ _

/-- Any other choice of items that are an interval apart has fewer items than the greedy one, or
as many and then does not end earlier. -/
theorem Greedy.ahead (h : Greedy interval source passed)
    (hsource : source.Pairwise (fun a b => a.1 ≤ b.1)) {sub : List (Nat × α)}
    (hsub : sub.Sublist source) (hspaced : Spaced interval sub) :
    sub.length < passed.length ∨ (sub.length = passed.length ∧
      ∀ p q, passed.getLast? = some p → sub.getLast? = some q → p.1 ≤ q.1) := by
  induction h generalizing sub with
  | nil =>
      rw [List.sublist_nil.1 hsub]
      exact .inr ⟨rfl, fun p q hp => absurd hp (by simp only [List.getLast?_nil, reduceCtorEq,
        not_false_eq_true])⟩
  | @taken source passed e past hfar ih =>
      rw [List.pairwise_append] at hsource
      rw [List.length_append, List.length_singleton]
      obtain ⟨sub, tail, rfl, hpast, htail⟩ := List.sublist_append_iff.1 hsub
      have hfront := ih hsource.1 hpast (List.isChain_append.1 hspaced).1
      rcases List.sublist_singleton.1 htail with rfl | rfl
      · rw [List.append_nil]
        exact .inl (by omega)
      -- Both have taken the item.
      · rw [List.length_append, List.length_singleton]
        rcases hfront with hless | ⟨heq, -⟩
        · exact .inl (by omega)
        · refine .inr ⟨by omega, fun p q hp hq => ?_⟩
          rw [List.getLast?_concat, Option.some.injEq] at hp hq
          rw [← hp, ← hq]
  | @dropped source passed e p past hlast hnear ih =>
      rw [List.pairwise_append] at hsource
      obtain ⟨sub, tail, rfl, hpast, htail⟩ := List.sublist_append_iff.1 hsub
      have hchain := List.isChain_append.1 hspaced
      have hfront := ih hsource.1 hpast hchain.1
      rcases List.sublist_singleton.1 htail with rfl | rfl
      · rwa [List.append_nil]
      · have hp : p ∈ source := past.sublist.mem (List.mem_of_getLast? hlast)
        rw [List.length_append, List.length_singleton]
        -- Had the other choice as many before, its last one would be as near as the throttle's.
        have hless : sub.length < passed.length := by
          rcases hfront with hless | ⟨heq, hends⟩
          · exact hless
          · have hne : sub ≠ [] := fun hnil => by
              rw [hnil, List.length_nil, eq_comm, List.length_eq_zero_iff] at heq
              rw [heq] at hlast
              exact absurd hlast (by simp only [List.getLast?_nil, reduceCtorEq,
                not_false_eq_true])
            have hq := List.getLast?_eq_some_getLast hne
            have hahead := hends p _ hlast hq
            have hgap := hchain.2.2 _ hq e rfl
            omega
        by_cases hmore : sub.length + 1 < passed.length
        · exact .inl hmore
        · refine .inr ⟨by omega, fun a b ha hb => ?_⟩
          rw [hlast, Option.some.injEq] at ha
          rw [List.getLast?_concat, Option.some.injEq] at hb
          rw [← ha, ← hb]
          exact hsource.2.2 p hp e (List.mem_singleton_self e)

/-- No items of a source that are an interval apart are more than those that pass. -/
theorem length_le_pass (hsource : source.Pairwise (fun a b => a.1 ≤ b.1)) {sub : List (Nat × α)}
    (hsub : sub.Sublist source) (hspaced : Spaced interval sub) :
    sub.length ≤ ((fresh interval).pass source).length := by
  rcases Greedy.ahead (greedy_iff.2 rfl) hsource hsub hspaced with hless | ⟨heq, -⟩
  · exact hless.le
  · exact heq.le

/-! ## One item -/

/-- An item passes in its place, or comes less than an interval after one that has passed. -/
theorem exists_pass_split (interval : Nat) {front back : List (Nat × α)}
    (hsource : (front ++ e :: back).Pairwise (fun a b => a.1 ≤ b.1)) :
    ∃ rest, rest.Sublist back ∧
      ((fresh interval).pass (front ++ e :: back) = (fresh interval).pass front ++ e :: rest ∨
        ((fresh interval).pass (front ++ e :: back) = (fresh interval).pass front ++ rest ∧
          ∃ p ∈ (fresh interval).pass front, p.1 ≤ e.1 ∧ e.1 < p.1 + interval)) := by
  refine ⟨_, pass_sublist (((fresh interval).after front).offer e.1).2 back, ?_⟩
  rw [pass_append, pass_cons]
  split
  · exact .inl rfl
  · next hshut =>
    rw [isOpen_after_fresh] at hshut
    push Not at hshut
    obtain ⟨p, hlast, hnear⟩ := hshut
    have hpassed := List.mem_of_getLast? hlast
    have hp : p.1 ≤ e.1 := (List.pairwise_append.1 hsource).2.2 p
      ((pass_sublist _ front).mem hpassed) e List.mem_cons_self
    exact .inr ⟨rfl, p, hpassed, hp, hnear⟩

end Bourse.Throttle
