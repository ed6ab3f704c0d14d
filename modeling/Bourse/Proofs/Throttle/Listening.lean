import Bourse.Proofs.Throttle.Passing
import Bourse.Stream
import Bourse.Time.Instant

/-!
# Listening Through a Throttle

A throttled stream looks at the clock only when it is asked. It takes items from its source
until one passes, and drops the others there and then, so that an item counts at the time
when it is taken out and not when the source had it ready. For someone who looks whenever an
item arrives there is no difference: what is heard, and when, is what passes a throttle at
the times of the source, however often else they look.

## Main definitions

* `Throttled`: a source behind a throttle.
* `Throttled.next`: one look for an item.
* `Throttled.listen`: everything that is heard at some times.

## Theorems

* `drain_next`: what is heard at once.
* `listen_eq`: what is heard by looking whenever an item arrives.
* `heard_of_listening`: it is the greedy choice, and no spaced choice is longer.
-/

namespace Bourse

variable {α : Type}

/-- A source of items with their times that ends at a time, behind a throttle. -/
structure Throttled (α : Type) where
  throttle : Throttle
  /-- What the source has not brought yet. -/
  coming : List (Nat × α)
  ends : Nat

/-- What has been heard, each item at the time it was heard, and when the end was found. -/
structure Heard (α : Type) where
  items : List (Nat × α)
  finish : Option Nat

namespace Throttled

/-! ## Looking -/

/-- Takes items from the source until one passes, there is none yet or the source has ended. -/
def scan (now ends : Nat) (t : Throttle) : List (Nat × α) → Received α × Throttled α
  | [] => (if ends ≤ now then .ended else .pending, ⟨t, [], ends⟩)
  | e :: rest =>
    if e.1 ≤ now then
      match t.offer now with
      | (true, t) => (.item e.2, ⟨t, rest, ends⟩)
      | (false, t) => scan now ends t rest
    else (.pending, ⟨t, e :: rest, ends⟩)

/-- One look for an item that passes. -/
def next (now : Nat) (s : Throttled α) : Received α × Throttled α :=
  scan now s.ends s.throttle s.coming

/-- Takes all items that pass at a time. -/
def drain (now : Nat) (s : Throttled α) : Drained α × Throttled α :=
  Bourse.drain (next now) (s.coming.length + 1) none s

/-- Looks at some times, one after the other, until the end is found. -/
def listen : List Nat → Throttled α → Heard α
  | [], _ => ⟨[], none⟩
  | now :: later, s =>
    let (d, s) := s.drain now
    let items := d.items.map (now, ·)
    if d.stop = .ended then ⟨items, some now⟩
    else
      let h := listen later s
      { h with items := items ++ h.items }

/-! ## One time -/

variable {now ends : Nat} {t : Throttle}

theorem next_cons {e : Nat × α} (hnow : e.1 ≤ now) (rest : List (Nat × α)) :
    next now ⟨t, e :: rest, ends⟩ =
      if t.isOpen now then (.item e.2, ⟨(t.offer now).2, rest, ends⟩)
      else next now ⟨t, rest, ends⟩ := by
  rw [next, scan, if_pos hnow, Throttle.offer]
  cases t.isOpen now <;> rfl

/-- All that is heard at a time is what passes of the items that arrive then, and the end is found
when nothing is to come. -/
theorem drain_next {same rest : List (Nat × α)} (hsame : ∀ e ∈ same, e.1 = now)
    (hrest : ∀ e ∈ rest, now < e.1) {fuel : Nat} (hfuel : same.length < fuel) :
    Bourse.drain (next now) fuel none ⟨t, same ++ rest, ends⟩ =
      (⟨(t.pass same).map (·.2), if rest = [] ∧ ends ≤ now then .ended else .pending⟩,
        ⟨t.after same, rest, ends⟩) := by
  induction same generalizing t fuel with
  | nil =>
      obtain ⟨fuel, rfl⟩ := Nat.exists_eq_add_of_lt hfuel
      rw [Bourse.drain, if_neg (by simp only [reduceCtorEq, not_false_eq_true]), next]
      cases rest with
      | nil => by_cases hends : ends ≤ now <;> simp [scan, hends, Throttle.pass, Throttle.after]
      | cons e rest =>
          have hlate : ¬e.1 ≤ now := Nat.not_le.2 (hrest e List.mem_cons_self)
          simp [scan, hlate, Throttle.pass, Throttle.after]
  | cons e same ih =>
      rw [List.forall_mem_cons] at hsame
      obtain ⟨rfl, hsame⟩ := hsame
      rw [List.length_cons] at hfuel
      obtain ⟨fuel, rfl⟩ : ∃ n, fuel = n + 1 := ⟨fuel - 1, by omega⟩
      rw [List.cons_append, Throttle.pass, Throttle.after]
      cases hopen : t.isOpen e.1 with
      | true =>
          rw [Bourse.drain, if_neg (by simp only [reduceCtorEq, not_false_eq_true]),
            next_cons le_rfl, if_pos hopen, if_pos rfl, List.map_cons]
          simp only [Option.map_none]
          rw [ih hsame (by omega)]
      | false =>
          -- A dropped item is taken in the same look as what comes next.
          have hskip : next e.1 ⟨t, e :: (same ++ rest), ends⟩ =
              next e.1 ⟨t, same ++ rest, ends⟩ := by
            rw [next_cons le_rfl, hopen, if_neg Bool.false_ne_true]
          have hdrain : Bourse.drain (next e.1) (fuel + 1) none ⟨t, e :: (same ++ rest), ends⟩ =
              Bourse.drain (next e.1) (fuel + 1) none ⟨t, same ++ rest, ends⟩ := by
            simp only [Bourse.drain, hskip, reduceCtorEq, if_false]
          rw [if_neg Bool.false_ne_true, Throttle.offer, hopen, if_neg Bool.false_ne_true, hdrain]
          exact ih hsame (by omega)

/-! ## All times -/

/-- What arrives until a time stands before what arrives later. -/
theorem exists_split_at {source : List (Nat × α)}
    (hsource : source.Pairwise (fun a b => a.1 ≤ b.1)) (now : Nat) :
    ∃ same rest, source = same ++ rest ∧ (∀ e ∈ same, e.1 ≤ now) ∧ ∀ e ∈ rest, now < e.1 := by
  induction source with
  | nil => exact ⟨[], [], rfl, List.forall_mem_nil _, List.forall_mem_nil _⟩
  | cons e l ih =>
      rw [List.pairwise_cons] at hsource
      by_cases he : e.1 ≤ now
      · obtain ⟨same, rest, rfl, hsame, hrest⟩ := ih hsource.2
        exact ⟨e :: same, rest, rfl, List.forall_mem_cons.2 ⟨he, hsame⟩, hrest⟩
      · have hlate := Nat.not_le.1 he
        exact ⟨[], e :: l, rfl, List.forall_mem_nil _,
          List.forall_mem_cons.2 ⟨hlate, fun e' he' => hlate.trans_le (hsource.1 e' he')⟩⟩

theorem map_time {now : Nat} {l : List (Nat × α)} (h : ∀ e ∈ l, e.1 = now) :
    (l.map (·.2)).map (now, ·) = l := by
  have hsame : ∀ e ∈ l, ((now, ·) ∘ (·.2)) e = id e := fun e he => Prod.ext (h e he).symm rfl
  rw [List.map_map, List.map_congr_left hsame, List.map_id]

/-- Whoever looks whenever an item arrives, and when the source ends, hears each item that passes at
its time and then the end. -/
theorem listen_eq {looks : List Nat} (hlooks : looks.Pairwise (· ≤ ·)) {source : List (Nat × α)}
    (hsource : source.Pairwise (fun a b => a.1 ≤ b.1)) (hends : ∀ e ∈ source, e.1 ≤ ends)
    (harrivals : ∀ e ∈ source, e.1 ∈ looks) (hend : ends ∈ looks) :
    listen looks ⟨t, source, ends⟩ = ⟨t.pass source, some ends⟩ := by
  induction looks generalizing t source with
  | nil => exact absurd hend List.not_mem_nil
  | cons now later ih =>
      rw [List.pairwise_cons] at hlooks
      have hfrom : ∀ {time}, time ∈ now :: later → now ≤ time := fun h =>
        (List.mem_cons.1 h).elim (fun h => h.ge) (hlooks.1 _)
      have hlater : ∀ {time}, now < time → time ∈ now :: later → time ∈ later := fun hlt h =>
        (List.mem_cons.1 h).resolve_left hlt.ne'
      obtain ⟨same, rest, rfl, hsame, hrest⟩ := exists_split_at hsource now
      rw [List.forall_mem_append] at hends harrivals
      have hsame : ∀ e ∈ same, e.1 = now := fun e he =>
        (hsame e he).antisymm (hfrom (harrivals.1 e he))
      have htimes : ((t.pass same).map (·.2)).map (now, ·) = t.pass same :=
        map_time (fun e he => hsame e ((Throttle.pass_sublist t same).mem he))
      rw [listen, drain, drain_next hsame hrest (by rw [List.length_append]; omega)]
      simp only [htimes, Throttle.pass_append]
      by_cases hover : rest = [] ∧ ends ≤ now
      · obtain ⟨rfl, hover⟩ := hover
        simp [hover.antisymm (hfrom hend), Throttle.pass]
      · have hlate : now < ends := by
          by_contra hearly
          rcases List.eq_nil_or_concat rest with rfl | ⟨front, e, rfl⟩
          · exact hover ⟨rfl, Nat.not_lt.1 hearly⟩
          · have he : e ∈ front.concat e := List.concat_eq_append ▸ List.mem_concat_self
            exact hearly ((hrest e he).trans_le (hends.2 e he))
        rw [if_neg hover, ih hlooks.2 (List.pairwise_append.1 hsource).2.1 hends.2
          (fun e he => hlater (hrest e he) (harrivals.2 e he)) (hlater hlate hend)]
        simp

/-- Whoever looks whenever an item arrives hears the greedy choice, each item when it arrives, and
the end when the source ends: the first item, and of the others each that arrives at least an
interval after the last one heard. So what is heard is an interval apart, in order and taken from
the source once; an item that is not heard arrives less than an interval after one that is; no
items of the source that are an interval apart are more. Each time that the throttle reckons with is an
instant if an interval after the end is one. -/
theorem heard_of_listening (interval : Nat) {source : List (Nat × α)} {ends : Nat}
    {looks : List Nat} (hsource : source.Pairwise (fun a b => a.1 ≤ b.1))
    (hends : ∀ e ∈ source, e.1 ≤ ends) (hlooks : looks.Pairwise (· ≤ ·))
    (harrivals : ∀ e ∈ source, e.1 ∈ looks) (hend : ends ∈ looks) :
    let heard := (Throttle.fresh interval).pass source
    listen looks ⟨Throttle.fresh interval, source, ends⟩ = ⟨heard, some ends⟩ ∧
      (∀ l, Throttle.Greedy interval source l ↔ l = heard) ∧
      Throttle.Spaced interval heard ∧
      heard.Sublist source ∧
      (∀ front e back, source = front ++ e :: back → ∃ rest, rest.Sublist back ∧
        (heard = (Throttle.fresh interval).pass front ++ e :: rest ∨
          (heard = (Throttle.fresh interval).pass front ++ rest ∧
            ∃ p ∈ (Throttle.fresh interval).pass front, p.1 ≤ e.1 ∧ e.1 < p.1 + interval))) ∧
      (∀ sub : List (Nat × α), sub.Sublist source → Throttle.Spaced interval sub →
        sub.length ≤ heard.length) ∧
      (isInstant (ends + interval) = true → ∀ e ∈ heard, isInstant (e.1 + interval) = true) := by
  refine ⟨listen_eq hlooks hsource hends harrivals hend, fun l => Throttle.greedy_iff,
    (Throttle.pass_spaced (Throttle.fresh interval) source).isChain,
    Throttle.pass_sublist _ source, ?_,
    fun sub hsub hspaced => Throttle.length_le_pass hsource hsub hspaced, fun hlast e he => ?_⟩
  · rintro front e back rfl
    exact Throttle.exists_pass_split interval hsource
  · have harrives : e.1 ≤ ends := hends e ((Throttle.pass_sublist _ source).subset he)
    exact isInstant_of_le hlast (Nat.add_le_add_right harrives interval)

/-- Two items at once, one just before the interval is over and two just then; looking more often
than needed makes no difference. -/
theorem heard_of_listening_bursts :
    let source := [(0, "a"), (0, "b"), (2, "c"), (3, "d"), (3, "e"), (5, "f")]
    listen [0, 0, 1, 2, 3, 5, 6, 7] ⟨Throttle.fresh 3, source, 7⟩ =
        ⟨[(0, "a"), (3, "d")], some 7⟩ ∧
      Throttle.Greedy 3 source [(0, "a"), (3, "d")] ∧
      ∀ sub : List (Nat × String), sub.Sublist source → Throttle.Spaced 3 sub → sub.length ≤ 2 := by
  have h := @heard_of_listening String 3
    [(0, "a"), (0, "b"), (2, "c"), (3, "d"), (3, "e"), (5, "f")] 7 [0, 0, 1, 2, 3, 5, 6, 7]
    (by decide) (by decide) (by decide) (by decide) (by decide)
  exact ⟨h.1, (h.2.1 _).2 rfl, h.2.2.2.2.2.1⟩

end Throttled

end Bourse
