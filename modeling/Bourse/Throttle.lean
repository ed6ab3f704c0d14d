/-!
# Throttling

A throttle lets an item pass if none has passed yet or if the last one passed at
least an interval ago. Items in between are dropped and never held back, so whoever
listens to the passed ones always hears recent news.

The time from which on the next item passes is an interval after the last one that passed. No
limit is set to it here, so a throttle is one only of items that come an interval before the last
instant.

## Main definitions

* `Throttle`: the interval, and from when on the next item passes.
* `Throttle.offer`: whether an item passes, and the throttle after it.
* `Throttle.pass`: the items of a timed list that pass.

## Theorems

* `pass_nil`, `pass_cons`: the two equations of `pass`.
-/

namespace Bourse

/-- An interval, and the time from which on the next item passes; none before the first item. -/
structure Throttle where
  interval : Nat
  next : Option Nat
deriving DecidableEq, Repr

namespace Throttle

/-- A throttle that has seen no item. -/
def fresh (interval : Nat) : Throttle := ⟨interval, none⟩

/-- Whether an item that arrives at a time passes. -/
def isOpen (t : Throttle) (now : Nat) : Bool :=
  match t.next with
  | none => true
  | some n => n ≤ now

/-- Whether an item passes, and the throttle after it. -/
def offer (t : Throttle) (now : Nat) : Bool × Throttle :=
  if t.isOpen now then (true, { t with next := some (now + t.interval) }) else (false, t)

/-- The items of a list with their times that pass. -/
def pass (t : Throttle) : List (Nat × α) → List (Nat × α)
  | [] => []
  | e :: rest =>
    if t.isOpen e.1 then e :: pass (t.offer e.1).2 rest else pass t rest

theorem pass_nil (t : Throttle) : t.pass ([] : List (Nat × α)) = [] := rfl

theorem pass_cons (t : Throttle) (e : Nat × α) (l : List (Nat × α)) :
    t.pass (e :: l) = (if t.isOpen e.1 then [e] else []) ++ (t.offer e.1).2.pass l := by
  by_cases h : t.isOpen e.1 <;> simp [pass, offer, h]

end Throttle

end Bourse
