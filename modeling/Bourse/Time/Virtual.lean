/-!
# Virtual Time

A system in virtual time has a clock that stands still while anything can happen
without it, and then jumps to the next time at which something is due. So a run of
many hours takes a few steps, and two runs of one system are alike.

## Main definitions

* `Virtual`: what has to be known of a system.
* `Virtual.runUntil`: lets time pass until something has happened.
* `Virtual.wait`: lets a span of time pass.

## Theorems

* `runUntil_of_done`, `await_of_done`: what has happened already takes no time.
-/

namespace Bourse

/-- A system whose time is moved from outside. -/
structure Virtual (σ : Type) where
  now : σ → Nat
  /-- The system after all that happens without time passing. -/
  settle : σ → σ
  /-- The earliest time at which something is due. -/
  next? : σ → Option Nat
  /-- The system at another time, before anything happens there. -/
  moved : Nat → σ → σ

namespace Virtual

/-- Lets time pass from `now` until `done` holds, or else until `stop`. Things due at the last
moment still happen. -/
def runUntil (v : Virtual σ) (done : σ → Bool) (stop now : Nat) (s : σ) : σ :=
  if done s then s
  else if now < stop then
    let t := min stop (max (now + 1) ((v.next? s).getD stop))
    runUntil v done stop t (v.settle (v.moved t s))
  else s
termination_by stop - now

theorem runUntil_of_done {v : Virtual σ} {done : σ → Bool} {stop now : Nat} {s : σ}
    (h : done s = true) : v.runUntil done stop now s = s := by
  rw [runUntil, if_pos h]

/-- Lets at most a span of time pass until `done` holds. -/
def await (v : Virtual σ) (done : σ → Bool) (ms : Nat) (s : σ) : σ :=
  let s := v.settle s
  v.runUntil done (v.now s + ms) (v.now s) s

theorem await_of_done {v : Virtual σ} {done : σ → Bool} {s : σ} (ms : Nat)
    (h : done (v.settle s) = true) : v.await done ms s = v.settle s :=
  runUntil_of_done h

/-- Lets a span of time pass. -/
def wait (v : Virtual σ) (ms : Nat) (s : σ) : σ :=
  v.await (fun _ => false) ms s

end Virtual

/-- The smaller of two times, where none is later than all others. -/
def earlier : Option Nat → Option Nat → Option Nat
  | some a, some b => some (min a b)
  | some a, none => some a
  | none, b => b

/-- The earliest of some times. -/
def earliest (l : List (Option Nat)) : Option Nat :=
  l.foldl earlier none

end Bourse
