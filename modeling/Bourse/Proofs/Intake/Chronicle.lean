import Bourse.Ingestor.Intake
import Bourse.Proofs.Feed.Tending
import Bourse.Proofs.Ingestor.Books
import Mathlib.Logic.Function.Basic

/-!
# Chronicles of an Intake

An intake in any order of its steps. The intake of the clients settles after each thing
they do, and lets time pass only then; a chronicle is a run in which the ingestors take
their turns when they like, a consumer may leave in the middle of a turn of somebody
else, and time may pass while there is still something to do. The feed does what it
likes: it accepts, sends, closes and fails, and each attempt takes its own time.

Along with the intake go the books of each ingestor and what was sent through each
connection. No step reads them.

## Main definitions

* `Intake.turnAt?`: the turn of one ingestor.
* `Intake.Action`: one step of anybody.
* `Chronicle`, `Chronicle.step?`, `Chronicle.run?`: an intake and its past.
* `Chronicle.Move`: what a step can be.
* `Chronicle.Kept`: the books of all ingestors are right.

## Theorems

* `step?_eq_some`: a step is one of five moves.
* `run?_induction`: what every move keeps, every run keeps.
* `kept_of_run?`: the books are right after every run.
* `terminated_of_run?`: an ingestor that has stopped has stopped for good.
-/

namespace Bourse

/-- The intake after one turn of an ingestor. -/
def Intake.turnAt? (m : Intake) (i : Nat) (branch : Ingestor.Branch) : Option Intake :=
  (m.ingestors[i]?).bind (fun w =>
    (w.turn? m.settings m.now m.feed branch).map (fun (_, moved) =>
      { m with
        feed := moved.feed
        ingestors := m.ingestors.set i moved.ingestor
        warnings := m.warnings ++ moved.warning.toList }))

/-- What the turn of one ingestor does to the intake. -/
theorem Intake.turnAt?_eq_some {m m' : Intake} {i : Nat} {branch : Ingestor.Branch}
    (h : m.turnAt? i branch = some m') : ∃ w e moved, m.ingestors[i]? = some w ∧
      w.turn? m.settings m.now m.feed branch = some (e, moved) ∧ m' = { m with
        feed := moved.feed
        ingestors := m.ingestors.set i moved.ingestor
        warnings := m.warnings ++ moved.warning.toList } := by
  rcases Option.bind_eq_some_iff.1 h with ⟨w, hw, hmap⟩
  rcases Option.map_eq_some_iff.1 hmap with ⟨⟨e, moved⟩, hmoved, rfl⟩
  exact ⟨w, e, moved, hw, hmoved, rfl⟩

/-- One step of anybody. -/
inductive Intake.Action where
  | turn (i : Nat) (branch : Ingestor.Branch)
  | tend (t : StagedFeed.Tending)
  /-- Time passes. -/
  | wait (ms : Nat)
  /-- The first attempt of an opening ends, with a stop signal that may have fired. -/
  | open (fired : Bool)
  | receive (i : Nat)
  /-- The consumer of an ingestor leaves. -/
  | leave (i : Nat)
  /-- An ingestor is told to stop. -/
  | tell (i : Nat)
deriving DecidableEq

/-- An intake and its past. -/
structure Chronicle where
  intake : Intake
  /-- The books of each ingestor. -/
  books : Nat → Ingestor.Books
  /-- The ticks sent through each connection, oldest first. -/
  sent : Nat → List RawTick

namespace Chronicle

open Intake (Action)

/-- The chronicle before the first opening. -/
def opened (settings : IngestorSettings) (buffer delay failures : Nat) : Chronicle :=
  ⟨.create settings (.create buffer delay failures), fun _ => .empty, fun _ => []⟩

/-- The chronicle with another intake, after something has happened to an ingestor. -/
def noted (k : Chronicle) (m : Intake) (i : Nat) (e : Ingestor.Event) : Chronicle :=
  { k with intake := m, books := Function.update k.books i ((k.books i).note e) }

/-- The chronicle after one step, where it can be taken. -/
def step? (k : Chronicle) : Action → Option Chronicle
  | .turn i branch =>
    match k.intake.ingestors[i]? with
    | some w =>
      (w.turn? k.intake.settings k.intake.now k.intake.feed branch).map (fun (e, m) =>
        k.noted { k.intake with
          feed := m.feed
          ingestors := k.intake.ingestors.set i m.ingestor
          warnings := k.intake.warnings ++ m.warning.toList } i e)
    | none => none
  | .tend t =>
    some { k with
      intake := { k.intake with feed := k.intake.feed.tend t }
      sent := fun c => k.sent c ++ k.intake.feed.sends c t }
  | .wait ms => some { k with intake := { k.intake with now := k.intake.now + ms } }
  | .open fired =>
    match k.intake.attempt fired with
    | (.opened i, m) => some (k.noted m i (.opened k.intake.feed.connections.length fired))
    | (_, m) => some { k with intake := m }
  | .receive i =>
    match k.intake.receive i with
    | (.item q, m) => some (k.noted m i (.received q))
    | _ => none
  | .leave i =>
    if i < k.intake.ingestors.length then
      some (k.noted (k.intake.change i (fun w => { w with consumed := false })) i .left)
    else none
  | .tell i =>
    if i < k.intake.ingestors.length then
      some (k.noted (k.intake.change i (fun w => { w with stopped := true })) i .told)
    else none

/-- The chronicle after some steps, where all of them can be taken. -/
def run? (k : Chronicle) : List Action → Option Chronicle
  | [] => some k
  | a :: rest =>
    match k.step? a with
    | some k => k.run? rest
    | none => none

/-- What a step can be, with all that it changes. -/
inductive Move (k : Chronicle) : Chronicle → Prop
  /-- Something happens to an ingestor. -/
  | happen (i : Nat) (w w' : Ingestor) (e : Ingestor.Event) (warnings : List String)
      (hw : k.intake.ingestors[i]? = some w) (hstep : w.Step k.intake.settings e w')
      (hfinds : k.intake.feed.Finds e) :
      Move k (k.noted { k.intake with
        feed := k.intake.feed.after e
        ingestors := k.intake.ingestors.set i w'
        warnings := warnings } i e)
  /-- An ingestor is started on a new connection. -/
  | start (c : Nat) (fired : Bool) (hconnect : k.intake.feed.connect.1 = .ok c) :
      Move k (k.noted { k.intake with
        feed := k.intake.feed.connect.2
        ingestors := k.intake.ingestors ++ [.start c fired] }
          k.intake.ingestors.length (.opened c fired))
  /-- An opening fails. At most a connection is left that nobody has. -/
  | refuse (feed : StagedFeed) (hgrown : k.intake.feed.connections <+: feed.connections) :
      Move k { k with intake := { k.intake with feed := feed } }
  | tend (t : StagedFeed.Tending) :
      Move k { k with
        intake := { k.intake with feed := k.intake.feed.tend t }
        sent := fun c => k.sent c ++ k.intake.feed.sends c t }
  | wait (ms : Nat) : Move k { k with intake := { k.intake with now := k.intake.now + ms } }

/-- An opening starts an ingestor on a new connection, or fails and leaves at most a connection that
nobody has. -/
theorem cases_of_attempt (m : Intake) (fired : Bool) :
    (m.feed.connect.1 = .ok m.feed.connections.length ∧
      m.attempt fired = (.opened m.ingestors.length, { m with
        feed := m.feed.connect.2
        ingestors := m.ingestors ++ [.start m.feed.connections.length fired] })) ∨
    ∃ r feed, m.attempt fired = (r, { m with feed }) ∧ (∀ i, r ≠ .opened i) ∧
      m.feed.connections <+: feed.connections := by
  unfold Intake.attempt
  split
  · cases hconnect : m.feed.connect with
    | mk r feed =>
        have hcases := StagedFeed.cases_of_connect m.feed
        rw [hconnect] at hcases
        simp only [] at hcases
        rcases hcases with ⟨rfl, hnew⟩ | ⟨⟨e, rfl⟩, hsame⟩
        · simp only []
          split
          · exact Or.inl ⟨trivial, rfl⟩
          · exact Or.inr ⟨_, _, rfl, fun _ h => Opening.noConfusion h,
              StagedFeed.isPrefix_release hnew⟩
        · exact Or.inr ⟨_, _, rfl, fun _ h => Opening.noConfusion h, hsame ▸ List.prefix_refl _⟩
  · exact Or.inr ⟨_, _, rfl, fun _ h => Opening.noConfusion h, List.prefix_refl _⟩

theorem change_eq_set {m : Intake} {i : Nat} {w : Ingestor} (hw : m.ingestors[i]? = some w)
    (g : Ingestor → Ingestor) : m.change i g = { m with ingestors := m.ingestors.set i (g w) } := by
  rw [Intake.change, List.modify_eq_set_getElem?, hw]
  rfl

theorem receive_eq_item {m m' : Intake} {i : Nat} {q : Quote} (h : m.receive i = (.item q, m')) :
    ∃ w rest, m.ingestors[i]? = some w ∧ w.output = q :: rest ∧
      m' = { m with ingestors := m.ingestors.set i { w with output := rest } } := by
  unfold Intake.receive at h
  split at h
  · exact absurd (Prod.mk.inj h).1 (by simp only [reduceCtorEq, not_false_eq_true])
  · next w hw =>
    unfold Ingestor.receive at h
    cases houtput : w.output with
    | nil =>
        rw [houtput] at h
        simp only [] at h
        split at h
        · exact absurd (Prod.mk.inj h).1 (by simp only [reduceCtorEq, not_false_eq_true])
        · exact absurd (Prod.mk.inj h).1 (by simp only [reduceCtorEq, not_false_eq_true])
    | cons q' rest =>
        rw [houtput] at h
        rcases Prod.mk.inj h with ⟨hq, rfl⟩
        cases hq
        exact ⟨w, rest, hw, houtput, rfl⟩

variable {k k' : Chronicle} {i : Nat} {w : Ingestor}

/-- An ingestor whose number has no step can take none. -/
theorem rest_of_stepAt? {m : Intake} (hw : m.ingestors[i]? = some w)
    (hrest : m.stepAt? i = none) : w.step? m.settings m.now m.feed = none := by
  cases hstep : w.step? m.settings m.now m.feed with
  | none => rfl
  | some moved =>
      simp only [Intake.stepAt?, hw, hstep, Option.bind_eq_bind, Option.bind_some,
        reduceCtorEq] at hrest

/-- A step is one of the five moves. -/
theorem step?_eq_some {a : Action} (h : k.step? a = some k') : Move k k' := by
  cases a with
  | turn i branch =>
      simp only [step?] at h
      split at h
      · next w hw =>
        rcases Option.map_eq_some_iff.1 h with ⟨⟨e, m⟩, hturn, rfl⟩
        rcases Ingestor.turn?_eq_some hturn with ⟨hstep, hfeed, hfinds, -⟩
        rw [hfeed]
        exact .happen i w m.ingestor e _ hw hstep hfinds
      · exact absurd h (by simp only [reduceCtorEq, not_false_eq_true])
  | tend t =>
      rw [← Option.some.inj h]
      exact .tend t
  | wait ms =>
      rw [← Option.some.inj h]
      exact .wait ms
  | «open» fired =>
      rcases cases_of_attempt k.intake fired with ⟨hconnect, hr⟩ | ⟨r, feed, hr, hnot, hgrown⟩
      · simp only [step?, hr] at h
        rw [← Option.some.inj h]
        exact .start _ fired hconnect
      · have hsame : k' = { k with intake := { k.intake with feed := feed } } := by
          simp only [step?, hr] at h
          cases r with
          | opened i => exact absurd rfl (hnot i)
          | _ => exact (Option.some.inj h).symm
        rw [hsame]
        exact .refuse feed hgrown
  | receive i =>
      simp only [step?] at h
      split at h
      · next q m hq =>
        rcases receive_eq_item hq with ⟨w, rest, hw, houtput, rfl⟩
        rw [← Option.some.inj h]
        exact .happen i w _ _ k.intake.warnings hw (.received q rest houtput) trivial
      · exact absurd h (by simp only [reduceCtorEq, not_false_eq_true])
  | leave i =>
      simp only [step?] at h
      split at h
      · next hlt =>
        have hw := List.getElem?_eq_getElem hlt
        rw [← Option.some.inj h, change_eq_set hw]
        exact .happen i _ _ _ k.intake.warnings hw .left trivial
      · exact absurd h (by simp only [reduceCtorEq, not_false_eq_true])
  | tell i =>
      simp only [step?] at h
      split at h
      · next hlt =>
        have hw := List.getElem?_eq_getElem hlt
        rw [← Option.some.inj h, change_eq_set hw]
        exact .happen i _ _ _ k.intake.warnings hw .told trivial
      · exact absurd h (by simp only [reduceCtorEq, not_false_eq_true])

/-- What holds at first and is kept by every move holds after every run. -/
theorem run?_induction (P : Chronicle → Prop) (hmove : ∀ k k', P k → Move k k' → P k')
    {actions : List Action} (hfirst : P k) (h : k.run? actions = some k') : P k' := by
  -- On the actions, from any chronicle: the first step is a move and the rest is a shorter run.
  induction actions generalizing k with
  | nil =>
      rw [← Option.some.inj h]
      exact hfirst
  | cons a rest ih =>
      rw [run?] at h
      split at h
      · next next hnext => exact ih (hmove k next hfirst (step?_eq_some hnext)) h
      · exact absurd h (by simp only [reduceCtorEq, not_false_eq_true])

/-! ## The books of all ingestors -/

/-- The books of each ingestor are right, and nothing is written of one that is still to come. -/
structure Kept (k : Chronicle) : Prop where
  faithful : ∀ i w, k.intake.ingestors[i]? = some w →
    Ingestor.Faithful k.intake.settings w (k.books i)
  balanced : ∀ i w, k.intake.ingestors[i]? = some w → Ingestor.Balanced w (k.books i)
  fresh : ∀ i, k.intake.ingestors.length ≤ i → k.books i = .empty

theorem kept_opened (settings : IngestorSettings) (buffer delay failures : Nat) :
    (opened settings buffer delay failures).Kept :=
  ⟨fun _ _ hw => absurd hw (by
      simp only [opened, Intake.create, List.getElem?_nil, reduceCtorEq, not_false_eq_true]),
    fun _ _ hw => absurd hw (by
      simp only [opened, Intake.create, List.getElem?_nil, reduceCtorEq, not_false_eq_true]),
    fun _ _ => rfl⟩

/-- What is true of each ingestor with its books is still true after one of them has changed. -/
theorem forall_of_set {P : Ingestor → Ingestor.Books → Prop} {w' : Ingestor} {b : Ingestor.Books}
    (h : ∀ j v, j ≠ i → k.intake.ingestors[j]? = some v → P v (k.books j))
    (hw : k.intake.ingestors[i]? = some w) (hP : P w' b) {j : Nat} {v : Ingestor}
    (hv : (k.intake.ingestors.set i w')[j]? = some v) : P v (Function.update k.books i b j) := by
  by_cases hj : j = i
  · subst hj
    rw [List.getElem?_set_self (List.getElem?_eq_some_iff.1 hw).1] at hv
    rw [Function.update_self, ← Option.some.inj hv]
    exact hP
  · rw [List.getElem?_set_ne (Ne.symm hj)] at hv
    rw [Function.update_of_ne hj]
    exact h j v hj hv

/-- It is true after one has been started, if it is true of that one. -/
theorem forall_of_concat {P : Ingestor → Ingestor.Books → Prop} {b : Ingestor.Books}
    (h : ∀ j v, k.intake.ingestors[j]? = some v → P v (k.books j)) (hP : P w b) {j : Nat}
    {v : Ingestor} (hv : (k.intake.ingestors ++ [w])[j]? = some v) :
    P v (Function.update k.books k.intake.ingestors.length b j) := by
  rcases Nat.lt_trichotomy j k.intake.ingestors.length with hj | hj | hj
  · rw [List.getElem?_append_left hj] at hv
    rw [Function.update_of_ne (Nat.ne_of_lt hj)]
    exact h j v hv
  · rw [hj, List.getElem?_concat_length] at hv
    rw [hj, Function.update_self, ← Option.some.inj hv]
    exact hP
  · have hlength : (k.intake.ingestors ++ [w]).length ≤ j := by
      rw [List.length_append, List.length_singleton]
      exact hj
    rw [List.getElem?_eq_none hlength] at hv
    exact absurd hv (by simp only [reduceCtorEq, not_false_eq_true])

theorem kept_of_move (hk : k.Kept) (h : Move k k') : k'.Kept := by
  cases h with
  | happen i w w' e warnings hw hstep hfinds =>
      refine ⟨fun j v hv => ?_, fun j v hv => ?_, fun j hj => ?_⟩
      · exact forall_of_set (fun j v _ => hk.faithful j v) hw
          (Ingestor.faithful_of_step (hk.faithful i w hw) hstep) hv
      · exact forall_of_set (fun j v _ => hk.balanced j v) hw
          (Ingestor.balanced_of_step (hk.balanced i w hw) hstep) hv
      · simp only [noted, List.length_set] at hj ⊢
        have hlt := (List.getElem?_eq_some_iff.1 hw).1
        rw [Function.update_of_ne (by omega)]
        exact hk.fresh j hj
  | start c fired hconnect =>
      have hempty := hk.fresh _ (Nat.le_refl _)
      refine ⟨fun j v hv => ?_, fun j v hv => ?_, fun j hj => ?_⟩
      · refine forall_of_concat hk.faithful ?_ hv
        rw [hempty]
        exact Ingestor.faithful_start k.intake.settings c fired
      · refine forall_of_concat hk.balanced ?_ hv
        rw [hempty]
        exact Ingestor.balanced_start c fired
      · simp only [noted, List.length_append, List.length_singleton] at hj ⊢
        rw [Function.update_of_ne (by omega)]
        exact hk.fresh j (Nat.le_of_succ_le hj)
  | refuse feed hgrown => exact ⟨hk.faithful, hk.balanced, hk.fresh⟩
  | tend t => exact ⟨hk.faithful, hk.balanced, hk.fresh⟩
  | wait ms => exact ⟨hk.faithful, hk.balanced, hk.fresh⟩

theorem kept_of_run? {settings : IngestorSettings} {buffer delay failures : Nat}
    {actions : List Action} (h : (opened settings buffer delay failures).run? actions = some k) :
    k.Kept :=
  run?_induction Kept (fun _ _ => kept_of_move) (kept_opened settings buffer delay failures) h

/-! ## One ingestor in the course of time -/

/-- An ingestor stays, and one that has stopped has stopped for good. -/
theorem terminated_of_move (hw : k.intake.ingestors[i]? = some w) (h : Move k k') :
    ∃ w', k'.intake.ingestors[i]? = some w' ∧
      (w.state = .terminated → w'.state = .terminated) := by
  cases h with
  | happen j v v' e warnings hv hstep hfinds =>
      by_cases hj : i = j
      · subst hj
        refine ⟨v', List.getElem?_set_self (List.getElem?_eq_some_iff.1 hv).1, fun hended => ?_⟩
        rw [hw] at hv
        exact Ingestor.terminated_of_step (Option.some.inj hv ▸ hended) hstep
      · exact ⟨w, (List.getElem?_set_ne (Ne.symm hj)).trans hw, id⟩
  | start c fired hconnect =>
      exact ⟨w, (List.getElem?_append_left (List.getElem?_eq_some_iff.1 hw).1).trans hw, id⟩
  | refuse feed hgrown => exact ⟨w, hw, id⟩
  | tend t => exact ⟨w, hw, id⟩
  | wait ms => exact ⟨w, hw, id⟩

theorem terminated_of_run? (hw : k.intake.ingestors[i]? = some w) {actions : List Action}
    (h : k.run? actions = some k') :
    ∃ w', k'.intake.ingestors[i]? = some w' ∧
      (w.state = .terminated → w'.state = .terminated) := by
  refine run?_induction (fun k' => ∃ w', k'.intake.ingestors[i]? = some w' ∧
      (w.state = .terminated → w'.state = .terminated)) (fun k₁ k₂ hk hmove => ?_) ⟨w, hw, id⟩ h
  rcases hk with ⟨w₁, hw₁, hended⟩
  rcases terminated_of_move hw₁ hmove with ⟨w₂, hw₂, hkept⟩
  exact ⟨w₂, hw₂, fun h => hkept (hended h)⟩

end Chronicle

end Bourse
