import Bourse.Proofs.Intake.Delivery

/-!
# When the Consumer Leaves

An ingestor whose consumer has left stops wherever it waits: for the next tick, for room in the
buffer, or for the end of a pause. Only an attempt to connect is seen through, however long it
takes, because while it connects the ingestor listens to the stop signal alone. In this it
differs from the other places where it waits. It has no connection in the meantime, and the
attempt is its last one: what it brings is let go of as soon as it is there, and after a failure
the ingestor does not wait to try again.

## Main definitions

* `Ingestor.Leaving`: a consumer has left, and no attempt is under way any more.
* `Intake.Action.isInstant`: steps that need no time.

## Theorems

* `phase_of_rest`: where an ingestor without a consumer can be at rest.
* `leaving_of_turn?`, `leaving_of_run?`: no new attempt is begun.
* `left_of_run`: what becomes of an ingestor without a consumer in any run.
* `not_terminated_of_leaving`: an attempt under way is seen through.
-/

namespace Bourse

namespace Ingestor

variable {s : IngestorSettings} {now : Nat} {f : StagedFeed} {w : Ingestor}

/-- An ingestor without a consumer that is at rest has stopped, unless an attempt to connect takes
its time. -/
theorem phase_of_rest (hleft : w.consumed = false) (hrest : w.step? s now f = none) :
    w.phase = .terminated ∨
      ∃ due, w.phase = .connecting due ∧ now < due ∧ w.stopped = false := by
  have hunwanted : w.isUnwanted = true := by rw [isUnwanted, hleft, Bool.not_false, Bool.or_true]
  cases hphase : w.phase with
  | connecting due =>
      simp only [step?, hphase] at hrest
      split at hrest
      · exact absurd hrest (Option.some_ne_none _)
      · next hstopped =>
        split at hrest
        · exact absurd hrest (Option.some_ne_none _)
        · next hearly =>
          exact .inr ⟨due, rfl, Nat.lt_of_not_le hearly, Bool.eq_false_iff.2 hstopped⟩
  | terminated => exact .inl rfl
  | _ =>
      simp only [step?, hphase, hunwanted, if_true, reduceCtorEq] at hrest

/-- The consumer of an ingestor has left, no attempt takes any more time, and no pause is over. -/
structure Leaving (now : Nat) (w : Ingestor) : Prop where
  left : w.consumed = false
  tried : ∀ due, w.phase = .connecting due → due ≤ now
  paused : ∀ due, w.phase = .waiting due → now < due

/-- Such an ingestor has stopped when it is at rest. -/
theorem Leaving.terminated (h : w.Leaving now) (hrest : w.step? s now f = none) :
    w.state = .terminated := by
  rcases phase_of_rest h.left hrest with hphase | ⟨due, hphase, hearly, -⟩
  · rw [state, hphase]
  · exact absurd (h.tried due hphase) (Nat.not_le_of_lt hearly)

theorem phase_of_terminated (h : w.state = .terminated) : w.phase = .terminated := by
  cases hphase : w.phase with
  | terminated => rfl
  | _ =>
      rw [state, hphase] at h
      exact IngestorState.noConfusion h

/-- What changes neither the phase nor whether there is a consumer leaves it so. -/
theorem Leaving.of_same {v : Ingestor} (h : w.Leaving now) (hphase : v.phase = w.phase)
    (hconsumed : v.consumed = w.consumed) : v.Leaving now :=
  ⟨hconsumed.trans h.left, fun due hdue => h.tried due (hphase.symm.trans hdue),
    fun due hdue => h.paused due (hphase.symm.trans hdue)⟩

/-- Such an ingestor does not begin an attempt in any of its turns, if there are pauses at all. -/
theorem leaving_of_turn? {b : Branch} {e : Event} {m : Moved} (hbackoff : 0 < s.backoff)
    (h : w.Leaving now) (hturn : w.turn? s now f b = some (e, m)) : m.ingestor.Leaving now := by
  cases b with
  | stop =>
      rcases cases_of_stop hturn with ⟨-, -, rfl⟩
      exact ⟨h.left, fun _ hdue => Phase.noConfusion hdue, fun _ hdue => Phase.noConfusion hdue⟩
  | goOn =>
      rcases cases_of_goOn hturn with ⟨c, t, hphase, -, -, rfl⟩ | ⟨c, hphase, -, -, -, rfl⟩ |
        ⟨c, q, -, -, -, -, rfl⟩ | ⟨due, hphase, hdue, -, rfl⟩ | ⟨due, hphase, -, rfl, hend⟩
      · unfold takeTick
        cases t.decode s.symbols with
        | ok q =>
            exact ⟨h.left, fun _ hdue => Phase.noConfusion hdue,
              fun _ hdue => Phase.noConfusion hdue⟩
        | error fault => exact h.of_same rfl rfl
      · refine ⟨h.left, fun _ hdue => Phase.noConfusion hdue, fun due hdue => ?_⟩
        rw [← Phase.waiting.inj hdue]
        exact Nat.lt_add_of_pos_right hbackoff
      · exact ⟨h.left, fun _ hdue => Phase.noConfusion hdue, fun _ hdue => Phase.noConfusion hdue⟩
      · exact absurd hdue (Nat.not_le_of_lt (h.paused due hphase))
      · rcases hend with ⟨c, hconnect, -⟩ | ⟨fault, hconnect, -⟩
        · rw [reconnect_of_ok hconnect]
          exact ⟨h.left, fun _ hdue => Phase.noConfusion hdue,
            fun _ hdue => Phase.noConfusion hdue⟩
        · rw [reconnect_of_error hconnect]
          refine ⟨h.left, fun _ hdue => Phase.noConfusion hdue, fun due hdue => ?_⟩
          rw [← Phase.waiting.inj hdue]
          exact Nat.lt_add_of_pos_right hbackoff

end Ingestor

/-- Whether a step needs no time. -/
def Intake.Action.isInstant : Intake.Action → Bool
  | .wait _ => false
  | _ => true

namespace Chronicle

open Intake (Action)

variable {k k' : Chronicle} {i : Nat} {w : Ingestor}

/-- An ingestor that holds no connection any more has let go of all that it ever had. -/
theorem Flowing.released (h : k.Flowing) (hw : k.intake.ingestors[i]? = some w)
    (hnone : w.connection? = none) :
    ∀ c ∈ (k.books i).connections, ∃ x, k.intake.feed.connections[c]? = some x ∧
      x.receiving = false := fun c hc =>
  ((h.flowing i w hw).past c hc (hnone ▸ (Option.some_ne_none c).symm)).1

/-- No step that needs no time begins an attempt for a consumer who has left. -/
theorem leaving_of_step? {a : Action} (hbackoff : 0 < k.intake.settings.backoff)
    (hw : k.intake.ingestors[i]? = some w) (h : w.Leaving k.intake.now) (ha : a.isInstant = true)
    (hstep : k.step? a = some k') :
    ∃ w', k'.intake.ingestors[i]? = some w' ∧ w'.Leaving k'.intake.now := by
  -- Most steps change one ingestor, which may be another one.
  have hset : ∀ (j : Nat) (v v' : Ingestor), k.intake.ingestors[j]? = some v →
      (v.Leaving k.intake.now → v'.Leaving k.intake.now) →
      ∃ w', (k.intake.ingestors.set j v')[i]? = some w' ∧ w'.Leaving k.intake.now := by
    intro j v v' hv hkept
    by_cases hj : j = i
    · subst hj
      rw [hw] at hv
      exact ⟨v', List.getElem?_set_self (List.getElem?_eq_some_iff.1 hw).1,
        hkept (Option.some.inj hv ▸ h)⟩
    · exact ⟨w, (List.getElem?_set_ne hj).trans hw, h⟩
  cases a with
  | turn j branch =>
      simp only [step?] at hstep
      split at hstep
      · next v hv =>
        rcases Option.map_eq_some_iff.1 hstep with ⟨⟨e, m⟩, hturn, rfl⟩
        exact hset j v m.ingestor hv (fun hv => Ingestor.leaving_of_turn? hbackoff hv hturn)
      · exact absurd hstep (by simp only [reduceCtorEq, not_false_eq_true])
  | tend t =>
      rw [← Option.some.inj hstep]
      exact ⟨w, hw, h⟩
  | wait ms => exact absurd ha Bool.false_ne_true
  | «open» fired =>
      rcases cases_of_attempt k.intake fired with ⟨-, hr⟩ | ⟨r, feed, hr, hnot, -⟩
      · simp only [step?, hr] at hstep
        rw [← Option.some.inj hstep]
        exact ⟨w, (List.getElem?_append_left (List.getElem?_eq_some_iff.1 hw).1).trans hw, h⟩
      · simp only [step?, hr] at hstep
        cases r with
        | opened j => exact absurd rfl (hnot j)
        | _ =>
            rw [← Option.some.inj hstep]
            exact ⟨w, hw, h⟩
  | receive j =>
      simp only [step?] at hstep
      split at hstep
      · next q m hq =>
        rcases receive_eq_item hq with ⟨v, rest, hv, -, rfl⟩
        rw [← Option.some.inj hstep]
        exact hset j v _ hv (fun hv => hv.of_same rfl rfl)
      · exact absurd hstep (by simp only [reduceCtorEq, not_false_eq_true])
  | leave j =>
      simp only [step?] at hstep
      split at hstep
      · next hlt =>
        have hv := List.getElem?_eq_getElem hlt
        rw [← Option.some.inj hstep, change_eq_set hv]
        exact hset j _ _ hv (fun hv => hv.of_same rfl hv.left.symm)
      · exact absurd hstep (by simp only [reduceCtorEq, not_false_eq_true])
  | tell j =>
      simp only [step?] at hstep
      split at hstep
      · next hlt =>
        have hv := List.getElem?_eq_getElem hlt
        rw [← Option.some.inj hstep, change_eq_set hv]
        exact hset j _ _ hv (fun hv => hv.of_same rfl rfl)
      · exact absurd hstep (by simp only [reduceCtorEq, not_false_eq_true])

theorem settings_of_step? {a : Action} (hstep : k.step? a = some k') :
    k'.intake.settings = k.intake.settings := by
  cases step?_eq_some hstep with
  | _ => rfl

theorem leaving_of_run? {actions : List Action} (hbackoff : 0 < k.intake.settings.backoff)
    (hw : k.intake.ingestors[i]? = some w) (h : w.Leaving k.intake.now)
    (hinstant : ∀ a ∈ actions, a.isInstant = true) (hrun : k.run? actions = some k') :
    ∃ w', k'.intake.ingestors[i]? = some w' ∧ w'.Leaving k'.intake.now := by
  induction actions generalizing k w with
  | nil =>
      rw [← Option.some.inj hrun]
      exact ⟨w, hw, h⟩
  | cons a rest ih =>
      rw [List.forall_mem_cons] at hinstant
      rw [run?] at hrun
      split at hrun
      · next next hnext =>
        rcases leaving_of_step? hbackoff hw h hinstant.1 hnext with ⟨w', hw', h'⟩
        exact ih (settings_of_step? hnext ▸ hbackoff) hw' h' hinstant.2 hrun
      · exact absurd hrun (by simp only [reduceCtorEq, not_false_eq_true])

theorem run?_append (actions later : List Action) :
    k.run? (actions ++ later) = (k.run? actions).bind (·.run? later) := by
  induction actions generalizing k with
  | nil => rfl
  | cons a rest ih =>
      rw [List.cons_append, run?, run?]
      cases k.step? a with
      | none => rfl
      | some next => exact ih

variable {settings : IngestorSettings} {buffer delay failures : Nat} {actions : List Action}

/-- After any run an ingestor whose consumer has left and that is at rest has let go of every
connection that it ever had, and it has stopped, unless it was just connecting again. That attempt
is the last one: as soon as it is over, the ingestor stops, before any more time passes. -/
theorem left_of_run (h : (opened settings buffer delay failures).run? actions = some k)
    (hw : k.intake.ingestors[i]? = some w) (hleft : w.consumed = false)
    (hrest : k.intake.stepAt? i = none) :
    (∀ c ∈ (k.books i).connections, ∃ x, k.intake.feed.connections[c]? = some x ∧
      x.receiving = false) ∧
    (w.state = .terminated ∨
      ∃ due, w.phase = .connecting due ∧ k.intake.now < due ∧ w.stopped = false ∧
        (0 < settings.backoff → ∀ ms later k', due ≤ k.intake.now + ms →
          (∀ a ∈ later, a.isInstant = true) → k.run? (.wait ms :: later) = some k' →
          k'.intake.stepAt? i = none → ∃ w', k'.intake.ingestors[i]? = some w' ∧
            w'.state = .terminated ∧ ∀ c ∈ (k'.books i).connections, ∃ x,
              k'.intake.feed.connections[c]? = some x ∧ x.receiving = false)) := by
  have hflowing := flowing_of_run? h
  rcases Ingestor.phase_of_rest hleft (rest_of_stepAt? hw hrest) with hphase |
    ⟨due, hphase, hearly, hstopped⟩
  · exact ⟨hflowing.released hw (by rw [Ingestor.connection?, hphase]),
      .inl (by rw [Ingestor.state, hphase])⟩
  · refine ⟨hflowing.released hw (by rw [Ingestor.connection?, hphase]),
      .inr ⟨due, hphase, hearly, hstopped, fun hbackoff ms later k' hdue hinstant hlater hrest' =>
        ?_⟩⟩
    have hrun : (opened settings buffer delay failures).run? (actions ++ .wait ms :: later) =
        some k' := by rw [run?_append, h, Option.bind_some, hlater]
    -- When the time has passed the attempt is over, and what follows takes none.
    have hleaving : w.Leaving (k.intake.now + ms) := by
      refine ⟨hleft, fun d hd => ?_, fun d hd => ?_⟩
      · rw [hphase] at hd
        exact Ingestor.Phase.connecting.inj hd ▸ hdue
      · rw [hphase] at hd
        exact Ingestor.Phase.noConfusion hd
    rw [← settings_of_run? h] at hbackoff
    obtain ⟨w', hw', hleaving'⟩ : ∃ w', k'.intake.ingestors[i]? = some w' ∧
        w'.Leaving k'.intake.now :=
      leaving_of_run? (k := { k with intake := { k.intake with now := k.intake.now + ms } })
        hbackoff hw hleaving hinstant hlater
    have hended := hleaving'.terminated (rest_of_stepAt? hw' hrest')
    exact ⟨w', hw', hended, (flowing_of_run? hrun).released hw' (by
      rw [Ingestor.connection?, Ingestor.phase_of_terminated hended])⟩

/-- A connection is lost, and the consumer leaves during the attempt to make another. -/
def connectingAgain : List Action :=
  [.wait 1000, .open false, .tend .accept, .tend (.close 0), .turn 0 .goOn, .wait 100,
    .turn 0 .goOn, .leave 0]

/-- The ingestor stops when the attempt is over, and lets go of the connection that it brings. -/
theorem left_of_run_connecting :
    ∃ k k' w', (opened ⟨["BTC"], 100, 256⟩ 16 1000 0).run? connectingAgain = some k ∧
      k.run? [.wait 1000, .turn 0 .goOn, .turn 0 .stop] = some k' ∧
      k'.intake.ingestors[0]? = some w' ∧ w'.state = .terminated ∧
      (k'.books 0).connections = [0, 1] ∧ ∀ c ∈ [0, 1], ∃ x,
        k'.intake.feed.connections[c]? = some x ∧ x.receiving = false := by
  obtain ⟨k, w, k', hrun, hw, hleft, hrest, hstate, hlater, hrest', hconnections⟩ : ∃ k w k',
      (opened ⟨["BTC"], 100, 256⟩ 16 1000 0).run? connectingAgain = some k ∧
      k.intake.ingestors[0]? = some w ∧ w.consumed = false ∧ k.intake.stepAt? 0 = none ∧
      (w.phase = .connecting 2100 ∧ k.intake.now = 1100) ∧
      k.run? [.wait 1000, .turn 0 .goOn, .turn 0 .stop] = some k' ∧
      k'.intake.stepAt? 0 = none ∧ (k'.books 0).connections = [0, 1] :=
    ⟨_, _, _, rfl, rfl, rfl, rfl, ⟨rfl, rfl⟩, rfl, rfl, rfl⟩
  rcases (left_of_run hrun hw hleft hrest).2 with hended | ⟨due, hphase, -, -, hlast⟩
  · rw [Ingestor.state, hstate.1] at hended
    exact absurd hended (by decide)
  · have hdue : due = 2100 := Ingestor.Phase.connecting.inj (hphase.symm.trans hstate.1)
    have hover : due ≤ k.intake.now + 1000 := by
      have hnow := hstate.2
      omega
    rcases hlast (by decide) 1000 _ k' hover (by decide) hlater hrest' with
      ⟨w', hw', hended, hreleased⟩
    exact ⟨k, k', w', hrun, hlater, hw', hended, hconnections, hconnections ▸ hreleased⟩

/-- An ingestor whose consumer has left may be at rest, with nothing else to do for anybody, and
still not have stopped. -/
theorem not_terminated_of_leaving :
    ¬∀ (settings : IngestorSettings) (buffer delay failures : Nat) (actions : List Action)
      (k : Chronicle) (i : Nat) (w : Ingestor),
      (opened settings buffer delay failures).run? actions = some k →
      k.intake.ingestors[i]? = some w → w.consumed = false → k.intake.step? = none →
      w.state = .terminated := by
  intro hclaim
  obtain ⟨k, w, hrun, hw, hleft, hrest, hstate⟩ : ∃ k w,
      (opened ⟨["BTC"], 100, 256⟩ 16 1000 0).run? connectingAgain = some k ∧
      k.intake.ingestors[0]? = some w ∧ w.consumed = false ∧ k.intake.step? = none ∧
      w.state = .connecting := ⟨_, _, rfl, rfl, rfl, rfl, rfl⟩
  rw [hclaim _ _ _ _ _ k 0 w hrun hw hleft hrest] at hstate
  exact absurd hstate (by decide)

end Chronicle

end Bourse
