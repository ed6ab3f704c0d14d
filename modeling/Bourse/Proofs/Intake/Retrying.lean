import Bourse.Proofs.Intake.Chronicle
import Bourse.Proofs.Sums

/-!
# Connecting Again

An ingestor that has lost its connection tries to connect until it has another, however
often that fails. Only those who want it to stop can end this: as long as the stop signal
has not fired and the consumer is there, an ingestor without a connection waits for a
certain time and does something about it then, whatever the feed is like.

Its counters tell where it is. As many connections were lost as made, but for the one
that it has, and every attempt that has neither made a connection nor failed is under way
or was given up at the end. The feed counts the attempts that come to an end there, and they
are those that the ingestors count, and those of openings that came to nothing.

## Main definitions

* `Ingestor.Retries`: what an ingestor without a connection does about it.
* `Intake.tried`: the attempts that the ingestors count.

## Theorems

* `retries_of_wanted`: an ingestor that is wanted does it.
* `attempts_of_run?`: the attempts that the feed counts.
* `balance_of_run`: the counters, the state and the attempts after any run.
-/

namespace Bourse

namespace StagedFeed

/-- An attempt is counted when it comes to an end. -/
theorem attempts_connect (f : StagedFeed) : f.connect.2.attempts = f.attempts + 1 := by
  unfold connect
  simp only []
  split
  · rfl
  · split
    · rfl
    · rfl

/-- The owner of a feed makes no attempts. -/
theorem attempts_tend (f : StagedFeed) (t : Tending) : (f.tend t).attempts = f.attempts := by
  cases t with
  | accept =>
      rw [tend, accept]
      split
      · rfl
      · rfl
  | send c t =>
      rw [tend, send]
      split
      · rfl
      · split_ifs
        · rfl
        · rfl
        · rfl
  | fail n =>
      rw [tend, fail]
      split
      · rfl
      · rfl
  | _ => rfl

end StagedFeed

namespace Ingestor

variable {s : IngestorSettings} {w : Ingestor}

/-- What an ingestor does about a connection that it does not have. A connection that is over leads
to a pause, the end of the pause to an attempt, and the end of the attempt to a connection or to
another pause. -/
structure Retries (s : IngestorSettings) (w : Ingestor) : Prop where
  going : w.state ≠ .terminated
  lost : ∀ c, w.phase = .streaming c → ∀ now (f : StagedFeed), f.peek? c = none →
    f.isOver c = true → ∃ m, w.step? s now f = some m ∧ m.ingestor.state = .disconnected ∧
      m.ingestor.due? = some (now + s.backoff)
  paused : w.state = .disconnected → ∃ due, w.due? = some due ∧ ∀ now (f : StagedFeed),
    due ≤ now → ∃ m, w.step? s now f = some m ∧ m.ingestor.state = .connecting ∧
      m.ingestor.due? = some (now + f.delay)
  trying : w.state = .connecting → ∃ due, w.due? = some due ∧ ∀ now (f : StagedFeed),
    due ≤ now → ∃ m, w.step? s now f = some m ∧ (m.ingestor.state = .streaming ∨
      m.ingestor.state = .disconnected ∧ m.ingestor.due? = some (now + s.backoff))

/-- The end of an attempt leads to a connection or to another pause. -/
theorem state_reconnect (w : Ingestor) (backoff now : Nat) (f : StagedFeed) :
    (w.reconnect backoff now f).ingestor.state = .streaming ∨
      (w.reconnect backoff now f).ingestor.state = .disconnected ∧
        (w.reconnect backoff now f).ingestor.due? = some (now + backoff) := by
  unfold reconnect
  split
  · exact Or.inl rfl
  · exact Or.inr ⟨rfl, rfl⟩

theorem retries_of_wanted (s : IngestorSettings) (hgoing : w.state ≠ .terminated)
    (hwanted : w.isUnwanted = false) : w.Retries s := by
  have hstopped : w.stopped = false := (Bool.or_eq_false_iff.1 hwanted).1
  refine ⟨hgoing, fun c hphase now f hpeek hover => ?_, fun hstate => ?_, fun hstate => ?_⟩
  · refine ⟨w.disconnect s.backoff now f c, ?_, rfl, rfl⟩
    simp only [step?, hphase, hwanted, Bool.false_eq_true, if_false, hpeek, hover, if_true]
  · cases hphase : w.phase with
    | waiting due =>
        refine ⟨due, by rw [due?, hphase], fun now f hdue => ?_⟩
        refine ⟨⟨{ w with phase := .connecting (now + f.delay) }, f, none⟩, ?_, rfl, rfl⟩
        simp only [step?, hphase, hwanted, Bool.false_eq_true, if_false, hdue, if_true]
    | _ =>
        rw [state, hphase] at hstate
        exact absurd hstate (by simp only [reduceCtorEq, not_false_eq_true])
  · cases hphase : w.phase with
    | connecting due =>
        refine ⟨due, by rw [due?, hphase], fun now f hdue => ?_⟩
        refine ⟨w.reconnect s.backoff now f, ?_, state_reconnect w s.backoff now f⟩
        simp only [step?, hphase, hstopped, Bool.false_eq_true, if_false, hdue, if_true]
    | _ =>
        rw [state, hphase] at hstate
        exact absurd hstate (by simp only [reduceCtorEq, not_false_eq_true])

/-- An attempt comes to an end at the feed where it comes to an end for the ingestor. -/
theorem Step.attempts {w' : Ingestor} {e : Event} (h : w.Step s e w') (f : StagedFeed) :
    (f.after e).attempts + (w.stats.connects + w.stats.failed) =
      f.attempts + (w'.stats.connects + w'.stats.failed) := by
  cases h with
  | connected due c hphase =>
      rw [StagedFeed.after, f.attempts_connect]
      simp only []
      omega
  | failed due due' hphase =>
      rw [StagedFeed.after, f.attempts_connect]
      simp only []
      omega
  | stopped hstopping => cases w.phase <;> rfl
  | _ => rfl

end Ingestor

/-! ## The attempts -/

/-- The attempts that the ingestors count. -/
def Intake.tried (m : Intake) : Nat :=
  (m.ingestors.map (fun w => w.stats.connects + w.stats.failed)).sum

/-- Whether a step is the end of an opening. -/
def Intake.Action.isOpening : Action → Bool
  | .open _ => true
  | _ => false

namespace Chronicle

open Intake (Action)

variable {settings : IngestorSettings} {buffer delay failures i : Nat} {actions : List Action}
  {k : Chronicle} {w : Ingestor}

/-- What the ingestors count when one of them has changed. -/
theorem tried_set {m : Intake} (hw : m.ingestors[i]? = some w) (w' : Ingestor) (f : StagedFeed)
    (warnings : List String) :
    Intake.tried { m with feed := f, ingestors := m.ingestors.set i w', warnings } +
      (w.stats.connects + w.stats.failed) =
        m.tried + (w'.stats.connects + w'.stats.failed) :=
  sum_map_set (fun w : Ingestor => w.stats.connects + w.stats.failed) hw w'

/-- An opening makes one attempt, and the ingestor that it starts counts that. -/
theorem attempts_attempt (m : Intake) (fired : Bool) :
    (m.attempt fired).2.feed.attempts = m.feed.attempts + 1 ∧
      (m.attempt fired).2.tried + m.ingestors.length =
        m.tried + (m.attempt fired).2.ingestors.length := by
  unfold Intake.attempt
  split
  · have hattempts := m.feed.attempts_connect
    split
    · next e feed hconnect =>
      rw [hconnect] at hattempts
      exact ⟨hattempts, rfl⟩
    · next c feed hconnect =>
      rw [hconnect] at hattempts
      split
      · refine ⟨hattempts, ?_⟩
        simp only [Intake.tried, List.map_append, List.sum_append, List.map_cons, List.map_nil,
          List.sum_cons, List.sum_nil, List.length_append, List.length_singleton, Ingestor.start]
        omega
      · exact ⟨hattempts, rfl⟩
  · exact ⟨rfl, rfl⟩

/-- What happens to one ingestor keeps the count. -/
theorem attempts_of_happening {m : Intake} {n : Nat}
    (h : m.feed.attempts + m.ingestors.length = m.tried + n) (hw : m.ingestors[i]? = some w)
    {w' : Ingestor} {e : Ingestor.Event} (hstep : w.Step m.settings e w')
    (warnings : List String) :
    (m.feed.after e).attempts + (m.ingestors.set i w').length =
      Intake.tried { m with
        feed := m.feed.after e, ingestors := m.ingestors.set i w', warnings } + n := by
  have hset := tried_set hw w' (m.feed.after e) warnings
  have hattempts := hstep.attempts m.feed
  rw [List.length_set]
  omega

/-- The feed counts the attempts of the ingestors, and those of openings that came to nothing. -/
theorem attempts_of_step? {k' : Chronicle} {a : Action} {n : Nat}
    (h : k.intake.feed.attempts + k.intake.ingestors.length = k.intake.tried + n)
    (hstep : k.step? a = some k') :
    k'.intake.feed.attempts + k'.intake.ingestors.length =
      k'.intake.tried + (n + if a.isOpening then 1 else 0) := by
  cases a with
  | «open» fired =>
      rcases attempts_attempt k.intake fired with ⟨hattempts, htried⟩
      have hintake : k'.intake = (k.intake.attempt fired).2 := by
        simp only [step?] at hstep
        split at hstep
        · next heq =>
          rw [← Option.some.inj hstep, heq]
          rfl
        · next heq =>
          rw [← Option.some.inj hstep, heq]
      rw [hintake, hattempts, Action.isOpening, if_pos rfl]
      omega
  | tend t =>
      cases Option.some.inj hstep
      exact (congrArg (· + _) (k.intake.feed.attempts_tend t)).trans h
  | wait ms =>
      cases Option.some.inj hstep
      exact h
  | turn i branch =>
      simp only [step?] at hstep
      split at hstep
      · next w hw =>
        rcases Option.map_eq_some_iff.1 hstep with ⟨⟨e, m⟩, hturn, rfl⟩
        rcases Ingestor.turn?_eq_some hturn with ⟨hevent, hfeed, -⟩
        simp only [noted, hfeed]
        exact attempts_of_happening h hw hevent _
      · exact absurd hstep (by simp only [reduceCtorEq, not_false_eq_true])
  | receive i =>
      simp only [step?] at hstep
      split at hstep
      · next q m hq =>
        rcases receive_eq_item hq with ⟨w, rest, hw, houtput, rfl⟩
        cases Option.some.inj hstep
        exact attempts_of_happening h hw (.received q rest houtput) k.intake.warnings
      · exact absurd hstep (by simp only [reduceCtorEq, not_false_eq_true])
  | leave i =>
      simp only [step?] at hstep
      split at hstep
      · next hlt =>
        have hw := List.getElem?_eq_getElem hlt
        rw [← Option.some.inj hstep, change_eq_set hw]
        exact attempts_of_happening h hw .left k.intake.warnings
      · exact absurd hstep (by simp only [reduceCtorEq, not_false_eq_true])
  | tell i =>
      simp only [step?] at hstep
      split at hstep
      · next hlt =>
        have hw := List.getElem?_eq_getElem hlt
        rw [← Option.some.inj hstep, change_eq_set hw]
        exact attempts_of_happening h hw .told k.intake.warnings
      · exact absurd hstep (by simp only [reduceCtorEq, not_false_eq_true])

theorem attempts_of_run?
    (h : (opened settings buffer delay failures).run? actions = some k) :
    k.intake.feed.attempts + k.intake.ingestors.length =
      k.intake.tried + actions.countP Action.isOpening := by
  -- On the actions, from any chronicle in which the count is right for some number of openings.
  suffices hrun : ∀ (k₀ : Chronicle) (n : Nat),
      k₀.intake.feed.attempts + k₀.intake.ingestors.length = k₀.intake.tried + n →
      k₀.run? actions = some k → k.intake.feed.attempts + k.intake.ingestors.length =
        k.intake.tried + (n + actions.countP Action.isOpening) by
    have hall := hrun _ 0 rfl h
    rw [Nat.zero_add] at hall
    exact hall
  clear h
  induction actions with
  | nil =>
      intro k₀ n hcount hrun
      cases Option.some.inj hrun
      exact hcount
  | cons a rest ih =>
      intro k₀ n hcount hrun
      rw [run?] at hrun
      split at hrun
      · next next hnext =>
        have hrest := ih next _ (attempts_of_step? hcount hnext) hrun
        rw [List.countP_cons, Nat.add_comm (rest.countP _), ← Nat.add_assoc n]
        exact hrest
      · exact absurd hrun (by simp only [reduceCtorEq, not_false_eq_true])

/-- After any run the counters of an ingestor agree with its state, and the attempts it ever made
are those that were counted and at most one more, which is under way or was given up at the end. The
feed has seen as many come to an end as all ingestors have counted, and one for each opening that
came to nothing. An ingestor that has stopped was told to or has lost its consumer, and does not start
again; any other one that lacks a connection goes on trying. -/
theorem balance_of_run
    (h : (opened settings buffer delay failures).run? actions = some k)
    (hw : k.intake.ingestors[i]? = some w) :
    w.InBalance ∧
    ((k.books i).attempts = w.stats.connects + w.stats.failed +
      if w.state = .connecting ∨ (k.books i).abandoned = true then 1 else 0) ∧
    (k.intake.feed.attempts + k.intake.ingestors.length =
      k.intake.tried + actions.countP Action.isOpening) ∧
    (w.state = .terminated → (k.books i).parted = true) ∧
    ((k.books i).parted = false → w.Retries k.intake.settings) ∧
    ∀ later k', k.run? later = some k' → ∃ w', k'.intake.ingestors[i]? = some w' ∧
      (w.state = .terminated → w'.state = .terminated) := by
  have hbalanced := (kept_of_run? h).balanced i w hw
  refine ⟨hbalanced.counters, hbalanced.attempts, attempts_of_run? h, fun hended => ?_,
    fun hwanted => ?_,
    fun later k' hlater => terminated_of_run? hw hlater⟩
  · -- The books know of every signal, so they know why it has stopped.
    rw [← hbalanced.parted]
    exact hbalanced.ended hended
  · have hunwanted : w.isUnwanted = false := by rw [hbalanced.parted, hwanted]
    refine Ingestor.retries_of_wanted k.intake.settings (fun hended => ?_) hunwanted
    rw [hbalanced.ended hended] at hunwanted
    exact absurd hunwanted (by simp only [reduceCtorEq, not_false_eq_true])

/-- A connection is lost, an attempt fails, and the next one is given up. -/
theorem balance_of_run_abandoning :
    ∃ k w, (opened ⟨["BTC"], 5, 1⟩ 1 0 0).run?
        [.open false, .tend (.close 0), .turn 0 .goOn, .tend (.fail 1), .wait 5, .turn 0 .goOn,
          .turn 0 .goOn, .wait 5, .turn 0 .goOn, .tell 0, .turn 0 .stop] = some k ∧
      k.intake.ingestors[0]? = some w ∧ w.state = .terminated ∧
      w.stats.disconnects = w.stats.connects ∧ w.stats.failed = 1 ∧
      (k.books 0).attempts = w.stats.connects + w.stats.failed + 1 := by
  obtain ⟨k, w, hrun, hw, hstate, hlost, hfailed, habandoned⟩ : ∃ k w,
      (opened ⟨["BTC"], 5, 1⟩ 1 0 0).run?
        [.open false, .tend (.close 0), .turn 0 .goOn, .tend (.fail 1), .wait 5, .turn 0 .goOn,
          .turn 0 .goOn, .wait 5, .turn 0 .goOn, .tell 0, .turn 0 .stop] = some k ∧
      k.intake.ingestors[0]? = some w ∧ w.state = .terminated ∧
      w.stats.disconnects = w.stats.connects ∧ w.stats.failed = 1 ∧
      (k.books 0).abandoned = true :=
    ⟨_, _, rfl, rfl, rfl, rfl, rfl, rfl⟩
  have hattempts := (balance_of_run hrun hw).2.1
  rw [if_pos (Or.inr habandoned)] at hattempts
  exact ⟨k, w, hrun, hw, hstate, hlost, hfailed, hattempts⟩

end Chronicle

end Bourse
