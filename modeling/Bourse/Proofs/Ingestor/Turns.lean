import Bourse.Ingestor.Basic

/-!
# The Turns of an Ingestor

Wherever an ingestor waits, it waits for two things at once: that nobody wants it any
more, and whatever it is busy with. The ingestor of the intake looks at the first before
the second, so that its runs are alike. Here either of them may be taken where both are
ready, and a fact about all turns holds in whichever order they are looked at.

Each turn is told by an *event*, and so is what others do to an ingestor: that it is
started, told to stop, read from or left. `Step` says once what an event does to the
ingestor itself, and `StagedFeed.after` what it does to the feed. The rest of the theory
speaks of events and looks at no turn again.

## Main definitions

* `Ingestor.Branch`, `Ingestor.turn?`: what an ingestor can do where it waits.
* `Ingestor.Event`: what happens to an ingestor.
* `Ingestor.Step`: what an event does to the ingestor.
* `StagedFeed.after`, `StagedFeed.Finds`: what it does to the feed, and finds there.

## Theorems

* `step?_eq_turn?`: the ingestor's own step is a turn, and it can take one if there is any.
* `turn?_eq_some`: what a turn is.
-/

namespace Bourse

/-- The two things that an ingestor waits for at once. -/
inductive Ingestor.Branch where
  /-- That nobody wants it any more. -/
  | stop
  | goOn
deriving DecidableEq

/-- What happens to an ingestor. -/
inductive Ingestor.Event where
  /-- It is started on a connection, with a stop signal that may have fired already. -/
  | opened (connection : Nat) (stopped : Bool)
  | took (connection : Nat) (tick : RawTick)
  | put (quote : Quote)
  | lost (connection : Nat)
  /-- It begins an attempt to connect. -/
  | tried
  | connected (connection : Nat)
  | failed
  /-- It stops for good, in the middle of something. -/
  | stopped (phase : Ingestor.Phase)
  | received (quote : Quote)
  /-- Its consumer leaves. -/
  | left
  /-- It is told to stop. -/
  | told
deriving DecidableEq

namespace StagedFeed

/-- The feed after something has happened to an ingestor. -/
def after (f : StagedFeed) : Ingestor.Event → StagedFeed
  | .took c _ => f.take c
  | .lost c | .stopped (.streaming c) | .stopped (.sending c _) => f.release c
  | .connected _ | .failed => f.connect.2
  | _ => f

/-- What is found at the feed when something happens to an ingestor. -/
def Finds (f : StagedFeed) : Ingestor.Event → Prop
  | .took c t => f.peek? c = some t
  | .lost c => f.peek? c = none ∧ f.isOver c = true
  | .connected c => f.connect.1 = .ok c
  | .failed => ∃ e, f.connect.1 = .error e
  | _ => True

end StagedFeed

namespace Ingestor

/-- Whether an ingestor finds out where it waits that nobody wants it. While it connects it does not
ask whether there is a consumer. -/
def isStopping (w : Ingestor) : Bool :=
  match w.phase with
  | .connecting _ => w.stopped
  | .terminated => false
  | _ => w.isUnwanted

/-- Whether an event is something that the ingestor does itself. -/
def Event.isOwn : Event → Bool
  | .opened .. | .received _ | .left | .told => false
  | _ => true

/-- The ingestor with a quote put into its buffer. -/
def afterPut (w : Ingestor) (c : Nat) (q : Quote) : Ingestor :=
  { w with
    phase := .streaming c
    output := w.output ++ [q]
    stats := { w.stats with quotes := w.stats.quotes + 1 } }

/-- A turn of an ingestor, with what happens in it, where one of the two branches is ready. -/
def turn? (s : IngestorSettings) (now : Nat) (f : StagedFeed) (w : Ingestor) :
    Branch → Option (Event × Moved)
  | .stop => if w.isStopping then some (.stopped w.phase, w.terminate f) else none
  | .goOn =>
    match w.phase with
    | .streaming c =>
      match f.peek? c with
      | some t => some (.took c t, w.takeTick s.symbols f c t)
      | none => if f.isOver c then some (.lost c, w.disconnect s.backoff now f c) else none
    | .sending c q =>
      if w.consumed && w.output.length < s.buffer then some (.put q, ⟨w.afterPut c q, f, none⟩)
      else none
    | .waiting due =>
      if due ≤ now then some (.tried, ⟨{ w with phase := .connecting (now + f.delay) }, f, none⟩)
      else none
    | .connecting due =>
      if due ≤ now then
        match f.connect.1 with
        | .ok c => some (.connected c, w.reconnect s.backoff now f)
        | .error _ => some (.failed, w.reconnect s.backoff now f)
      else none
    | .terminated => none

variable {s : IngestorSettings} {now : Nat} {f : StagedFeed} {w w' : Ingestor} {e : Event}

/-- The ingestor's own step is a turn, and it can take one whenever there is any. -/
theorem step?_eq_turn? (s : IngestorSettings) (now : Nat) (f : StagedFeed) (w : Ingestor) :
    w.step? s now f = ((w.turn? s now f .stop).or (w.turn? s now f .goOn)).map (·.2) := by
  unfold step? turn? isStopping
  cases hphase : w.phase with
  | streaming c =>
      cases hunwanted : w.isUnwanted with
      | true => rfl
      | false =>
          simp only [Bool.false_eq_true, if_false, Option.none_or]
          cases f.peek? c with
          | some t => rfl
          | none =>
              simp only []
              split
              · rfl
              · rfl
  | sending c q =>
      cases hunwanted : w.isUnwanted with
      | true => rfl
      | false =>
          -- The turn asks once more for the consumer, who is there if somebody wants the ingestor.
          have hconsumed : w.consumed = true := by
            unfold isUnwanted at hunwanted
            have hthere := (Bool.or_eq_false_iff.1 hunwanted).2
            rw [Bool.not_eq_false'] at hthere
            exact hthere
          simp only [hconsumed, Bool.true_and, Bool.false_eq_true, if_false, Option.none_or,
            decide_eq_true_eq, afterPut]
          split
          · rw [Option.map_some]
          · rfl
  | waiting due =>
      cases hunwanted : w.isUnwanted with
      | true => rfl
      | false =>
          simp only [Bool.false_eq_true, if_false, Option.none_or]
          split
          · rfl
          · rfl
  | connecting due =>
      cases hstopped : w.stopped with
      | true => rfl
      | false =>
          simp only [Bool.false_eq_true, if_false, Option.none_or]
          split
          · cases f.connect.1 with
            | ok c => rfl
            | error e => rfl
          · rfl
  | terminated => rfl

/-- What an event does to the ingestor. -/
inductive Step (s : IngestorSettings) (w : Ingestor) : Event → Ingestor → Prop
  | quote (c : Nat) (t : RawTick) (q : Quote) (hphase : w.phase = .streaming c)
      (hdecode : t.decode s.symbols = .ok q) :
      Step s w (.took c t) { w with phase := .sending c q }
  | reject (c : Nat) (t : RawTick) (e : TickFault) (hphase : w.phase = .streaming c)
      (hdecode : t.decode s.symbols = .error e) :
      Step s w (.took c t) { w with stats := { w.stats with rejected := w.stats.rejected + 1 } }
  | put (c : Nat) (q : Quote) (hphase : w.phase = .sending c q) (hconsumed : w.consumed = true)
      (hroom : w.output.length < s.buffer) : Step s w (.put q) (w.afterPut c q)
  | lost (c due : Nat) (hphase : w.phase = .streaming c) :
      Step s w (.lost c) { w with
        phase := .waiting due, stats := { w.stats with disconnects := w.stats.disconnects + 1 } }
  | tried (due due' : Nat) (hphase : w.phase = .waiting due) :
      Step s w .tried { w with phase := .connecting due' }
  | connected (due c : Nat) (hphase : w.phase = .connecting due) :
      Step s w (.connected c) { w with
        phase := .streaming c, stats := { w.stats with connects := w.stats.connects + 1 } }
  | failed (due due' : Nat) (hphase : w.phase = .connecting due) :
      Step s w .failed { w with
        phase := .waiting due', stats := { w.stats with failed := w.stats.failed + 1 } }
  | stopped (hstopping : w.isStopping = true) :
      Step s w (.stopped w.phase) { w with phase := .terminated }
  | received (q : Quote) (rest : List Quote) (houtput : w.output = q :: rest) :
      Step s w (.received q) { w with output := rest }
  | left : Step s w .left { w with consumed := false }
  | told : Step s w .told { w with stopped := true }

theorem terminate_eq (w : Ingestor) (f : StagedFeed) :
    w.terminate f = ⟨{ w with phase := .terminated }, f.after (.stopped w.phase), none⟩ := by
  unfold terminate connection?
  cases w.phase with
  | _ => rfl

/-- What an ingestor does that goes on. -/
theorem cases_of_goOn {m : Moved} (h : w.turn? s now f .goOn = some (e, m)) :
    (∃ c t, w.phase = .streaming c ∧ f.peek? c = some t ∧ e = .took c t ∧
      m = w.takeTick s.symbols f c t) ∨
    (∃ c, w.phase = .streaming c ∧ f.peek? c = none ∧ f.isOver c = true ∧ e = .lost c ∧
      m = w.disconnect s.backoff now f c) ∨
    (∃ c q, w.phase = .sending c q ∧ w.consumed = true ∧ w.output.length < s.buffer ∧
      e = .put q ∧ m = ⟨w.afterPut c q, f, none⟩) ∨
    (∃ due, w.phase = .waiting due ∧ due ≤ now ∧ e = .tried ∧
      m = ⟨{ w with phase := .connecting (now + f.delay) }, f, none⟩) ∨
    (∃ due, w.phase = .connecting due ∧ due ≤ now ∧ m = w.reconnect s.backoff now f ∧
      ((∃ c, f.connect.1 = .ok c ∧ e = .connected c) ∨
        (∃ fault, f.connect.1 = .error fault ∧ e = .failed))) := by
  simp only [turn?] at h
  split at h
  · next c hphase =>
    split at h
    · next t hpeek =>
      rcases Prod.mk.inj (Option.some.inj h) with ⟨rfl, rfl⟩
      exact Or.inl ⟨c, t, hphase, hpeek, rfl, rfl⟩
    · next hpeek =>
      split at h
      · next hover =>
        rcases Prod.mk.inj (Option.some.inj h) with ⟨rfl, rfl⟩
        exact Or.inr (Or.inl ⟨c, hphase, hpeek, hover, rfl, rfl⟩)
      · exact absurd h (by simp only [reduceCtorEq, not_false_eq_true])
  · next c q hphase =>
    split at h
    · next hready =>
      rcases Prod.mk.inj (Option.some.inj h) with ⟨rfl, rfl⟩
      rw [Bool.and_eq_true, decide_eq_true_eq] at hready
      exact Or.inr (Or.inr (Or.inl ⟨c, q, hphase, hready.1, hready.2, rfl, rfl⟩))
    · exact absurd h (by simp only [reduceCtorEq, not_false_eq_true])
  · next due hphase =>
    split at h
    · next hdue =>
      rcases Prod.mk.inj (Option.some.inj h) with ⟨rfl, rfl⟩
      exact Or.inr (Or.inr (Or.inr (Or.inl ⟨due, hphase, hdue, rfl, rfl⟩)))
    · exact absurd h (by simp only [reduceCtorEq, not_false_eq_true])
  · next due hphase =>
    refine Or.inr (Or.inr (Or.inr (Or.inr ⟨due, hphase, ?_⟩)))
    split at h
    · next hdue =>
      split at h
      · next c hconnect =>
        rcases Prod.mk.inj (Option.some.inj h) with ⟨rfl, rfl⟩
        exact ⟨hdue, rfl, Or.inl ⟨c, hconnect, rfl⟩⟩
      · next fault hconnect =>
        rcases Prod.mk.inj (Option.some.inj h) with ⟨rfl, rfl⟩
        exact ⟨hdue, rfl, Or.inr ⟨fault, hconnect, rfl⟩⟩
    · exact absurd h (by simp only [reduceCtorEq, not_false_eq_true])
  · exact absurd h (by simp only [reduceCtorEq, not_false_eq_true])

theorem reconnect_of_ok {c backoff : Nat} (h : f.connect.1 = .ok c) :
    w.reconnect backoff now f = ⟨{ w with
      phase := .streaming c
      stats := { w.stats with connects := w.stats.connects + 1 } }, f.connect.2, none⟩ := by
  unfold reconnect
  cases hconnect : f.connect with
  | mk r g =>
      rw [hconnect] at h
      cases h
      rfl

theorem reconnect_of_error {fault : FeedError} {backoff : Nat} (h : f.connect.1 = .error fault) :
    w.reconnect backoff now f = ⟨{ w with
      phase := .waiting (now + backoff)
      stats := { w.stats with failed := w.stats.failed + 1 } }, f.connect.2, none⟩ := by
  unfold reconnect
  cases hconnect : f.connect with
  | mk r g =>
      rw [hconnect] at h
      cases h
      rfl

/-- What an ingestor does that stops. -/
theorem cases_of_stop {m : Moved} (h : w.turn? s now f .stop = some (e, m)) :
    w.isStopping = true ∧ e = .stopped w.phase ∧ m = w.terminate f := by
  simp only [turn?] at h
  split at h
  · next hstopping =>
    rcases Prod.mk.inj (Option.some.inj h) with ⟨rfl, rfl⟩
    exact ⟨hstopping, rfl, rfl⟩
  · exact absurd h (by simp only [reduceCtorEq, not_false_eq_true])

/-- What a turn is: what it does to the ingestor and the feed, and what it finds there. -/
theorem turn?_eq_some {b : Branch} {m : Moved} (h : w.turn? s now f b = some (e, m)) :
    Step s w e m.ingestor ∧ m.feed = f.after e ∧ f.Finds e ∧ e.isOwn = true := by
  cases b with
  | stop =>
      rcases cases_of_stop h with ⟨hstopping, rfl, rfl⟩
      rw [terminate_eq]
      refine ⟨.stopped hstopping, rfl, ?_, rfl⟩
      unfold StagedFeed.Finds
      trivial
  | goOn =>
      rcases cases_of_goOn h with ⟨c, t, hphase, hpeek, rfl, rfl⟩ |
        ⟨c, hphase, hpeek, hover, rfl, rfl⟩ | ⟨c, q, hphase, hconsumed, hroom, rfl, rfl⟩ |
        ⟨due, hphase, -, rfl, rfl⟩ |
        ⟨due, hphase, -, rfl, ⟨c, hconnect, rfl⟩ | ⟨fault, hconnect, rfl⟩⟩
      · unfold takeTick
        cases hdecode : t.decode s.symbols with
        | ok q => exact ⟨.quote c t q hphase hdecode, rfl, hpeek, rfl⟩
        | error fault => exact ⟨.reject c t fault hphase hdecode, rfl, hpeek, rfl⟩
      · exact ⟨.lost c _ hphase, rfl, ⟨hpeek, hover⟩, rfl⟩
      · exact ⟨.put c q hphase hconsumed hroom, rfl, trivial, rfl⟩
      · exact ⟨.tried due _ hphase, rfl, trivial, rfl⟩
      · rw [reconnect_of_ok hconnect]
        exact ⟨.connected due c hphase, rfl, hconnect, rfl⟩
      · rw [reconnect_of_error hconnect]
        exact ⟨.failed due _ hphase, rfl, ⟨fault, hconnect⟩, rfl⟩

end Ingestor

end Bourse
