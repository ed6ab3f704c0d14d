import Bourse.Ingestor.Intake

/-!
# A Client of the Intake

A client opens streams on the intake and listens to the newest one; the one before
is given up as soon as the new one is there. One stop signal ends them all.

## Main definitions

* `IntakeClient`: the intake, the signal and the stream listened to.
* `IntakeClient.connect`: opens a stream in place of the old one.
* `IntakeClient.drain`, `next`: quotes of the stream.
-/

namespace Bourse

/-- An intake, a stop signal for its ingestors, and the stream that is listened to. -/
structure IntakeClient where
  intake : Intake
  stopped : Bool
  /-- The ingestor whose stream is held. -/
  held : Option Nat
deriving DecidableEq, Repr

namespace IntakeClient

/-- A client without a stream. -/
def create (settings : IngestorSettings) (feed : StagedFeed) : IntakeClient :=
  ⟨.create settings feed, false, none⟩

/-- All that needs no time happens. -/
def settle (c : IntakeClient) : IntakeClient := { c with intake := c.intake.settle }

/-- Gives up the stream; whether there was one. -/
def drop (c : IntakeClient) : Bool × IntakeClient :=
  match c.held with
  | none => (false, c)
  | some i =>
    (true,
      { c with intake := c.intake.change i (fun w => { w with consumed := false }), held := none })

/-- Opens a stream, and gives up the old one if that works. -/
def connect (c : IntakeClient) : Opening × IntakeClient :=
  match c.intake.openStream c.stopped with
  | (.opened i, intake) => (.opened i, { ({ c with intake }).drop.2 with held := some i })
  | (r, intake) => (r, { c with intake })

/-- Tells all ingestors to stop. -/
def stop (c : IntakeClient) : IntakeClient :=
  { c with
    stopped := true
    intake := { c.intake with
      ingestors := c.intake.ingestors.map (fun w => { w with stopped := true }) } }

/-- Time passes. -/
def wait (c : IntakeClient) (ms : Nat) : IntakeClient :=
  { c with intake := Intake.virtual.wait ms c.intake }

/-- Takes the next quote of the stream that is held; an ingestor that waited for room goes on. -/
def receive (c : IntakeClient) (i : Nat) : Received Quote × IntakeClient :=
  let (r, intake) := c.intake.receive i
  (r, { c with intake := intake.settle })

/-- The number of quotes that a drain can bring at most. -/
def within (c : IntakeClient) (i : Nat) : Nat :=
  ((c.intake.ingestors[i]?).map (·.output.length)).getD 0 + c.intake.feed.underWay + 2

/-- Takes all quotes of the stream that is held, or some of them; none without a stream. -/
def drain? (c : IntakeClient) (limit : Option Nat) : Option (Drained Quote × IntakeClient) :=
  c.held.map (fun i => Bourse.drain (fun c => c.receive i) (c.within i) limit c)

/-- Waits for the next quote of the stream that is held; none without a stream. A stream without
one is pending when the time is up. -/
def next? (c : IntakeClient) (ms : Nat) : Option (Received Quote × IntakeClient) :=
  c.held.map (fun i =>
    let isThere (m : Intake) : Bool :=
      match (m.receive i).1 with
      | .pending => false
      | _ => true
    { c with intake := Intake.virtual.await isThere ms c.intake }.receive i)

/-- The newest ingestor ever started. -/
def newest? (c : IntakeClient) : Option Ingestor := c.intake.ingestors.getLast?

end IntakeClient

end Bourse
