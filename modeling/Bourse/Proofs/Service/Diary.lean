import Bourse.Proofs.Floor.Basic
import Bourse.Proofs.Market.Clients
import Bourse.Proofs.Market.Seating
import Bourse.Proofs.Quotes.Cache
import Bourse.Proofs.Run
import Bourse.Service.Basic

/-!
# The Diary of a Service

A service in any order of its steps. The feed sends ticks and breaks connections off,
ingestors and dispatches go on, watchers come and go, callers trade and read, the keeper
of the cache asks for its subscription and feeds the cache, the valuation job makes its
runs, time passes, the time of day is set and the stop signal fires; between two steps of
one party all others may take any number of theirs.

The stop signal only sets a flag. The keeper and the job heed it in steps of their own, in
places of their own, and until then they go on.

Callers and watchers may do what they like, but for one thing: the subscription of the
keeper is its own. Nobody else reads it or gives it up.

Along with the service goes its past, which no step reads: the books of the ingestors,
the quotes that came into the cache, and what the line of the keeper had published
before the keeper joined it, to others or to nobody. One more thing is kept: whether a
quote was ever published that found the buffer of the keeper full.

## Main definitions

* `Diary`: a service and its past.
* `Diary.Action`: what can happen.
* `Diary.step?`, `Diary.run?`: the diary after one action, and after a list of them.
* `Warmer.Steps`, `Diary.Steps`: what a step can be.
* `Diary.AtRest`: nothing can go on before somebody comes or time passes.
* `Diary.Kept`: what is known of the service and its past.
* `Diary.Seated`: what is known of the subscription of the keeper.
-/

namespace Bourse

/-- The seat of the keeper of the cache, from the answer to its request on. -/
def Service.seat? (s : Service) : Option Seat :=
  match s.warmer with
  | .asking ticket => (s.market.grant? ticket).bind Grant.seat?
  | .feeding seat => some seat
  | _ => none

/-- Whether something can be done around a service. The subscription of the keeper is its own, and
it alone gives subscriptions to the cache. -/
def Service.permits (s : Service) : Market.Action → Bool
  | .leave t | .receive t => s.seat? ≠ some t
  | .addFeeder _ => false
  | _ => true

/-- What happens by itself is always permitted. -/
theorem Service.permits_of_isOwn {s : Service} {a : Market.Action} (h : a.isOwn = true) :
    s.permits a = true := by
  cases a with
  | leave t => exact absurd h Bool.false_ne_true
  | receive t => exact absurd h Bool.false_ne_true
  | addFeeder t => exact absurd h Bool.false_ne_true
  | _ => rfl

/-- What a step of the keeper can be. -/
inductive Warmer.Steps (backoff : Nat) (stop : Bool) (m : Market) : Warmer → Warmer → Market → Prop
  /-- It has got its subscription. -/
  | seated {ticket : Nat} {s : Seat} (hanswer : m.grant? ticket = some (.seated s)) :
      Steps backoff stop m (.asking ticket) (.feeding s) (m.addFeeder s)
  | failed {ticket : Nat} {e : FeedError} (hanswer : m.grant? ticket = some (.failed e)) :
      Steps backoff stop m (.asking ticket) (.resting (m.now + backoff)) m
  | crashed {ticket : Nat} (hanswer : m.grant? ticket = some .crashed) :
      Steps backoff stop m (.asking ticket) .stopped m
  | leaves {s : Seat} (htold : stop = true) :
      Steps backoff stop m (.feeding s) .stopped (m.removeFeeder s)
  /-- The subscription has ended. -/
  | lost {s : Seat} (hgone : s ∉ m.feeders) :
      Steps backoff stop m (.feeding s) (.resting (m.now + backoff)) m
  | stops {due : Nat} (htold : stop = true) : Steps backoff stop m (.resting due) .stopped m
  | asks {due : Nat} (hdue : due ≤ m.now) :
      Steps backoff stop m (.resting due) (.asking m.requests) m.request.2

theorem Warmer.steps_of_step? {w w' : Warmer} {backoff : Nat} {stop : Bool} {m m' : Market}
    (h : w.step? backoff stop m = some (w', m')) : Steps backoff stop m w w' m' := by
  unfold step? at h
  split at h
  · split at h
    · exact absurd h (by simp only [reduceCtorEq, not_false_eq_true])
    · next hanswer =>
      cases Option.some.inj h
      exact .seated hanswer
    · next hanswer =>
      cases Option.some.inj h
      exact .failed hanswer
    · next hanswer =>
      cases Option.some.inj h
      exact .crashed hanswer
  · split_ifs at h with htold hfeeds
    · cases Option.some.inj h
      exact .leaves htold
    · cases Option.some.inj h
      exact .lost (fun hmem => hfeeds (List.contains_iff_mem.2 hmem))
  · split_ifs at h with htold hdue
    · cases Option.some.inj h
      exact .stops htold
    · cases Option.some.inj h
      exact .asks hdue
  · exact absurd h (by simp only [reduceCtorEq, not_false_eq_true])

/-- A service and its past. -/
structure Diary where
  service : Service
  /-- The subscriptions that were given and not given up. -/
  held : List Seat
  /-- The books of each ingestor. -/
  books : Nat → Ingestor.Books
  /-- The quotes that came into the cache. -/
  came : List ReceivedQuote
  /-- What the line of the keeper had published when the keeper got its seat there. -/
  missed : List Quote
  /-- Whether a quote was published that found the buffer of the keeper full. -/
  overrun : Bool

/-- What can happen to a service. -/
inductive Diary.Action where
  /-- Something happens around the market. -/
  | market (a : Market.Action)
  /-- The keeper of the cache takes a step. -/
  | keep
  /-- Somebody comes with an errand. -/
  | enter (e : Errand)
  /-- A task of the ledger takes a step. -/
  | task (id : Nat)
  /-- A task is given up. -/
  | cancel (id : Nat)
  /-- A task goes to the end of the line. -/
  | moveBack (id : Nat)
  /-- The clock is set to some time of day. -/
  | clock (time : Timestamp)
  /-- The stop signal fires. -/
  | stop
  /-- The valuation job heeds the stop signal. -/
  | heed

/-- Whether an action is the next step of something under way. The others come from outside. -/
def Diary.Action.isOwn : Action → Bool
  | market a => a.isOwn
  | keep | task _ | heed => true
  | _ => false

/-- Whether something leaves a subscription to its holder. -/
def Diary.Action.leavesAlone (a : Action) (s : Seat) : Bool :=
  match a with
  | .market (.leave t) | .market (.receive t) => t ≠ s
  | _ => true

namespace Diary

/-- A service that has just been started, on a feed with some room, delay and failures to come. -/
def opened (config : Config) (buffer delay failures : Nat) (time : Timestamp) : Diary :=
  ⟨.start config (.create buffer delay failures) time, [], fun _ => .empty, [], [], false⟩

/-- The market of the service. -/
def market (x : Diary) : Market := x.service.market

/-- The quotes that came into the cache after something has happened around the market. -/
def cameAfter (x : Diary) : Market.Action → List ReceivedQuote
  | .feed s =>
    match (x.market.receive s).1 with
    | .item q => x.came ++ [⟨q, x.market.now⟩]
    | _ => x.came
  | _ => x.came

/-- What the line of the keeper had published before, if it is now that the keeper gets a seat. -/
def missedAfter (x : Diary) (m : Market) : List Quote :=
  match x.service.seat?, (x.service.setMarket m).seat? with
  | none, some s => (x.books s.line).receipts
  | _, _ => x.missed

/-- Whether a quote is published that finds the buffer of the keeper full. -/
def overruns (x : Diary) : Market.Action → Bool
  | .dispatch i =>
    match x.service.seat?, x.market.lines[i]? with
    | some s, some l =>
      s.line = i && (x.market.published? i).isSome && l.bus.capacity ≤ l.bus.buffered s.id
    | _, _ => false
  | _ => false

/-- The diary after something has happened around the market. -/
def afterMarket (x : Diary) (a : Market.Action) (m : Market) : Diary :=
  { service := x.service.setMarket m
    held := Session.heldAfter ⟨x.market, x.held⟩ m a
    books := x.market.noted m x.books a
    came := x.cameAfter a
    missed := x.missedAfter m
    overrun := x.overrun || x.overruns a }

/-- The subscriptions held after a step of the keeper, who gives its own up when it is stopped. -/
def heldAfterKeep (x : Diary) : List Seat :=
  match x.service.warmer with
  | .feeding s => if x.service.stopped then x.held.filter (fun t => t ≠ s) else x.held
  | _ => x.held

/-- The diary after a step of the keeper. -/
def afterKeep (x : Diary) (warmer : Warmer) (m : Market) : Diary :=
  { x with service := { x.service.setMarket m with warmer }, held := x.heldAfterKeep }

/-- The diary with another ledger. -/
def setLedger (x : Diary) (ledger : Ledger) : Diary :=
  { x with service := { x.service with ledger } }

/-- The diary with another time of day. -/
def setTime (x : Diary) (time : Timestamp) : Diary :=
  { x with service := x.service.setTime time }

/-- The diary after the stop signal has fired. -/
def stop (x : Diary) : Diary :=
  { x with service := { x.service with stopped := true } }

/-- The diary after one action, where it can be taken. -/
def step? (x : Diary) : Action → Option Diary
  | .market a =>
    if x.service.permits a then (x.market.act? a).map (x.afterMarket a) else none
  | .keep =>
    (x.service.warmer.step? x.service.config.quotes.resubscribeBackoffMs x.service.stopped
      x.market).map (fun (warmer, m) => x.afterKeep warmer m)
  | .enter e =>
    some (x.setLedger (x.service.ledger.spawn (e.operation x.service.config.trading)).2)
  | .task id => (x.service.ledger.stepAt? x.service.surroundings id).map x.setLedger
  | .cancel id => some (x.setLedger (x.service.ledger.cancel id))
  | .moveBack id => some (x.setLedger (x.service.ledger.moveBack id))
  | .clock time => some (x.setTime time)
  | .stop => some x.stop
  | .heed => x.service.heed?.map (fun service => { x with service })

/-- The diary after some actions, where all of them can be taken. -/
def run? (x : Diary) (actions : List Action) : Option Diary :=
  actions.foldlM step? x

/-- What a step can be. -/
inductive Steps (x : Diary) : Action → Diary → Prop
  | market {a : Market.Action} {m : Market} (hpermits : x.service.permits a = true)
      (hact : x.market.act? a = some m) : Steps x (.market a) (x.afterMarket a m)
  | keep {w : Warmer} {m : Market}
      (hkeep : Warmer.Steps x.service.config.quotes.resubscribeBackoffMs x.service.stopped
        x.market x.service.warmer w m) : Steps x .keep (x.afterKeep w m)
  | enter (e : Errand) : Steps x (.enter e)
      (x.setLedger (x.service.ledger.spawn (e.operation x.service.config.trading)).2)
  | task {id : Nat} {ledger : Ledger}
      (htask : x.service.ledger.stepAt? x.service.surroundings id = some ledger) :
      Steps x (.task id) (x.setLedger ledger)
  | cancel (id : Nat) : Steps x (.cancel id) (x.setLedger (x.service.ledger.cancel id))
  | moveBack (id : Nat) : Steps x (.moveBack id) (x.setLedger (x.service.ledger.moveBack id))
  | clock (time : Timestamp) : Steps x (.clock time) (x.setTime time)
  | stop : Steps x .stop x.stop
  | heed {ledger : Ledger} (htold : x.service.stopped = true)
      (hheed : x.service.ledger.heed? x.service.job = some ledger) :
      Steps x .heed (x.setLedger ledger)

/-- Nothing can go on before somebody comes or time passes. -/
def AtRest (x : Diary) : Prop :=
  ∀ a : Action, a.isOwn = true → x.step? a = none

/-- What is known of the subscription of the keeper. It is held, what is in its buffer was published,
and as long as no quote found the buffer full, what its line has published is what the keeper missed,
then what came into the cache, then what is in the buffer. -/
structure Seated (x : Diary) (s : Seat) (u : Subscription) : Prop where
  held : s ∈ x.held
  found : x.market.subscription? s = some u
  published : ∀ q ∈ u.buffer, q ∈ (x.books s.line).receipts
  flows : x.overrun = false →
    (x.books s.line).receipts = x.missed ++ (x.came.map (·.quote) ++ u.buffer)

/-- What is known of the keeper. Nothing has come into the cache before it has a seat, and the cache
has no other subscriptions than that of the keeper. -/
def Keeping (x : Diary) : Prop :=
  match x.service.warmer with
  | .asking ticket => x.came = [] ∧ x.market.feeders = [] ∧
      ∀ s, (x.market.grant? ticket).bind Grant.seat? = some s → ∃ u, x.Seated s u
  | .feeding s => x.market.feeders = [s] ∧ ∃ u, x.Seated s u
  | .resting _ => x.came = [] ∧ x.market.feeders = []
  | .stopped => x.market.feeders = []

/-- What is known of a service and its past. -/
structure Kept (x : Diary) : Prop where
  session : Session.Kept ⟨x.market, x.held⟩
  recorded : x.market.intake.Recorded x.books
  buses : ∀ l ∈ x.market.lines, l.bus.Sound
  symbols : x.market.intake.settings.symbols = x.service.config.trading.supportedSymbols
  holds : x.market.cache.Holds x.came
  past : ∀ e ∈ x.came, e.receivedAt ≤ x.market.now
  /-- What came into the cache was decoded from a tick. -/
  origin : ∀ e ∈ x.came, ∃ i, ∃ p ∈ (x.books i).takings,
    p.2.quote? x.market.intake.settings.symbols = some e.quote
  keeping : x.Keeping

variable {x x' : Diary} {a : Action} {s : Seat} {u : Subscription}

theorem steps_of_step? (h : x.step? a = some x') : x.Steps a x' := by
  cases a with
  | market a =>
      simp only [step?] at h
      split at h
      · next hpermits =>
        rcases Option.map_eq_some_iff.1 h with ⟨m, hact, rfl⟩
        exact .market hpermits hact
      · exact absurd h (by simp only [reduceCtorEq, not_false_eq_true])
  | keep =>
      rcases Option.map_eq_some_iff.1 h with ⟨⟨w, m⟩, hkeep, rfl⟩
      exact .keep (Warmer.steps_of_step? hkeep)
  | task id =>
      rcases Option.map_eq_some_iff.1 h with ⟨ledger, htask, rfl⟩
      exact .task htask
  | enter e =>
      cases Option.some.inj h
      exact .enter e
  | cancel id =>
      cases Option.some.inj h
      exact .cancel id
  | moveBack id =>
      cases Option.some.inj h
      exact .moveBack id
  | clock time =>
      cases Option.some.inj h
      exact .clock time
  | stop =>
      cases Option.some.inj h
      exact .stop
  | heed =>
      rcases Option.map_eq_some_iff.1 h with ⟨service, hservice, rfl⟩
      unfold Service.heed? at hservice
      split_ifs at hservice with htold
      rcases Option.map_eq_some_iff.1 hservice with ⟨ledger, hheed, rfl⟩
      exact .heed htold hheed

theorem step?_market {a : Market.Action} {m : Market} (hpermits : x.service.permits a = true)
    (hact : x.market.act? a = some m) : x.step? (.market a) = some (x.afterMarket a m) := by
  rw [step?, if_pos hpermits, hact]
  rfl

/-- The configuration stays as it is. -/
theorem config_of_step? (hstep : x.step? a = some x') : x'.service.config = x.service.config := by
  cases steps_of_step? hstep with
  | _ => rfl

theorem seat?_of_asking {ticket : Nat} (h : x.service.warmer = .asking ticket) :
    x.service.seat? = (x.market.grant? ticket).bind Grant.seat? := by
  rw [Service.seat?, h]
  rfl

theorem seat?_of_feeding (h : x.service.warmer = .feeding s) : x.service.seat? = some s := by
  rw [Service.seat?, h]

/-- The seat of the keeper is one of which that is known. -/
theorem Keeping.seated (h : x.Keeping) (hs : x.service.seat? = some s) : ∃ u, x.Seated s u := by
  unfold Service.seat? at hs
  unfold Keeping at h
  cases hw : x.service.warmer with
  | asking ticket =>
      rw [hw] at h hs
      exact h.2.2 s hs
  | feeding t =>
      rw [hw] at h hs
      rw [← Option.some.inj hs]
      exact h.2
  | resting due =>
      rw [hw] at hs
      exact absurd hs (by simp only [reduceCtorEq, not_false_eq_true])
  | stopped =>
      rw [hw] at hs
      exact absurd hs (by simp only [reduceCtorEq, not_false_eq_true])

/-- Only the subscription of the keeper goes to the cache. -/
theorem Keeping.eq_of_mem_feeders (h : x.Keeping) (hs : s ∈ x.market.feeders) :
    x.service.warmer = .feeding s := by
  unfold Keeping at h
  cases hw : x.service.warmer with
  | asking ticket =>
      rw [hw] at h
      rw [h.2.1] at hs
      exact absurd hs List.not_mem_nil
  | feeding t =>
      rw [hw] at h
      rw [h.1] at hs
      rw [List.mem_singleton.1 hs]
  | resting due =>
      rw [hw] at h
      rw [h.2] at hs
      exact absurd hs List.not_mem_nil
  | stopped =>
      rw [hw] at h
      rw [show x.market.feeders = [] from h] at hs
      exact absurd hs List.not_mem_nil

end Diary

end Bourse
