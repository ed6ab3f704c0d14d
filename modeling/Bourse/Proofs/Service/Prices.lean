import Bourse.Proofs.Ledger.Trades
import Bourse.Proofs.Service.Rest

/-!
# The Prices of Trades

The price that a trade takes is the text of a tick, read as an amount. The tick is the last of its
symbol that had come into the cache when the price was taken, and it had come in not long
before. What has come into the cache is a stretch of the ticks of one ingestor, without a gap and
in the order in which it took them, unless a quote was published that found the buffer of the
keeper full.

## Main definitions

* `Orderly`: what has come into the cache has come in order.
* `Shows`: the price that the cache has of a symbol.
* `Takes`: a trade takes a price.

## Theorems

* `orderly_of_run?`: what comes into the cache comes in order.
* `Kept.shows_of_takes`, `Kept.shows_in_order`: a trade takes a price that the cache has.
-/

namespace Bourse

namespace Diary

variable {x x' : Diary} {s : Seat} {u : Subscription} {i : Nat} {symbol : String} {price : Amount}

/-! ## The order in which quotes came -/

/-- What has come into the cache is a stretch of what one ingestor took in. And a keeper that stops
before it is told to has never fed the cache. -/
structure Orderly (x : Diary) : Prop where
  order : x.overrun = false → ∃ i, x.came.map (·.quote) <:+: x.quotesAt i
  idle : x.service.warmer = .stopped → x.service.stopped = false → x.came = []

/-- What the line of the keeper has published is what its ingestor took in at first. -/
theorem Kept.receipts_isPrefix (h : x.Kept) (hs : s ∈ x.held) :
    (x.books s.line).receipts <+: x.quotesAt s.line := by
  rcases h.session.live_of_mem hs with ⟨-, w, -, hw, -⟩
  have hfaithful := h.recorded.faithful s.line w hw
  rw [quotesAt, hfaithful.quotes, hfaithful.output, List.append_assoc]
  exact List.prefix_append _ _

/-- As long as the keeper goes on, its subscription sees to the order. -/
theorem Kept.order_of_going (h : x.Kept) (hgoing : x.service.warmer ≠ .stopped)
    (hfits : x.overrun = false) : ∃ i, x.came.map (·.quote) <:+: x.quotesAt i := by
  have hkeeping := h.keeping
  unfold Keeping at hkeeping
  cases hw : x.service.warmer with
  | asking ticket =>
      rw [hw] at hkeeping
      rw [hkeeping.1]
      exact ⟨0, List.nil_infix⟩
  | feeding s =>
      rw [hw] at hkeeping
      rcases hkeeping.2 with ⟨u, hu⟩
      refine ⟨s.line, List.IsInfix.trans ⟨x.missed, u.buffer, ?_⟩
        (h.receipts_isPrefix hu.held).isInfix⟩
      rw [hu.flows hfits, List.append_assoc]
  | resting due =>
      rw [hw] at hkeeping
      rw [hkeeping.1]
      exact ⟨0, List.nil_infix⟩
  | stopped => exact absurd hw hgoing

/-- What an ingestor took in is the beginning of what it will have taken in. -/
theorem Kept.quotesAt_isPrefix (h : x.Kept) {a : Market.Action} {m : Market}
    (hact : x.market.act? a = some m) (i : Nat) :
    x.quotesAt i <+: (x.afterMarket a m).quotesAt i := by
  have hsettings : (x.afterMarket a m).market.intake.settings = x.market.intake.settings :=
    (Market.moves_act? h.session.fit.paired hact).settings
  rw [quotesAt, quotesAt, hsettings]
  exact (Market.takings_noted x.market m x.books a i).filterMap _

/-- What is around the market does not come into the cache of a keeper that has stopped. -/
theorem Kept.cameAfter_of_stopped (h : x.Kept) (hw : x.service.warmer = .stopped)
    {a : Market.Action} {m : Market} (hact : x.market.act? a = some m) : x.cameAfter a = x.came := by
  cases a with
  | feed s => exact absurd (hw.symm.trans (h.warmer_of_feed hact).1) Warmer.noConfusion
  | _ => rfl

/-- A keeper that stops has been told to, or it has never fed the cache. -/
theorem Kept.came_of_stops (h : x.Kept) {m : Market}
    (hkeep : Warmer.Steps x.service.config.quotes.resubscribeBackoffMs x.service.stopped x.market
      x.service.warmer .stopped m) : x.service.stopped = true ∨ x.came = [] := by
  have hkeeping := h.keeping
  unfold Keeping at hkeeping
  generalize x.service.warmer = w at hkeep hkeeping
  cases hkeep with
  | crashed hanswer => exact Or.inr hkeeping.1
  | leaves htold => exact Or.inl htold
  | stops htold => exact Or.inl htold

/-- What comes into the cache comes in order, whatever happens. -/
theorem orderly_of_step? {a : Action} (h : x.Kept) (ho : x.Orderly) (hstep : x.step? a = some x') :
    x'.Orderly := by
  have hkept := kept_of_step? h hstep
  by_cases hstopped : x'.service.warmer = .stopped
  · cases steps_of_step? hstep with
    | @market a m hpermits hact =>
        -- Nothing comes in any more, but the ingestors go on.
        have hcame : (x.afterMarket a m).came = x.came := h.cameAfter_of_stopped hstopped hact
        refine ⟨fun hfits => ?_, fun _ htold => hcame.trans (ho.idle hstopped htold)⟩
        rcases ho.order (Bool.or_eq_false_iff.1 hfits).1 with ⟨i, hi⟩
        rw [hcame]
        exact ⟨i, hi.trans (h.quotesAt_isPrefix hact i).isInfix⟩
    | @keep w m hkeep =>
        have hgoing : x.service.warmer ≠ .stopped := by
          intro hw
          rw [hw] at hkeep
          cases hkeep
        refine ⟨fun hfits => ?_, fun _ htold => ?_⟩
        · rcases h.order_of_going hgoing hfits with ⟨i, hi⟩
          rw [quotesAt, h.symbols] at hi
          refine ⟨i, ?_⟩
          rw [quotesAt, hkept.symbols]
          exact hi
        · have hw : w = .stopped := hstopped
          subst hw
          rcases h.came_of_stops hkeep with htold' | hempty
          · exact absurd (htold'.symm.trans htold) Bool.false_ne_true.symm
          · exact hempty
    | stop => exact ⟨ho.order, fun _ htold => absurd htold.symm Bool.false_ne_true⟩
    | _ => exact ⟨ho.order, ho.idle⟩
  · exact ⟨hkept.order_of_going hstopped, fun hw => absurd hw hstopped⟩

theorem orderly_of_run? {config : Config} {buffer delay failures : Nat} {time : Timestamp}
    {actions : List Action}
    (h : (opened config buffer delay failures time).run? actions = some x) : x.Orderly := by
  have hfirst := kept_opened config buffer delay failures time
  refine (run_induction (fun _ x => x.Kept ∧ x.Orderly) ⟨hfirst, ?_⟩
    (fun _ _ _ _ _ hboth hstep => ⟨kept_of_step? hboth.1 hstep,
      orderly_of_step? hboth.1 hboth.2 hstep⟩) h).2
  exact ⟨hfirst.order_of_going Warmer.noConfusion, fun _ _ => rfl⟩

/-! ## The prices -/

/-- The price that the cache has of a symbol is the text of a tick that an ingestor took, read as an
amount. It is the last tick of the symbol that has come in, and it has come in less than the greatest
age of prices ago. -/
def Shows (x : Diary) (i : Nat) (symbol : String) (price : Amount) : Prop :=
  ∃ e, lastOf x.came symbol = some e ∧
    e.receivedAt ≤ x.market.now ∧
    x.market.now - e.receivedAt < x.service.config.trading.maxQuoteAgeMs ∧
    ∃ p ∈ (x.books i).takings,
      p.2.quote? x.service.config.trading.supportedSymbols = some e.quote ∧
      Amount.parse p.2.price = .ok price

/-- The trade of a task takes a price. -/
def Takes (x : Diary) (id : Nat) (symbol : String) (price : Amount) : Prop :=
  ∃ t, x.service.ledger.task? id = some t ∧
    Execution.Finds x.service.config.trading x.service.surroundings t symbol price

/-- A price that is fresh is that of a tick. -/
theorem Kept.shows_of_quote (h : x.Kept) {e : ReceivedQuote} {p : Nat × RawTick}
    (hlast : lastOf x.came symbol = some e)
    (hage : x.market.now - e.receivedAt < x.service.config.trading.maxQuoteAgeMs)
    (hprice : e.quote.price = price) (hp : p ∈ (x.books i).takings)
    (hquote : p.2.quote? x.market.intake.settings.symbols = some e.quote) :
    x.Shows i symbol price := by
  have he := (of_lastOf hlast).1
  rw [h.symbols] at hquote
  refine ⟨e, hlast, h.past e he, hage, p, hp, hquote, ?_⟩
  unfold RawTick.quote? at hquote
  split at hquote
  · split at hquote
    · next parsed hparse =>
      have hsame := congrArg Quote.price (Option.some.inj hquote)
      rw [hparse, ← hprice, ← hsame]
    · exact absurd hquote (by simp only [reduceCtorEq, not_false_eq_true])
  · exact absurd hquote (by simp only [reduceCtorEq, not_false_eq_true])

theorem Kept.fresh_of_takes (h : x.Kept) {id : Nat} (htakes : x.Takes id symbol price) :
    ∃ e, lastOf x.came symbol = some e ∧
      x.market.now - e.receivedAt < x.service.config.trading.maxQuoteAgeMs ∧
      e.quote.price = price := by
  rcases htakes with ⟨t, -, y, due, r, seen, -, -, -, -, -, hfresh⟩
  exact h.holds.fresh?_eq_some.1 hfresh

/-- A trade takes a price that the cache has. -/
theorem Kept.shows_of_takes (h : x.Kept) {id : Nat} (htakes : x.Takes id symbol price) :
    ∃ i, x.Shows i symbol price := by
  rcases h.fresh_of_takes htakes with ⟨e, hlast, hage, hprice⟩
  rcases h.origin e (of_lastOf hlast).1 with ⟨i, p, hp, hquote⟩
  exact ⟨i, h.shows_of_quote hlast hage hprice hp hquote⟩

/-- What has come into the cache before is then a stretch of what the ingestor of the tick took in. -/
theorem Kept.shows_in_order (h : x.Kept) (ho : x.Orderly) (hfits : x.overrun = false) {id : Nat}
    (htakes : x.Takes id symbol price) :
    ∃ i, x.came.map (·.quote) <:+: x.quotesAt i ∧ x.Shows i symbol price := by
  rcases h.fresh_of_takes htakes with ⟨e, hlast, hage, hprice⟩
  rcases ho.order hfits with ⟨i, hi⟩
  have hmem : e.quote ∈ x.quotesAt i :=
    hi.subset (List.mem_map_of_mem (f := (·.quote)) (of_lastOf hlast).1)
  rcases List.mem_filterMap.1 hmem with ⟨p, hp, hquote⟩
  exact ⟨i, hi, h.shows_of_quote hlast hage hprice hp hquote⟩

end Diary

end Bourse
