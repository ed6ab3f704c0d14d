import Bourse.Proofs.Service.Prices

/-!
# From the Tick to the Trade

Every price on the ledger of a service can be followed back. A trade that has come back well has
the price that it took from the cache in a step of its own, and so has its record, which it has
entered in the log. Nothing else that happens to a service makes a price.

## Main definitions

* `sources`: the prices that trades took and the records that they entered, along a run.
* `UpToDate`: what the cache has when nothing can go on.
* `Taken`, `Traced`: a price and a trade that can be followed back.

## Theorems

* `inOrder_of_run?`: the ledger of a service is in order.
* `price_of_run`: the prices in the cache and those of trades, whatever has happened.
-/

namespace Bourse

namespace Diary

variable {x x' start : Diary} {s : Seat} {symbol : String} {price : Amount}
  {past actions : List Action}

/-! ## The sources -/

/-- What is known, after a run, of the prices that trades took and of the records that they
entered. -/
def sources (start : Diary) (actions : List Action) : Sources where
  price id symbol price := ∃ past y, past ++ [.task id] <+: actions ∧ start.run? past = some y ∧
    y.Takes id symbol price
  entry id r := ∃ past y y', past ++ [.task id] <+: actions ∧ start.run? past = some y ∧
    y.step? (.task id) = some y' ∧ ∃ user,
      y'.service.ledger.books.store.log user = y.service.ledger.books.store.log user ++ [r]

/-- What was known stays known. -/
theorem price_sources_mono (h : past <+: actions) {id : Nat}
    (hprice : (sources start past).price id symbol price) :
    (sources start actions).price id symbol price := by
  rcases hprice with ⟨before, y, hbefore, hrun, htakes⟩
  exact ⟨before, y, hbefore.trans h, hrun, htakes⟩

theorem entry_sources_mono (h : past <+: actions) {id : Nat} {r : TradeRecord}
    (hentry : (sources start past).entry id r) : (sources start actions).entry id r := by
  rcases hentry with ⟨before, y, y', hbefore, hrun, hstep, hlog⟩
  exact ⟨before, y, y', hbefore.trans h, hrun, hstep, hlog⟩

/-! ## The ledger -/

/-- What happens keeps the ledger in order. -/
theorem inOrder_of_step? {a : Action} (hrun : start.run? past = some x)
    (h : x.service.ledger.InOrder (sources start past) x.service.config.trading)
    (hstep : x.step? a = some x') :
    x'.service.ledger.InOrder (sources start (past ++ [a])) x'.service.config.trading := by
  have h' : x.service.ledger.InOrder (sources start (past ++ [a])) x'.service.config.trading := by
    rw [config_of_step? hstep]
    exact h.mono (fun _ _ _ => price_sources_mono (List.prefix_append past [a]))
      (fun _ _ => entry_sources_mono (List.prefix_append past [a]))
  cases steps_of_step? hstep with
  | market hpermits hact => exact h'
  | keep hkeep => exact h'
  | enter e => exact Ledger.inOrder_spawn h' e
  | @task id ledger htask =>
      -- The price that the trade takes, and the entry that it makes, are known of this very step.
      refine Ledger.inOrder_of_stepAt? h' htask fun t ht => ⟨fun symbol price hfinds => ?_,
        fun user r hlog => ?_⟩
      · rw [Ledger.id_of_task? ht]
        exact ⟨past, x, List.prefix_refl _, hrun, t, ht, hfinds⟩
      · rw [Ledger.id_of_task? ht]
        exact ⟨past, x, _, List.prefix_refl _, hrun, hstep, user, hlog⟩
  | cancel id => exact Ledger.inOrder_cancel h' id
  | moveBack id => exact Ledger.inOrder_moveBack h' id
  | clock time => exact h'
  | stop => exact h'
  | heed htold hheed => exact Ledger.inOrder_heed h' hheed

/-- The ledger of a service is in order, whatever has happened. -/
theorem inOrder_of_run? {config : Config} {buffer delay failures : Nat} {time : Timestamp}
    (h : (opened config buffer delay failures time).run? actions = some x) :
    x.service.ledger.InOrder (sources (opened config buffer delay failures time) actions)
      x.service.config.trading := by
  refine run_induction (fun past x => x.service.ledger.InOrder
      (sources (opened config buffer delay failures time) past) x.service.config.trading)
    ?_ (fun _ _ _ _ hrun hboth hstep => inOrder_of_step? hrun hboth hstep) h
  exact (Ledger.inOrder_create _ _ config.trading config.valuation).add none
    fun _ hy => Operation.noConfusion hy

/-! ## The whole way -/

/-- A quote that has found the buffer of the keeper full stays in the records. -/
theorem overrun_of_step? {a : Action} (hstep : x.step? a = some x') (h : x'.overrun = false) :
    x.overrun = false := by
  cases steps_of_step? hstep with
  | market hpermits hact => exact (Bool.or_eq_false_iff.1 h).1
  | _ => exact h

theorem overrun_of_isPrefix (hpast : past <+: actions) {y : Diary} (hy : start.run? past = some y)
    (hx : start.run? actions = some x) (h : x.overrun = false) : y.overrun = false := by
  rcases hpast with ⟨later, rfl⟩
  have hlater : y.run? later = some x := by
    rw [run?, List.foldlM_append] at hx
    rcases Option.bind_eq_some_iff.1 hx with ⟨y', hy', hlast⟩
    cases Option.some.inj (hy.symm.trans hy')
    exact hlast
  revert h
  exact run_induction (fun _ x => x.overrun = false → y.overrun = false) id
    (fun _ _ _ _ _ ih hstep h => ih (overrun_of_step? hstep h)) hlater

/-- What has come into the cache is up to date when nothing can go on. As long as the keeper has its
subscription, the cache has the last quote of each symbol among those that the line of the keeper took
in and had not published before the keeper joined it. It has nothing before there is a subscription,
and keeps what it has once the service has been stopped. -/
def UpToDate (x : Diary) : Prop :=
  ∃ later, (∀ symbol, x.market.cache.latest? symbol = lastQuote later symbol) ∧
    match x.service.warmer with
    | .asking _ | .resting _ => later = []
    | .feeding s => x.quotesAt s.line = x.missed ++ later
    | .stopped => (∃ i, later <:+: x.quotesAt i) ∧ (x.service.stopped = false → later = [])

/-- The trade of a task took a price from the cache in a step of its own. What had come into the cache
then is a stretch of the ticks that one ingestor took, and the price is that of the last of its symbol. -/
def Taken (start : Diary) (actions : List Action) (id : Nat) (symbol : String)
    (price : Amount) : Prop :=
  ∃ past y, past ++ [.task id] <+: actions ∧ start.run? past = some y ∧ y.Takes id symbol price ∧
    ∃ i, y.came.map (·.quote) <:+: y.quotesAt i ∧ y.Shows i symbol price

/-- A trade has come back at a price that it took from the cache, and that is the price in its record,
which another step of it has entered in a log. -/
structure Traced (start : Diary) (actions : List Action) (id : Nat) (o : TradeOutcome) : Prop where
  taken : Taken start actions id o.symbol o.price
  recorded : o.record.symbol = o.symbol ∧ o.record.price = o.price
  entered : ∃ past y y', past ++ [.task id] <+: actions ∧ start.run? past = some y ∧
    y.step? (.task id) = some y' ∧ ∃ user,
      y'.service.ledger.books.store.log user = y.service.ledger.books.store.log user ++ [o.record]

theorem Kept.upToDate_of_rest (h : x.Kept) (ho : x.Orderly) (hrest : x.AtRest)
    (hfits : x.overrun = false) : x.UpToDate := by
  unfold UpToDate
  cases hw : x.service.warmer with
  | asking ticket => exact ⟨[], h.latest?_of_unseated (Or.inl ⟨ticket, hw⟩), rfl⟩
  | resting due => exact ⟨[], h.latest?_of_unseated (Or.inr ⟨due, hw⟩), rfl⟩
  | feeding s =>
      rcases h.latest?_of_rest hrest hfits hw with ⟨later, hquotes, hlatest⟩
      exact ⟨later, hlatest, hquotes⟩
  | stopped =>
      refine ⟨x.came.map (·.quote), fun symbol => ?_, ho.order hfits, fun hstopped => ?_⟩
      · rw [lastQuote_eq]
        exact h.holds.latest?_eq symbol
      · rw [ho.idle hw hstopped]
        rfl

theorem taken_of_sources {config : Config} {buffer delay failures : Nat} {time : Timestamp}
    (h : (opened config buffer delay failures time).run? actions = some x)
    (hfits : x.overrun = false) {id : Nat}
    (hprice : (sources (opened config buffer delay failures time) actions).price id symbol price) :
    Taken (opened config buffer delay failures time) actions id symbol price := by
  rcases hprice with ⟨past, y, hpast, hy, htakes⟩
  have hfits' := overrun_of_isPrefix ((List.prefix_append past [.task id]).trans hpast) hy h hfits
  exact ⟨past, y, hpast, hy, htakes,
    (kept_of_run? hy).shows_in_order (orderly_of_run? hy) hfits' htakes⟩

/-- Whatever has happened, as long as no quote has found the buffer of the keeper full: the cache is up to
date when nothing can go on, the price of each trade that has come back well can be followed back
to a tick, and so can the price of every entry in a log. -/
theorem price_of_run {config : Config} {buffer delay failures : Nat} {time : Timestamp}
    (h : (opened config buffer delay failures time).run? actions = some x)
    (hfits : x.overrun = false) :
    (x.AtRest → x.UpToDate) ∧
    (∀ id o, x.service.ledger.result? id = some (some (.execution (.ok o))) →
      Traced (opened config buffer delay failures time) actions id o) ∧
    ∀ user, ∀ r ∈ x.service.ledger.books.store.log user,
      ∃ id, Taken (opened config buffer delay failures time) actions id r.symbol r.price := by
  have hledger := inOrder_of_run? h
  refine ⟨fun hrest => (kept_of_run? h).upToDate_of_rest (orderly_of_run? h) hrest hfits,
    fun id o ho => ?_, fun user r hr => ?_⟩
  · rcases hledger.results id o ho with ⟨hprice, hentry⟩
    exact ⟨taken_of_sources h hfits hprice, ⟨rfl, rfl⟩, hentry⟩
  · rcases hledger.logs user r hr with ⟨id, hprice⟩
    exact ⟨id, taken_of_sources h hfits hprice⟩

/-- The keeper has a line opened, and a first tick comes in before the keeper is on it. Then another
one comes in, one that is no price, and the connection breaks off; one more tick comes in through the next
connection. Somebody buys, and while the trade is under way another tick comes in. -/
def reconnecting : List Action :=
  [.market .nextTurn, .market .endAttempt, .market (.tend .accept),
    .market (.tend (.send 0 ⟨"ETH", "2000", ⟨0, 0⟩⟩)), .market (.turn 0 .goOn),
    .market (.turn 0 .goOn), .market (.dispatch 0), .market .takeSeat, .keep,
    .market (.tend (.send 0 ⟨"BTC", "30000", ⟨0, 0⟩⟩)),
    .market (.tend (.send 0 ⟨"BTC", "none", ⟨0, 0⟩⟩)), .market (.tend (.close 0)),
    .market (.turn 0 .goOn), .market (.turn 0 .goOn), .market (.turn 0 .goOn),
    .market (.turn 0 .goOn), .market (.dispatch 0), .market (.feed ⟨0, 0⟩), .market (.wait 100),
    .market (.turn 0 .goOn), .market (.turn 0 .goOn), .market (.tend .accept),
    .market (.tend (.send 1 ⟨"BTC", "31000.5", ⟨0, 0⟩⟩)), .market (.turn 0 .goOn),
    .market (.turn 0 .goOn), .market (.dispatch 0), .market (.feed ⟨0, 0⟩),
    .enter (.account ⟨"alice", "Alice", ""⟩), .task 1, .task 1, .task 1, .task 1, .task 1,
    .enter (.trade 0 "alice" ⟨.buy, "BTC", some (.ofUnits 1)⟩ false), .task 2, .task 2,
    .market (.tend (.send 1 ⟨"BTC", "32000", ⟨0, 0⟩⟩)), .market (.turn 0 .goOn),
    .market (.turn 0 .goOn), .market (.dispatch 0), .market (.feed ⟨0, 0⟩), .task 2, .task 2,
    .task 2, .task 2, .task 2, .task 2, .task 2] ++ List.replicate 9 (.task 0)

/-- The trade has the price of the tick before it, and the cache that of the last one. The first tick of
all is not in the cache: the line was opened for the keeper, but the keeper was not on it yet. -/
theorem price_of_run_reconnecting :
    ∃ x o, (opened .standard 64 0 0 ⟨0, 0⟩).run? reconnecting = some x ∧ x.overrun = false ∧
      x.AtRest ∧ x.UpToDate ∧ x.market.cache.latest? "BTC" = some ⟨"BTC", .ofUnits 32000, ⟨0, 0⟩⟩ ∧
      (x.quotesAt 0).head? = some ⟨"ETH", .ofUnits 2000, ⟨0, 0⟩⟩ ∧
      x.market.cache.latest? "ETH" = none ∧
      x.service.ledger.result? 2 = some (some (.execution (.ok o))) ∧
      o.price = ⟨31000, 500000000⟩ ∧
      Traced (opened .standard 64 0 0 ⟨0, 0⟩) reconnecting 2 o := by
  obtain ⟨x, o, hrun, hfits, hsettled, hlatest, hfirst, hmissing, hresult, hprice⟩ : ∃ x o,
      (opened .standard 64 0 0 ⟨0, 0⟩).run? reconnecting = some x ∧ x.overrun = false ∧
      x.service.step? = none ∧
      x.market.cache.latest? "BTC" = some ⟨"BTC", .ofUnits 32000, ⟨0, 0⟩⟩ ∧
      (x.quotesAt 0).head? = some ⟨"ETH", .ofUnits 2000, ⟨0, 0⟩⟩ ∧
      x.market.cache.latest? "ETH" = none ∧
      x.service.ledger.result? 2 = some (some (.execution (.ok o))) ∧
      o.price = ⟨31000, 500000000⟩ :=
    ⟨_, _, rfl, rfl, rfl, rfl, rfl, rfl, rfl, rfl⟩
  have hrest := atRest_of_settled hsettled
  rcases price_of_run hrun hfits with ⟨hcache, htrades, -⟩
  exact ⟨x, o, hrun, hfits, hrest, hcache hrest, hlatest, hfirst, hmissing, hresult, hprice,
    htrades 2 o hresult⟩

/-- The attempt to open a line for the keeper fails. Somebody else has one opened, and a tick comes
in. The keeper joins the line a while later. -/
def joiningLate : List Action :=
  [.task 0, .task 0, .task 0, .task 0, .task 0, .market .nextTurn, .market .endAttempt, .keep,
    .market .request, .market .nextTurn, .market .endAttempt, .market .takeSeat,
    .market (.tend .accept), .market (.tend (.send 0 ⟨"BTC", "30000", ⟨0, 0⟩⟩)),
    .market (.turn 0 .goOn), .market (.turn 0 .goOn), .market (.dispatch 0),
    .market (.wait 1000), .keep, .market .nextTurn, .keep]

/-- The cache does not get the tick though nothing can go on, and the tick is the last one that any
ingestor took. -/
theorem not_latest_of_joining_late :
    ∃ x q, (opened .standard 64 0 1 ⟨0, 0⟩).run? joiningLate = some x ∧ x.overrun = false ∧
      x.service.stopped = false ∧ x.service.warmer = .feeding ⟨0, 1⟩ ∧ x.AtRest ∧
      x.market.intake.ingestors.length = 1 ∧ lastQuote (x.quotesAt 0) "BTC" = some q ∧
      x.market.cache.latest? "BTC" ≠ some q := by
  obtain ⟨x, q, hrun, hfits, hgoing, hwarmer, hsettled, hingestors, hlast, hlatest⟩ : ∃ x q,
      (opened .standard 64 0 1 ⟨0, 0⟩).run? joiningLate = some x ∧ x.overrun = false ∧
      x.service.stopped = false ∧ x.service.warmer = .feeding ⟨0, 1⟩ ∧ x.service.step? = none ∧
      x.market.intake.ingestors.length = 1 ∧ lastQuote (x.quotesAt 0) "BTC" = some q ∧
      x.market.cache.latest? "BTC" = none :=
    ⟨_, _, rfl, rfl, rfl, rfl, rfl, rfl, rfl, rfl⟩
  refine ⟨x, q, hrun, hfits, hgoing, hwarmer, atRest_of_settled hsettled, hingestors, hlast, ?_⟩
  rw [hlatest]
  exact (Option.some_ne_none q).symm

end Diary

end Bourse
