import Bourse.Proofs.Json.Reading
import Bourse.Proofs.Ledger.Sturdy
import Bourse.Proofs.Market.Room
import Bourse.Proofs.Service.Guests
import Bourse.Proofs.Service.Trades

/-!
# Configurations to Run With

A configuration has many numbers without a bound, and most of them do no harm. A page of
no users, no users at a time and a bus without room are taken as one, and a wait may be as
long as it likes. What remains are five numbers that the service takes as they are, and with
which it breaks off: the size of the buffers between the feed and a bus, the size of those of a
bus where nobody can make one so large, the users at a time where nobody can count them, the
hours that snapshots are kept where these lead out of time, and the interval between valuation
runs where it leads to a time that cannot be counted. The pause after a run that failed is never
longer than the interval, so it needs no bound of its own.

`Config.IsRunnable` says of all five that they are as they should be. With such a
configuration nothing breaks off in the first half of the running time, whatever happens. None
of the five is looked at when the configuration is read. So a text that is read without complaint
can be one with which nobody ever gets a subscription.

## Main definitions

* `Config.IsRunnable`: a configuration that a service can be run with.
* `Service.Unbroken`: nothing of a service has broken off.
* `Diary.Durable`: what keeps it from breaking off.

## Theorems

* `durable_of_step?`: whatever happens, it stays so.
* `unbroken_of_run`: nothing breaks off with a configuration to run with.
* `barren_of_run?`: without a buffer behind the ingestors, nobody gets a subscription.
* `broken_of_unbuffered`: a text that is read without complaint, and what comes of it.
-/

namespace Bourse

/-- A configuration that a service can be run with. -/
structure Config.IsRunnable (c : Config) : Prop where
  feed : isBufferSize c.feed.buffer = true
  quotes : c.quotes.busCapacity ≤ largestBuffer
  valuation : c.valuation.IsRunnable

instance (c : Config) : Decidable c.IsRunnable :=
  decidable_of_iff (isBufferSize c.feed.buffer = true ∧ c.quotes.busCapacity ≤ largestBuffer ∧
      c.valuation.IsRunnable)
    ⟨fun h => ⟨h.1, h.2.1, h.2.2⟩, fun h => ⟨h.feed, h.quotes, h.valuation⟩⟩

/-- The environment has no say in any of the five. -/
theorem Config.IsRunnable.withOverrides {c c' : Config} {var : String → Option String}
    (h : c.IsRunnable) (hoverrides : c.withOverrides var = .ok c') : c'.IsRunnable := by
  unfold Config.withOverrides at hoverrides
  split at hoverrides
  · cases hoverrides
  · unfold Config.validate at hoverrides
    split at hoverrides
    · cases hoverrides
    · cases hoverrides
      exact ⟨h.feed, h.quotes, h.valuation⟩

/-- Nothing of a service has broken off: no request and no task, and none is about to; and the keeper
of the cache goes on until it is told to stop. -/
structure Service.Unbroken (s : Service) : Prop where
  requests : s.market.Unbroken
  results : ∀ id, s.ledger.result? id ≠ some none
  tasks : ∀ t ∈ s.ledger.tasks, t.operation.next ≠ .crashing
  keeper : s.warmer = .stopped → s.stopped = true

/-- What is so of a market whatever the cache takes, and after everything that can happen around it,
is so after a step of the keeper. -/
theorem Warmer.Steps.keeps {w w' : Warmer} {backoff : Nat} {stop : Bool} {m m' : Market}
    (h : Warmer.Steps backoff stop m w w' m') {P : Market → Prop}
    (hfeeders : ∀ feeders, P { m with feeders })
    (hact : ∀ feeders a m', ({ m with feeders } : Market).act? a = some m' → P m') : P m' := by
  cases h with
  | @seated _ s _ => exact hfeeders (m.feeders ++ [s])
  | @leaves s _ => exact hact (m.feeders.filter (· ≠ s)) (.leave s) _ rfl
  | asks _ => exact hact m.feeders .request _ rfl
  | _ => exact hfeeders m.feeders

namespace Diary

variable {x x' : Diary} {a : Action} {config : Config} {room delay failures : Nat}
  {time : Timestamp} {actions : List Action} {last : Nat}

/-! ## With a configuration to run with -/

/-- What keeps a service from breaking off up to some time. -/
structure Durable (x : Diary) (last : Nat) : Prop where
  roomy : x.market.Roomy
  requests : x.market.Unbroken
  ledger : x.service.ledger.Sturdy last
  time : x.service.time.IsPlain
  keeper : x.service.warmer = .stopped → x.service.stopped = true

theorem Durable.unbroken (h : x.Durable last) : x.service.Unbroken :=
  ⟨h.requests, h.ledger.results, fun t ht => Operation.Sturdy.next_ne (h.ledger.tasks t ht), h.keeper⟩

theorem Durable.of_ledger (h : x.Durable last) {ledger : Ledger} (hledger : ledger.Sturdy last) :
    (x.setLedger ledger).Durable last :=
  ⟨h.roomy, h.requests, hledger, h.time, h.keeper⟩

/-- The keeper only stops when it is told to, since its requests do not break off. -/
theorem Durable.of_keep (h : x.Durable last) (hkept : x.Kept) {w w' : Warmer} {m : Market}
    (hw : x.service.warmer = w)
    (hkeep : Warmer.Steps x.service.config.quotes.resubscribeBackoffMs x.service.stopped x.market
      w w' m) : (x.afterKeep w' m).Durable last := by
  have hgrants : m.grant? = x.market.grant? := congrArg Table.get? (grows_of_keep hkeep).2.1
  have hroomy : ∀ feeders, ({ x.market with feeders } : Market).Roomy :=
    fun _ => ⟨h.roomy.feed, h.roomy.intake, h.roomy.lines⟩
  refine ⟨hkeep.keeps hroomy fun feeders a m' hact => ?_, fun ticket => ?_, h.ledger, h.time,
    fun hstopped => ?_⟩
  · exact Market.roomy_act? (hroomy feeders) hkept.session.fit.paired hact
  · exact fun hcrashed => h.requests ticket ((congrFun hgrants ticket).symm.trans hcrashed)
  · cases hkeep with
    | crashed hanswer => exact absurd hanswer (h.requests _)
    | leaves htold => exact htold
    | stops htold => exact htold
    | _ => exact Warmer.noConfusion hstopped

/-- Whatever happens up to then, nothing breaks off, as long as the clock is set to times that can be
counted. -/
theorem durable_of_step? {K : Sources} (h : x.Durable last) (hkept : x.Kept)
    (hledger : x.service.ledger.InOrder K x.service.config.trading) (hnow : x.market.now ≤ last)
    (hclock : ∀ time, a = .clock time → time.IsPlain) (hstep : x.step? a = some x') :
    x'.Durable last := by
  cases steps_of_step? hstep with
  | market hpermits hact =>
      exact ⟨Market.roomy_act? h.roomy hkept.session.fit.paired hact,
        hkept.session.unbroken_act? h.roomy h.requests hact, h.ledger, h.time, h.keeper⟩
  | keep hkeep => exact h.of_keep hkept rfl hkeep
  | enter e => exact h.of_ledger (h.ledger.spawn _ e)
  | task htask =>
      rcases hledger.does_of_stepAt? htask with ⟨t, st, d, ht, hdoes, -, rfl⟩
      exact h.of_ledger (h.ledger.after (Ledger.mem_of_task? ht) hnow h.time hdoes)
  | cancel id => exact h.of_ledger (Ledger.sturdy_cancel h.ledger id)
  | moveBack id => exact h.of_ledger (Ledger.sturdy_moveBack h.ledger id)
  | clock time => exact ⟨h.roomy, h.requests, h.ledger, hclock time rfl, h.keeper⟩
  | stop => exact ⟨h.roomy, h.requests, h.ledger, h.time, fun _ => rfl⟩
  | heed htold hheed => exact h.of_ledger (Ledger.sturdy_heed h.ledger hheed)

/-- A bus without room is taken as one with room for one quote. -/
theorem durable_opened (hconfig : config.IsRunnable) (hroom : isBufferSize room = true)
    (htime : time.IsPlain) (hlast : 2 * last ≤ lastInstant) :
    (opened config room delay failures time).Durable last := by
  have hlines : isBufferSize (max config.quotes.busCapacity 1) = true := by
    have hquotes := hconfig.quotes
    rw [isBufferSize, Bool.and_eq_true, decide_eq_true_iff, decide_eq_true_iff]
    exact ⟨by omega, max_le hquotes (by decide)⟩
  have hinstants : isInstant (last + config.valuation.interval) = true := by
    have hinterval := hconfig.valuation.interval
    exact decide_eq_true (by omega)
  refine ⟨⟨hroom, hconfig.feed, hlines⟩, fun _ hcrashed => ?_, ?_, htime,
    fun hstopped => Warmer.noConfusion hstopped⟩
  · exact absurd hcrashed.symm (Option.some_ne_none _)
  · exact (Ledger.sturdy_create config.trading config.valuation).add none
      (ValuationJob.sturdy_start hconfig.valuation config.trading.supportedSymbols hinstants 0)

/-- Nothing breaks off up to some time in the first half of the running time. -/
theorem durable_of_run? (hconfig : config.IsRunnable) (hroom : isBufferSize room = true)
    (htime : time.IsPlain) (hlast : 2 * last ≤ lastInstant)
    (hrun : (opened config room delay failures time).run? actions = some x)
    (hclock : ∀ time, .clock time ∈ actions → time.IsPlain) (hnow : x.market.now ≤ last) :
    x.Durable last := by
  revert hclock hnow
  refine run_induction (fun past x => (∀ time, .clock time ∈ past → time.IsPlain) →
      x.market.now ≤ last → x.Durable last)
    (fun _ _ => durable_opened hconfig hroom htime hlast)
    (fun past a y y' hpast ih hstep hclock hnow => ?_) hrun
  have hearlier : y.market.now ≤ last := Nat.le_trans ((kept_of_run? hpast).now_le hstep) hnow
  refine durable_of_step? (ih (fun time ht => hclock time (List.mem_append_left _ ht)) hearlier)
    (kept_of_run? hpast) (inOrder_of_run? hpast) hearlier (fun time ha => ?_) hstep
  exact hclock time (List.mem_append_right _ (ha ▸ List.mem_singleton_self _))

/-- With a configuration to run with, and over a feed with room for its ticks, nothing breaks off in the
first half of the running time, whatever happens, as long as the clock is set to times that can be
counted. -/
theorem unbroken_of_run (hconfig : config.IsRunnable) (hroom : isBufferSize room = true)
    (htime : time.IsPlain) (hrun : (opened config room delay failures time).run? actions = some x)
    (hclock : ∀ time, .clock time ∈ actions → time.IsPlain)
    (hnow : 2 * x.market.now ≤ lastInstant) : x.service.Unbroken :=
  (durable_of_run? hconfig hroom htime hnow hrun hclock (Nat.le_refl _)).unbroken

/-- A configuration with no room on the buses, no users on a page and none at a time. -/
def scant : Config :=
  { Config.standard with
    quotes := { QuoteConfig.standard with busCapacity := 0 }
    trading := { TradingConfig.standard with supportedSymbols := ["BTC"] }
    valuation := { ValuationConfig.standard with parallelism := 0, pageSize := 0 } }

/-- A tick comes in and somebody opens an account, and then the job goes through all users. Meanwhile the
clock has gone on by an hour. -/
def valuingOne : List Action :=
  [.market .nextTurn, .market .endAttempt, .market .takeSeat, .keep, .market (.tend .accept),
    .clock ⟨1619876096, 0⟩, .market (.tend (.send 0 ⟨"BTC", "30000", ⟨0, 0⟩⟩)), .market (.turn 0 .goOn),
    .market (.turn 0 .goOn), .market (.dispatch 0), .market (.feed ⟨0, 0⟩),
    .enter (.account ⟨"alice", "Alice", ""⟩)] ++
    List.replicate 5 (.task 1) ++ List.replicate 9 (.task 0) ++ List.replicate 3 (.task 2)

/-- The run ends well, and the job waits for the next one. -/
theorem unbroken_of_run_valuing_one :
    scant.IsRunnable ∧ ∃ x, (opened scant 64 0 0 ⟨1619872496, 0⟩).run? valuingOne = some x ∧
      x.service.Unbroken ∧
      (x.service.ledger.task? 0).bind (·.operation.next.due?) = some 3600000 := by
  have hconfig : scant.IsRunnable := by decide
  have hevent : ((opened scant 64 0 0 ⟨1619872496, 0⟩).run? valuingOne).map
      (fun x => ((x.service.ledger.task? 0).bind (·.operation.next.due?), x.market.now)) =
        some (some 3600000, 0) := by
    decide +kernel
  rcases Option.map_eq_some_iff.1 hevent with ⟨x, hrun, hresult⟩
  rcases Prod.mk.inj hresult with ⟨hdue, hnow⟩
  have hclock : ∀ time, .clock time ∈ valuingOne → time.IsPlain := by
    intro time hmem
    simp only [valuingOne, List.replicate, List.cons_append, List.nil_append, List.mem_cons,
      List.not_mem_nil, reduceCtorEq, Action.clock.injEq, false_or, or_false] at hmem
    rw [hmem]
    decide
  exact ⟨hconfig, x, hrun, unbroken_of_run hconfig (by decide) (by decide) hrun hclock
    (by rw [hnow]; decide), hdue⟩

/-! ## Without buffers -/

/-- With no buffer behind the ingestors, nobody ever gets a subscription. -/
theorem barren_of_run? (hbuffer : isBufferSize config.feed.buffer = false)
    (hrun : (opened config room delay failures time).run? actions = some x) : x.market.Barren := by
  refine run_induction (fun _ x => x.market.Barren) ?_ (fun past a y y' hpast h hstep => ?_) hrun
  · exact ⟨hbuffer, rfl, fun _ _ hseated => absurd hseated.symm (Option.some_ne_none _)⟩
  · have hkept := kept_of_run? hpast
    cases steps_of_step? hstep with
    | market hpermits hact => exact Market.barren_act? h hkept.session.fit hact
    | keep hkeep =>
        have hbarren : ∀ feeders, ({ y.market with feeders } : Market).Barren :=
          fun _ => ⟨h.buffer, h.ingestors, h.unseated⟩
        exact hkeep.keeps hbarren fun feeders a m' hact =>
          Market.barren_act? (hbarren feeders) (hkept.session.fit.of_same rfl rfl) hact
    | _ => exact h

/-- The standard settings without a buffer behind the ingestors. -/
def unbuffered : Config :=
  { Config.standard with feed := { FeedConfig.standard with buffer := 0 } }

theorem ofJson_unbuffered :
    Config.ofJson "\x7b\"feed\":\x7b\"buffer\":0\x7d\x7d" = .ok unbuffered := by
  have hplain : Json.Plain (.ofMembers [("feed", .ofMembers [("buffer", .ofNat 0)])]) := by
    refine .object _ fun m hm => ?_
    rw [List.mem_singleton.1 hm]
    refine .object _ fun m hm => ?_
    rw [List.mem_singleton.1 hm]
    exact .integer 0
  have htext : (Json.ofMembers [("feed", .ofMembers [("buffer", .ofNat 0)])]).text =
      "\x7b\"feed\":\x7b\"buffer\":0\x7d\x7d" := by decide +kernel
  rw [← htext, Config.ofJson, Json.parse_text hplain]
  rfl

/-- They are read without complaint. But the first request breaks off as soon as there is a connection,
and with it the keeper of the cache, whom nobody has told to stop; and so does a watch. -/
theorem broken_of_unbuffered :
    Config.ofJson "\x7b\"feed\":\x7b\"buffer\":0\x7d\x7d" = .ok unbuffered ∧
    (⟨1619872496, 0⟩ : Timestamp).IsPlain ∧ (StagedFeed.create 64 0 0).connect.1 = .ok 0 ∧
    (∃ x, (opened unbuffered 64 0 0 ⟨1619872496, 0⟩).run?
        [.market .nextTurn, .market .endAttempt, .keep] = some x ∧ ¬ x.service.Unbroken ∧
      x.market.grant? 0 = some .crashed ∧ x.service.warmer = .stopped ∧ x.service.stopped = false) ∧
    (match ((Service.start unbuffered (.create 64 0 0) ⟨1619872496, 0⟩).watch "w" "BTC").1 with
      | .crashed => true
      | _ => false) = true := by
  obtain ⟨x, hrun, hcrashed, hwarmer, hgoing⟩ : ∃ x,
      (opened unbuffered 64 0 0 ⟨1619872496, 0⟩).run?
        [.market .nextTurn, .market .endAttempt, .keep] = some x ∧
      x.market.grant? 0 = some .crashed ∧ x.service.warmer = .stopped ∧ x.service.stopped = false :=
    ⟨_, rfl, rfl, rfl, rfl⟩
  exact ⟨ofJson_unbuffered, by decide, rfl,
    ⟨x, hrun, fun hunbroken => hunbroken.requests 0 hcrashed, hcrashed, hwarmer, hgoing⟩,
    by decide +kernel⟩

end Diary

end Bourse
