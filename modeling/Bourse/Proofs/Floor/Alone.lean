import Bourse.Proofs.Floor.Visitor
import Bourse.Proofs.Portfolio.Trade

/-!
# A Trade Without Interference

What one trade does to the books when nobody else is on the floor, whatever the
books were: if it fails, nothing at all, and if it goes through, just what its
outcome says. There are as many ways to fail as there are steps before the commit,
and none of them has written anything by then; after the commit there is none.

`Execution.Alone` says for every state of the trade what the books are by then,
in terms of those that it found. Before the commit they are the same; after it they
are the same but for the caller's document, then the log, then the cached history,
and in the end the log again if the trade prunes.

## Main definitions

* `Execution.Fills`: an outcome that belongs to a trade and a document.
* `Books.committed`, `Books.logged`, `Books.booked`, `Books.pruned`: the books after
  each of the calls that write.
* `Execution.Alone`: what the books are in every state of a trade.

## Theorems

* `Execution.alone_of_hear?`, `Execution.alone_of_asks`: every step keeps to it.
* `lone_of_run?`: as long as nobody else takes a step, so does the whole run.
* `books_of_run`: what a trade without interference has done when it is finished.
-/

namespace Bourse

/-- The quantity of a request that passed its check is the one asked for. -/
theorem TradeRequest.quantity_of_validate {r : TradeRequest} {supported : List String}
    {q : Amount} (h : r.validate supported = .ok q) : r.quantity = some q := by
  have hcheck : r.checkQuantity = .ok q := by
    unfold validate at h
    split at h
    · exact absurd h (by simp only [reduceCtorEq, not_false_eq_true])
    split at h
    · exact absurd h (by simp only [reduceCtorEq, not_false_eq_true])
    next q' hq' =>
    split_ifs at h
    rw [hq', Except.ok.inj h]
  unfold checkQuantity at hcheck
  split at hcheck
  · exact absurd hcheck (by simp only [reduceCtorEq, not_false_eq_true])
  next q' hq' =>
  split_ifs at hcheck
  rw [hq', Except.ok.inj hcheck]

/-- The document of a user after a trade with some outcome. -/
def TradeOutcome.document (o : TradeOutcome) (v : Versioned User) : Versioned User :=
  ⟨v.version + 1,
    { v.value with portfolio := o.portfolio, tradeStats := v.value.tradeStats.record o.timestamp }⟩

namespace Books

/-- The books after the commit of a trade. -/
def committed (b : Books) (user : String) (v : Versioned User) (o : TradeOutcome) : Books :=
  { b with store := { b.store with users := b.store.users.insert user (o.document v) } }

/-- The books after the trade was logged, too. -/
def logged (b : Books) (user : String) (v : Versioned User) (o : TradeOutcome) : Books :=
  { b.committed user v o with store := (b.committed user v o).store.appendTrade user o.record }

/-- The books after the cached history was made invalid, too. -/
def booked (b : Books) (user : String) (v : Versioned User) (o : TradeOutcome) : Books :=
  { b.logged user v o with histories := b.histories.invalidate user }

/-- The books after the log was pruned, too. -/
def pruned (b : Books) (user : String) (v : Versioned User) (o : TradeOutcome) (keep : Nat) :
    Books :=
  { b.booked user v o with store := ((b.booked user v o).store.pruneTrades user keep).2 }

end Books

namespace Execution

/-- An outcome that a trade has on the document that is stored for its user. -/
structure Fills (b : Books) (x : Execution) (v : Versioned User) (o : TradeOutcome) : Prop where
  stored : b.store.user? x.user = some v
  side : o.side = x.request.side
  symbol : o.symbol = x.request.symbol
  quantity : o.quantity = x.quantity
  portfolio : v.value.portfolio.applyTrade o.side o.symbol o.price o.quantity = .ok o.portfolio

/-- What the books `b'` are in every state of a trade that found the books `b`. -/
def Alone (b : Books) (x : Execution) (b' : Books) : Prop :=
  match x.phase with
  | .pricing _ | .timing _ | .reading .. => b' = b
  | .storing price m version u =>
    b' = b ∧ ∃ v, b.store.user? x.user = some v ∧ v.version = version ∧
      x.amend price m.time v.value = .ok u
  | .logging o => ∃ v, x.Fills b v o ∧ b' = b.committed x.user v o
  | .invalidating o => ∃ v, x.Fills b v o ∧ b' = b.logged x.user v o
  | .pruning o => x.prunes = true ∧ ∃ v, x.Fills b v o ∧ b' = b.booked x.user v o
  | .finished (.error _) => b' = b
  | .finished (.ok o) => ∃ v, x.Fills b v o ∧
    b' = if x.prunes then b.pruned x.user v o x.config.maxTradeHistory else b.booked x.user v o

/-- The same trade: whose it is, what was asked for, and under which settings. -/
structure Same (x y : Execution) : Prop where
  user : y.user = x.user
  request : y.request = x.request
  quantity : y.quantity = x.quantity
  config : y.config = x.config
  prunes : y.prunes = x.prunes

theorem same_enter (x : Execution) (p : Phase) : x.Same (x.enter p) := ⟨rfl, rfl, rfl, rfl, rfl⟩

theorem Same.trans {x y z : Execution} (h : x.Same y) (h' : y.Same z) : x.Same z :=
  ⟨h'.user.trans h.user, h'.request.trans h.request, h'.quantity.trans h.quantity,
    h'.config.trans h.config, h'.prunes.trans h.prunes⟩

/-- The copy of a trade is the document of its outcome. -/
theorem fills_of_amend {b : Books} {x : Execution} {v : Versioned User} {price : Amount}
    {time : Timestamp} {u : User} (hv : b.store.user? x.user = some v)
    (h : x.amend price time v.value = .ok u) :
    x.Fills b v (x.outcome price time u.portfolio) ∧
      (x.outcome price time u.portfolio).document v = ⟨v.version + 1, u⟩ := by
  unfold amend at h
  split at h
  · next p hp =>
    rw [← Except.ok.inj h]
    exact ⟨⟨hv, rfl, rfl, rfl, hp⟩, rfl⟩
  · exact absurd h (by simp only [reduceCtorEq, not_false_eq_true])

theorem Fills.enter {b : Books} {x : Execution} {v : Versioned User} {o : TradeOutcome}
    (h : x.Fills b v o) (p : Phase) : (x.enter p).Fills b v o :=
  ⟨h.stored, h.side, h.symbol, h.quantity, h.portfolio⟩

/-- A trade that is not committed has left the books as they were. -/
theorem Alone.books_eq {b b' : Books} {x : Execution} (h : x.Alone b b')
    (hx : x.committed? = none) : b' = b := by
  unfold Alone at h
  unfold committed? at hx
  cases hphase : x.phase with
  | pricing due | timing price | reading price m =>
      rw [hphase] at h
      exact h
  | storing price m version u =>
      rw [hphase] at h
      exact h.1
  | finished r =>
      rw [hphase] at h hx
      cases r with
      | error e => exact h
      | ok o => exact absurd hx (by simp only [reduceCtorEq, not_false_eq_true])
  | logging o | invalidating o | pruning o =>
      rw [hphase] at hx
      exact absurd hx (by simp only [reduceCtorEq, not_false_eq_true])

/-- A trade hears nothing after its commit, and what it hears before changes no books. -/
theorem alone_of_hear? {b b' : Books} {x y : Execution} {news : News} (hx : x.Alone b b')
    (h : (@next UserValuation x).hear? news = some y) : x.Same y ∧ y.Alone b b' := by
  rcases cases_of_hear? h with ⟨hnone, hy⟩
  have hb := hx.books_eq hnone
  rcases hy with ⟨price, rfl⟩ | ⟨price, m, rfl⟩ | ⟨e, rfl⟩
  · exact ⟨x.same_enter _, hb⟩
  · exact ⟨x.same_enter _, hb⟩
  · exact ⟨x.same_enter _, hb⟩

/-- With the books as a trade left them, each of its calls does what comes next. -/
theorem alone_of_asks {b b' : Books} {x : Execution} {c : Call}
    {resume : Except StoreError c.Result → Execution} (hx : x.Alone b b')
    (h : x.Asks c resume) (now : Nat) :
    x.Same (resume (c.perform b' now).1) ∧
      (resume (c.perform b' now).1).Alone b (c.perform b' now).2 := by
  unfold Alone at hx
  cases h with
  | document price m hphase =>
      rw [hphase] at hx
      subst hx
      -- Reading leaves the books alone, and so does failing after it.
      simp only [Call.perform]
      rcases x.cases_of_read price m (.ok (b'.store.user? x.user)) with
        ⟨v, u, hv, hamend, hread⟩ | ⟨e, hread⟩
      · rw [hread]
        exact ⟨x.same_enter _, rfl, v, Except.ok.inj hv, rfl, hamend⟩
      · rw [hread]
        exact ⟨x.same_enter _, rfl⟩
  | commit price m version u hphase =>
      rw [hphase] at hx
      rcases hx with ⟨rfl, v, hv, hversion, hamend⟩
      rcases fills_of_amend hv hamend with ⟨hfills, hdocument⟩
      -- Nobody else has been there, so the version is still the one read.
      have hstore : b'.store.compareAndSet x.user version u = (.ok ⟨v.version + 1, u⟩,
          { b'.store with users := b'.store.users.insert x.user ⟨v.version + 1, u⟩ }) := by
        rw [Store.compareAndSet, hv]
        simp only [hversion, if_true]
      simp only [Call.perform, hstore]
      refine ⟨x.same_enter _, v, hfills.enter _, ?_⟩
      rw [Books.committed, hdocument]
      rfl
  | log o hphase =>
      rw [hphase] at hx
      rcases hx with ⟨v, hfills, rfl⟩
      exact ⟨x.same_enter _, v, hfills.enter _, rfl⟩
  | invalidate o hphase =>
      rw [hphase] at hx
      rcases hx with ⟨v, hfills, rfl⟩
      refine ⟨x.same_enter _, ?_⟩
      cases hp : x.prunes with
      | true => exact ⟨hp, v, hfills.enter _, rfl⟩
      | false =>
          refine ⟨v, hfills.enter _, ?_⟩
          simp only [enter, hp]
          rfl
  | prune o hphase =>
      rw [hphase] at hx
      rcases hx with ⟨hp, v, hfills, rfl⟩
      refine ⟨x.same_enter _, v, hfills.enter _, ?_⟩
      simp only [enter, hp, if_true]
      rfl

/-- A trade that is finished takes no further step. -/
theorem hear?_of_finished {x : Execution} {r : Except TradeError TradeOutcome}
    (h : x.phase = .finished r) (news : News) : (@next UserValuation x).hear? news = none := by
  rw [next, h]
  cases news <;> rfl

theorem not_asks_of_finished {x : Execution} {r : Except TradeError TradeOutcome}
    (h : x.phase = .finished r) (c : Call) (resume : Except StoreError c.Result → Execution) :
    ¬ x.Asks c resume := by
  intro ha
  cases ha with
  | document price m hphase | commit price m version u hphase | log o hphase
  | invalidate o hphase | prune o hphase =>
      rw [h] at hphase
      exact absurd hphase (by simp only [reduceCtorEq, not_false_eq_true])

/-- A trade whose request passed the check, unless it has failed by now. -/
def Checked (x : Execution) : Prop :=
  (∃ e, x.phase = .finished (.error e)) ∨
    x.request.validate x.config.supportedSymbols = .ok x.quantity

theorem checked_start (config : TradingConfig) (now : Nat) (user : String)
    (request : TradeRequest) (prunes : Bool) :
    (start config now user request prunes).Checked := by
  unfold start
  split
  · next q hq => exact Or.inr hq
  · next e he => exact Or.inl ⟨e, rfl⟩

/-- A trade that goes on has passed the check, and it remains the same trade. -/
theorem Checked.of_same {x y : Execution} (h : x.Checked)
    (hx : ∀ r, x.phase ≠ .finished r) (hy : x.Same y) : y.Checked := by
  rcases h with ⟨e, he⟩ | h
  · exact absurd he (hx (.error e))
  · refine Or.inr ?_
    rw [hy.request, hy.config, hy.quantity]
    exact h

/-- The quantity of a trade that ended well is the one asked for. -/
theorem Checked.quantity_eq {x : Execution} {o : TradeOutcome} (h : x.Checked)
    (hx : x.phase = .finished (.ok o)) : x.request.quantity = some x.quantity := by
  rcases h with ⟨e, he⟩ | hvalid
  · rw [hx] at he
    exact absurd he (by simp only [Phase.finished.injEq, reduceCtorEq, not_false_eq_true])
  · exact TradeRequest.quantity_of_validate hvalid

/-- A trade starts with what it came with, whether its request passes the check or not. -/
theorem fields_start (config : TradingConfig) (now : Nat) (user : String)
    (request : TradeRequest) (prunes : Bool) :
    (start config now user request prunes).user = user ∧
      (start config now user request prunes).request = request ∧
      (start config now user request prunes).config = config ∧
      (start config now user request prunes).prunes = prunes := by
  unfold start
  split
  · exact ⟨rfl, rfl, rfl, rfl⟩
  · exact ⟨rfl, rfl, rfl, rfl⟩

/-- A trade starts with the books as they are. -/
theorem alone_start (config : TradingConfig) (now : Nat) (user : String)
    (request : TradeRequest) (prunes : Bool) (b : Books) :
    (start config now user request prunes).Alone b b := by
  unfold start
  split
  · exact rfl
  · exact rfl

end Execution

namespace Books

/-- What a trade with some outcome has changed in the books: in the document of its user the
portfolio, the statistics and the version, and in the portfolio only the cash and one position; in
the log one entry more, before the log is pruned if it is; and the cached history of the user. All
else is as it was. -/
structure Traded (b b' : Books) (user : String) (v : Versioned User) (o : TradeOutcome)
    (keep : Option Nat) : Prop where
  document : b'.store.user? user = some ⟨v.version + 1,
    { v.value with
      portfolio := o.portfolio
      tradeStats := ⟨some o.timestamp, v.value.tradeStats.count + 1⟩ }⟩
  positions : ∀ s, s ≠ o.symbol → o.portfolio.position? s = v.value.portfolio.position? s
  documents : ∀ id, id ≠ user → b'.store.user? id = b.store.user? id
  log : b'.store.log user =
    let all := b.store.log user ++ [⟨o.timestamp, o.symbol, o.side, o.quantity, o.price⟩]
    match keep with
    | some k => all.drop (all.length - k)
    | none => all
  logs : ∀ id, id ≠ user → b'.store.logs.get? id = b.store.logs.get? id
  snapshots : b'.store.histories = b.store.histories
  cached : b'.histories.slots.get? user =
    some ⟨((b.histories.slots.get? user).getD ⟨0, none⟩).generation + 1, none⟩
  caches : ∀ id, id ≠ user → b'.histories.slots.get? id = b.histories.slots.get? id
  ttl : b'.histories.ttl = b.histories.ttl
  saves : b'.histories.saves = b.histories.saves

variable {b : Books} {user : String} {v : Versioned User} {o : TradeOutcome}

theorem traded_booked
    (h : v.value.portfolio.applyTrade o.side o.symbol o.price o.quantity = .ok o.portfolio) :
    b.Traded (b.booked user v o) user v o none := by
  refine ⟨Table.get?_insert_self _ _ _, fun s hs => Portfolio.position?_applyTrade_of_ne h hs,
    fun id hid => Table.get?_insert_of_ne _ _ hid, ?_,
    fun id hid => Table.get?_insert_of_ne _ _ hid, rfl, Table.get?_insert_self _ _ _,
    fun id hid => Table.get?_insert_of_ne _ _ hid, rfl, rfl⟩
  simp only [booked, logged, committed, Store.appendTrade, Store.log, Table.get?_insert_self,
    Option.getD_some]
  rfl

theorem traded_pruned
    (h : v.value.portfolio.applyTrade o.side o.symbol o.price o.quantity = .ok o.portfolio)
    (keep : Nat) : b.Traded (b.pruned user v o keep) user v o (some keep) := by
  have hbooked : b.Traded (b.booked user v o) user v o none := traded_booked h
  have hlog : (b.booked user v o).store.logs.get? user = some (b.store.log user ++ [o.record]) :=
    Table.get?_insert_self _ _ _
  -- Pruning writes the log of the user once more, and nothing else.
  have hpruned : b.pruned user v o keep =
      { b.booked user v o with store := { (b.booked user v o).store with
          logs := (b.booked user v o).store.logs.insert user ((b.store.log user ++ [o.record]).drop
            ((b.store.log user ++ [o.record]).length - keep)) } } := by
    simp only [pruned, Store.pruneTrades, hlog]
  rw [hpruned]
  refine ⟨hbooked.document, hbooked.positions, hbooked.documents, ?_, fun id hid => ?_,
    hbooked.snapshots, hbooked.cached, hbooked.caches, hbooked.ttl, hbooked.saves⟩
  · simp only [Store.log, Table.get?_insert_self, Option.getD_some]
    rfl
  · rw [← hbooked.logs id hid]
    exact Table.get?_insert_of_ne _ _ hid

end Books

/-- The visitor that takes a step, unless it is nobody who is there. -/
def Action.visitor? : Action → Option Nat
  | .hear n _ | .call n _ | .leave n => some n
  | .enter _ | .sweep _ => none

namespace Floor

/-- A trade that is alone on the floor since it found the books `b`. -/
def Lone (b : Books) (n : Nat) (x₀ : Execution) (f : Floor) : Prop :=
  ∃ x present, f.visits[n]? = some ⟨.execution x, present⟩ ∧ x₀.Same x ∧ x.Checked ∧
    x.Alone b f.books

theorem lone_of_move {config : TradingConfig} {b : Books} {n : Nat} {x₀ : Execution}
    {f f' : Floor} {a : Action} (ha : a.visitor? = some n) (hf : f.Lone b n x₀)
    (h : Move config f a f') : f'.Lone b n x₀ := by
  rcases hf with ⟨x, present, hx, hsame, hchecked, halone⟩
  cases h with
  | enter e => exact absurd ha (by simp only [Action.visitor?, reduceCtorEq, not_false_eq_true])
  | sweep now => exact absurd ha (by simp only [Action.visitor?, reduceCtorEq, not_false_eq_true])
  | hear k news y z hy hz =>
      rcases Option.some.inj ha with rfl
      obtain ⟨rfl, rfl⟩ := visit_unique hx hy
      rcases Operation.exists_of_hear? hz with ⟨x', hx', rfl⟩
      rcases Execution.alone_of_hear? halone hx' with ⟨hsame', halone'⟩
      -- It has not failed before, or it could not have gone on.
      have hopen : ∀ r, x.phase ≠ .finished r := by
        intro r hr
        rw [Execution.hear?_of_finished hr] at hx'
        exact absurd hx' (by simp only [reduceCtorEq, not_false_eq_true])
      exact ⟨x', true, getElem?_set_visit hx _, hsame.trans hsame', hchecked.of_same hopen hsame',
        halone'⟩
  | call k now y c d resume hy hnext =>
      rcases Option.some.inj ha with rfl
      obtain ⟨rfl, rfl⟩ := visit_unique hx hy
      rcases Progress.calling_of_map hnext with ⟨d', resume', hnext', hresume⟩
      have hasks := Execution.asks_of_next hnext'
      rcases Execution.alone_of_asks halone hasks now with ⟨hsame', halone'⟩
      have hopen : ∀ r, x.phase ≠ .finished r :=
        fun r hr => Execution.not_asks_of_finished hr c resume' hasks
      refine ⟨_, true, ?_, hsame.trans hsame', hchecked.of_same hopen hsame', halone'⟩
      rw [← hresume]
      exact getElem?_set_visit hx _
  | leave k y hy =>
      rcases Option.some.inj ha with rfl
      obtain ⟨rfl, rfl⟩ := visit_unique hx hy
      exact ⟨x, false, getElem?_set_visit hx _, hsame, hchecked, halone⟩

/-- As long as nobody else takes a step, the trade stays alone. -/
theorem lone_of_run? {config : TradingConfig} {b : Books} {n : Nat} {x₀ : Execution}
    {f f' : Floor} {actions : List Action} (halone : ∀ a ∈ actions, a.visitor? = some n)
    (hf : f.Lone b n x₀) (h : f.run? config actions = some f') : f'.Lone b n x₀ :=
  run?_induction (fun g => g.Lone b n x₀) (fun a => a.visitor? = some n)
    (fun _ _ _ ha hg hmove => lone_of_move ha hg hmove) halone hf h

/-- A trade that nobody interferes with, from any books whatever. If it ends in an error, of any
kind and at any point, the books are exactly what they were. If it ends well, the outcome is that
of the request on the document that was stored, and the books have changed as the outcome says and
in nothing else. -/
theorem books_of_run {config : TradingConfig} {actions : List Action} {f f' : Floor}
    {n now : Nat} {user : String} {request : TradeRequest} {prunes : Bool} {x : Execution}
    {present : Bool} {r : Except TradeError TradeOutcome}
    (hstart : f.visits[n]? = some ⟨.execution (.start config now user request prunes), true⟩)
    (halone : ∀ a ∈ actions, a.visitor? = some n) (h : f.run? config actions = some f')
    (hend : f'.visits[n]? = some ⟨.execution x, present⟩) (hresult : x.phase = .finished r) :
    match r with
    | .error _ => f'.books = f.books
    | .ok o => ∃ v, f.books.store.user? user = some v ∧
      o.side = request.side ∧ o.symbol = request.symbol ∧ request.quantity = some o.quantity ∧
      v.value.portfolio.applyTrade o.side o.symbol o.price o.quantity = .ok o.portfolio ∧
      f.books.Traded f'.books user v o (if prunes then some config.maxTradeHistory else none) := by
  have hfirst : f.Lone f.books n (.start config now user request prunes) :=
    ⟨_, true, hstart, ⟨rfl, rfl, rfl, rfl, rfl⟩, Execution.checked_start config now user request
      prunes, Execution.alone_start config now user request prunes f.books⟩
  rcases lone_of_run? halone hfirst h with ⟨y, present', hy, hsame, hchecked, hbooks⟩
  obtain rfl : x = y := Operation.execution.inj (visit_unique hend hy).1
  rw [Execution.Alone, hresult] at hbooks
  cases r with
  | error e => exact hbooks
  | ok o =>
      rcases hbooks with ⟨v, hfills, hbooks⟩
      rcases Execution.fields_start config now user request prunes with
        ⟨huser, hrequest, hconfig, hprunes⟩
      -- What it has at the end is what it came with.
      rw [← hsame.user] at huser
      rw [← hsame.request] at hrequest
      rw [← hsame.config] at hconfig
      rw [← hsame.prunes] at hprunes
      have hquantity := hchecked.quantity_eq hresult
      rw [hrequest, ← hfills.quantity] at hquantity
      rw [huser, hconfig, hprunes] at hbooks
      refine ⟨v, huser ▸ hfills.stored, hfills.side.trans (congrArg _ hrequest),
        hfills.symbol.trans (congrArg _ hrequest), hquantity, hfills.portfolio, ?_⟩
      rw [hbooks]
      cases prunes with
      | true => exact Books.traded_pruned hfills.portfolio _
      | false => exact Books.traded_booked hfills.portfolio

/-- A user who has traded before, and who comes to buy some quantity and has the log pruned. -/
def returning (quantity : Amount) : Floor :=
  { books :=
      { store :=
          { users := .ofList [("alice", ⟨7, .opened "alice" "Alice" "" ⟨0, 0⟩
              (.seeded (.ofUnits 100000) ["BTC", "ETH"])⟩)]
            logs := .ofList [("alice", [⟨⟨5, 0⟩, "ETH", .sell, .ofUnits 2, .ofUnits 3000⟩])]
            histories := .empty }
        histories := .empty 1000 }
    visits :=
      [⟨.execution (.start .standard 0 "alice" ⟨.buy, "BTC", some quantity⟩ true), true⟩]
    journal := [] }

/-- The steps of a trade at a price of 60000 that is not interfered with. -/
def errand : List Action :=
  [.hear 0 (.price (.ok (.ofUnits 60000))), .hear 0 (.clock ⟨9, ⟨9, 0⟩⟩), .call 0 9, .call 0 9,
    .call 0 9, .call 0 9, .call 0 9]

/-- One is bought, and there is one entry more in the log. Two are too dear, and nothing has
happened. -/
theorem books_of_run_returning :
    (∃ f' v, (returning (.ofUnits 1)).run? .standard errand = some f' ∧
      f'.books.store.user? "alice" = some v ∧ v.version = 8 ∧
      v.value.portfolio.position? "BTC" = some (.ofUnits 1) ∧
      v.value.portfolio.position? "ETH" = some .zero ∧
      f'.books.store.log "alice" =
        [⟨⟨5, 0⟩, "ETH", .sell, .ofUnits 2, .ofUnits 3000⟩,
          ⟨⟨9, 0⟩, "BTC", .buy, .ofUnits 1, .ofUnits 60000⟩] ∧
      f'.books.histories.slots.get? "alice" = some ⟨1, none⟩) ∧
    ∃ f', (returning (.ofUnits 2)).run? .standard (errand.take 3) = some f' ∧
      f'.books = (returning (.ofUnits 2)).books := by
  constructor
  · obtain ⟨f', x, o, hrun, hx, hphase, hfive, hposition⟩ : ∃ f' x o,
        (returning (.ofUnits 1)).run? .standard errand = some f' ∧
          f'.visits[0]? = some ⟨.execution x, true⟩ ∧ x.phase = .finished (.ok o) ∧
          (o.timestamp, o.symbol, o.side, o.quantity, o.price) =
            (⟨9, 0⟩, "BTC", .buy, .ofUnits 1, .ofUnits 60000) ∧
          o.portfolio.position? "BTC" = some (.ofUnits 1) :=
      ⟨_, _, _, rfl, rfl, rfl, rfl, by decide +kernel⟩
    have halone : ∀ a ∈ errand, a.visitor? = some 0 := by decide
    rcases books_of_run rfl halone hrun hx hphase with ⟨v, hv, -, -, -, -, htraded⟩
    rcases Option.some.inj (show some _ = some v from hv) with rfl
    simp only [Prod.mk.injEq] at hfive
    rcases hfive with ⟨htime, hsymbol, hside, hquantity, hprice⟩
    refine ⟨f', _, hrun, htraded.document, rfl, hposition, ?_, ?_, htraded.cached⟩
    · rw [htraded.positions "ETH" (by rw [hsymbol]; decide)]
      rfl
    · rw [htraded.log, htime, hsymbol, hside, hquantity, hprice]
      rfl
  · obtain ⟨f', x, e, hrun, hx, hphase⟩ : ∃ f' x e,
        (returning (.ofUnits 2)).run? .standard (errand.take 3) = some f' ∧
          f'.visits[0]? = some ⟨.execution x, true⟩ ∧ x.phase = .finished (.error e) :=
      ⟨_, _, _, rfl, rfl, rfl⟩
    have halone : ∀ a ∈ errand.take 3, a.visitor? = some 0 := by decide
    exact ⟨f', hrun, books_of_run rfl halone hrun hx hphase⟩

end Floor

end Bourse
