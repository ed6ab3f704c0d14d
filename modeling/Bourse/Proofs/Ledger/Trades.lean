import Bourse.Proofs.Floor.Tasks
import Bourse.Proofs.Ledger.Logs
import Bourse.Proofs.Quotes.Cache

/-!
# Trades Under Way

What is known of every trade on the ledger, wherever it has got to: that it was allowed,
which price it goes by, and which document its copy was made from. The price comes from
outside, so what there is to know of prices is left open. Whatever is true of a price that
the quotes show is true of the price of every trade: of those under way, of those that
have come back, and of those in the logs.

## Main definitions

* `Sources`: what there is to know of prices and of entries in logs.
* `Execution.quoted?`: the symbol and the price of a trade that has one.
* `Execution.InOrder`: what is known of a trade under way.
* `Ledger.InOrder`: what is known of a ledger.

## Theorems

* `Execution.InOrder.of_does`: a step of a task keeps its trade in order.
* `Ledger.inOrder_of_stepAt?`: a step of a task keeps the ledger in order.
-/

namespace Bourse

/-! ## One trade -/

/-- A request without faults has a quantity without faults. -/
theorem TradeRequest.checkQuantity_of_validate {r : TradeRequest} {supported : List String}
    {q : Amount} (h : r.validate supported = .ok q) : r.checkQuantity = .ok q := by
  unfold validate at h
  split at h
  · exact absurd h (by simp only [reduceCtorEq, not_false_eq_true])
  · cases hcheck : r.checkQuantity with
    | error e =>
        rw [hcheck] at h
        exact absurd h (by simp only [reduceCtorEq, not_false_eq_true])
    | ok q' =>
        rw [hcheck] at h
        simp only [] at h
        split_ifs at h
        exact congrArg Except.ok (Except.ok.inj h)

/-- What there is to know, by the number of the trade, of the prices that trades go by and of the
entries that they have made in logs. -/
structure Sources where
  price : Nat → String → Amount → Prop
  entry : Nat → TradeRecord → Prop

namespace Execution

/-- The symbol of a trade and the price it goes by, once it has one. -/
def quoted? (x : Execution) : Option (String × Amount) :=
  match x.phase with
  | .timing price | .reading price _ | .storing price _ _ _ => some (x.request.symbol, price)
  | .logging o | .invalidating o | .pruning o | .finished (.ok o) => some (o.symbol, o.price)
  | _ => none

/-- The entry of a trade that has been made in a log. -/
def entered? (x : Execution) : Option TradeRecord :=
  match x.phase with
  | .invalidating o | .pruning o | .finished (.ok o) => some o.record
  | _ => none

/-- A reader that waits for the price of a trade. What it has found is a price. -/
structure Awaits (K : Sources) (id : Nat) (x : Execution) (r : QuoteReader) : Prop where
  phase : ∃ due, x.phase = .pricing due
  symbol : r.symbol = x.request.symbol
  maxAge : r.maxAge = x.config.maxQuoteAgeMs
  found : ∀ price, r.phase = .done (.ok price) → K.price id r.symbol price

/-- What is known of a trade under way. -/
structure InOrder (K : Sources) (id : Nat) (config : TradingConfig) (s : Store) (x : Execution)
    (hold : Hold) : Prop where
  config : x.config = config
  quantity : (∀ e, x.phase ≠ .finished (.error e)) → x.request.checkQuantity = .ok x.quantity
  quoted : ∀ symbol price, x.quoted? = some (symbol, price) → K.price id symbol price
  entered : ∀ r, x.entered? = some r → K.entry id r
  waits : hold = .free ∨ ∃ r, hold = .reader r ∧ x.Awaits K id r
  based : x.Based s

variable {K K' : Sources} {id : Nat} {config : TradingConfig} {s s' : Store} {x y : Execution}
  {hold : Hold}

theorem InOrder.mono (h : x.InOrder K id config s hold)
    (hprice : ∀ symbol price, K.price id symbol price → K'.price id symbol price)
    (hentry : ∀ r, K.entry id r → K'.entry id r) : x.InOrder K' id config s hold := by
  refine ⟨h.config, h.quantity, fun symbol price hq => hprice _ _ (h.quoted symbol price hq),
    fun r hr => hentry r (h.entered r hr), ?_, h.based⟩
  rcases h.waits with hfree | ⟨r, hr, hawaits⟩
  · exact Or.inl hfree
  · exact Or.inr ⟨r, hr, hawaits.phase, hawaits.symbol, hawaits.maxAge,
      fun price hfound => hprice _ _ (hawaits.found price hfound)⟩

theorem InOrder.of_grown (h : x.InOrder K id config s hold) (hs : s.Grown s') :
    x.InOrder K id config s' hold :=
  ⟨h.config, h.quantity, h.quoted, h.entered, h.waits, h.based.of_grown hs⟩

theorem inOrder_start (K : Sources) (id : Nat) (config : TradingConfig) (s : Store) (now : Nat)
    (user : String) (r : TradeRequest) (prunes : Bool) :
    (start config now user r prunes).InOrder K id config s .free := by
  unfold start
  split
  · next quantity hvalidate =>
    refine ⟨rfl, fun _ => TradeRequest.checkQuantity_of_validate hvalidate, fun _ _ hq => ?_,
      fun _ hr => ?_, Or.inl rfl, trivial⟩
    · exact absurd hq (by simp only [quoted?, reduceCtorEq, not_false_eq_true])
    · exact absurd hr (by simp only [entered?, reduceCtorEq, not_false_eq_true])
  · refine ⟨rfl, fun hnot => absurd rfl (hnot _), fun _ _ hq => ?_, fun _ hr => ?_, Or.inl rfl,
      trivial⟩
    · exact absurd hq (by simp only [quoted?, reduceCtorEq, not_false_eq_true])
    · exact absurd hr (by simp only [entered?, reduceCtorEq, not_false_eq_true])

/-- A trade that goes on to something else at the same price stays in order. -/
theorem InOrder.enter (h : x.InOrder K id config s hold) {phase : Phase}
    (hgoing : ∀ e, x.phase ≠ .finished (.error e))
    (hquoted : ∀ q, (x.enter phase).quoted? = some q → x.quoted? = some q)
    (hentered : ∀ r, (x.enter phase).entered? = some r → K.entry id r)
    (hbased : (x.enter phase).Based s) : (x.enter phase).InOrder K id config s .free :=
  ⟨h.config, fun _ => h.quantity hgoing, fun symbol price hq => h.quoted symbol price (hquoted _ hq),
    hentered, Or.inl rfl, hbased⟩

theorem InOrder.fail (h : x.InOrder K id config s hold) (e : TradeError) :
    (x.fail e).InOrder K id config s .free := by
  refine ⟨h.config, fun hnot => absurd rfl (hnot e), fun _ _ hq => ?_, fun _ hr => ?_, Or.inl rfl,
    trivial⟩
  · exact absurd hq
      (by simp only [Execution.fail, Execution.enter, quoted?, reduceCtorEq, not_false_eq_true])
  · exact absurd hr
      (by simp only [Execution.fail, Execution.enter, entered?, reduceCtorEq, not_false_eq_true])

/-- The price has come. -/
theorem InOrder.priced {r : QuoteReader} (h : x.InOrder K id config s (.reader r))
    {result : Except QuoteError Amount} (hresult : r.result? = some result) :
    (x.priced result).InOrder K id config s .free := by
  rcases h.waits with hfree | ⟨r', hr, hawaits⟩
  · exact absurd hfree (by simp only [reduceCtorEq, not_false_eq_true])
  · cases hr
    cases result with
    | error e => exact h.fail _
    | ok price =>
        have hdone : r.phase = .done (.ok price) := by
          unfold QuoteReader.result? at hresult
          split at hresult
          · next hphase => rw [hphase, Option.some.inj hresult]
          · exact absurd hresult (by simp only [reduceCtorEq, not_false_eq_true])
        rcases hawaits.phase with ⟨due, hphase⟩
        refine ⟨h.config, fun _ => h.quantity fun e => ?_, fun symbol p hq => ?_,
          fun _ hr => ?_, Or.inl rfl, trivial⟩
        · rw [hphase]
          exact Phase.noConfusion
        · cases Option.some.inj hq
          exact hawaits.symbol ▸ hawaits.found price hdone
        · exact absurd hr (by simp only [Execution.priced, Execution.enter, entered?,
            reduceCtorEq, not_false_eq_true])

/-- A call that logs a trade has been answered, as is known. Others enter nothing. -/
def Enters (K : Sources) (id : Nat) (s s' : Store) : Prop :=
  ∀ user r, s'.log user = s.log user ++ [r] → K.entry id r

/-- A call has been answered. -/
theorem InOrder.called {b : Books} (h : x.InOrder K id config b.store hold) {c : Call}
    {resume : Except StoreError c.Result → Execution} (hasks : x.Asks c resume) (now : Nat)
    (henters : Enters K id b.store (c.perform b now).2.store) :
    (resume (c.perform b now).1).InOrder K id config (c.perform b now).2.store .free := by
  have hgrown := Call.grown_perform b now c
  have h' := h.of_grown hgrown
  have hbased : (resume (c.perform b now).1).Based (c.perform b now).2.store := by
    rcases cases_of_asks hasks b now with ⟨-, -, -, hbased⟩ | ⟨price, m, version, u, -, -, heq⟩
    · exact hbased.of_grown hgrown
    · rw [heq]
      rcases x.cases_of_stored price m (b.store.compareAndSet x.user version u).1 with
        ⟨v, -, hstored⟩ | ⟨e, hstored⟩
      · rw [hstored]
        exact trivial
      · rw [hstored]
        exact trivial
  have hgoing : ∀ {phase}, x.phase = phase → (∀ e, phase ≠ .finished (.error e)) →
      ∀ e, x.phase ≠ .finished (.error e) := fun hphase hnot => hphase.symm ▸ hnot
  cases hasks with
  | document price m hphase =>
      rcases x.cases_of_read price m ((Call.readUser x.user).perform b now).1 with
        ⟨v, u, -, -, hread⟩ | ⟨e, hread⟩
      · rw [hread] at hbased ⊢
        refine h'.enter (hgoing hphase fun _ => Phase.noConfusion) (fun q hq => ?_)
          (fun r hr => ?_) hbased
        · rw [quoted?, hphase]
          exact hq
        · exact absurd hr (by simp only [Execution.enter, entered?, reduceCtorEq,
            not_false_eq_true])
      · rw [hread]
        exact h'.fail e
  | commit price m version u hphase =>
      rcases x.cases_of_stored price m ((Call.replaceUser x.user version u).perform b now).1 with
        ⟨v, -, hstored⟩ | ⟨e, hstored⟩
      · rw [hstored] at hbased ⊢
        refine h'.enter (hgoing hphase fun _ => Phase.noConfusion) (fun q hq => ?_)
          (fun r hr => ?_) hbased
        · rw [quoted?, hphase]
          exact hq
        · exact absurd hr (by simp only [Execution.enter, entered?, reduceCtorEq,
            not_false_eq_true])
      · rw [hstored]
        exact h'.fail e
  | log o hphase =>
      refine h'.enter (hgoing hphase fun _ => Phase.noConfusion) (fun q hq => ?_)
        (fun r hr => ?_) hbased
      · rw [quoted?, hphase]
        exact hq
      · cases Option.some.inj hr
        refine henters x.user o.record ?_
        simp only [Call.log_perform, Call.appended, if_pos, Call.removed, List.drop_zero]
  | invalidate o hphase =>
      refine h'.enter (hgoing hphase fun _ => Phase.noConfusion) (fun q hq => ?_)
        (fun r hr => h.entered r ?_) hbased
      · rw [quoted?, hphase]
        by_cases hprunes : x.prunes = true
        · rw [if_pos hprunes] at hq
          exact hq
        · rw [if_neg hprunes] at hq
          exact hq
      · rw [entered?, hphase]
        by_cases hprunes : x.prunes = true
        · rw [if_pos hprunes] at hr
          exact hr
        · rw [if_neg hprunes] at hr
          exact hr
  | prune o hphase =>
      refine h'.enter (hgoing hphase fun _ => Phase.noConfusion) (fun q hq => ?_)
        (fun r hr => h.entered r ?_) hbased
      · rw [quoted?, hphase]
        exact hq
      · rw [entered?, hphase]
        exact hr

/-- A trade that waits for a price waits for one of its symbol that is young enough. -/
theorem next_of_pricing {symbol : String} {maxAge : Nat} {d : Deadline Operation}
    {resume : Except QuoteError Amount → Operation}
    (h : (Operation.execution x).next = .pricing symbol maxAge d resume) :
    (∃ due, x.phase = .pricing due) ∧ symbol = x.request.symbol ∧
      maxAge = x.config.maxQuoteAgeMs ∧ ∀ r, resume r = .execution (x.priced r) := by
  rw [Operation.next, next] at h
  cases hphase : x.phase with
  | pricing due =>
      rw [hphase] at h
      cases h
      exact ⟨⟨due, rfl⟩, rfl, rfl, fun _ => rfl⟩
  | _ =>
      rw [hphase] at h
      exact absurd h (by simp only [Progress.map, reduceCtorEq, not_false_eq_true])

/-- A trade that reads the clocks has a price. -/
theorem next_of_reading {resume : Moment → Operation}
    (h : (Operation.execution x).next = .reading resume) : ∃ price, x.phase = .timing price ∧
      ∀ m, resume m = .execution (x.enter (.reading price m)) := by
  rw [Operation.next, next] at h
  cases hphase : x.phase with
  | timing price =>
      rw [hphase] at h
      cases h
      exact ⟨price, rfl, fun _ => rfl⟩
  | _ =>
      rw [hphase] at h
      exact absurd h (by simp only [Progress.map, reduceCtorEq, not_false_eq_true])

/-- A trade that has come too late fails. -/
theorem fail_of_deadline {t : Task} (hop : t.operation = .execution x) {due : Nat} {y : Operation}
    (h : t.deadline = some (due, y)) : ∃ e, y = .execution (x.fail e) := by
  rw [Task.deadline, hop, Operation.next, next] at h
  cases hphase : x.phase with
  | pricing due =>
      rw [hphase] at h
      exact ⟨_, (congrArg Prod.snd (Option.some.inj h)).symm⟩
  | reading price m =>
      rw [hphase] at h
      exact ⟨_, (congrArg Prod.snd (Option.some.inj h)).symm⟩
  | storing price m version u =>
      rw [hphase] at h
      exact ⟨_, (congrArg Prod.snd (Option.some.inj h)).symm⟩
  | _ =>
      rw [hphase] at h
      exact absurd h (by simp only [Progress.map, Option.map_none, reduceCtorEq,
        not_false_eq_true])

/-- A trade looks for the price of its symbol, and there is one that is young enough. -/
def Finds (config : TradingConfig) (env : Surroundings) (t : Task) (symbol : String)
    (price : Amount) : Prop :=
  ∃ x due r seen, t.operation = .execution x ∧ x.phase = .pricing due ∧ x.request.symbol = symbol ∧
    t.hold = .reader r ∧ r.phase = .looking seen ∧
    env.quotes.fresh? env.moment.now symbol config.maxQuoteAgeMs = some price

/-- A step of a task keeps its trade in order, and a trade that ends has come back at a price. -/
theorem InOrder.of_does {t : Task} {env : Surroundings} {d d' : Shared} {stepped : Stepped}
    (h : x.InOrder K t.id config d.books.store t.hold) (hop : t.operation = .execution x)
    (hfinds : ∀ symbol price, Finds config env t symbol price → K.price t.id symbol price)
    (henters : Enters K t.id d.books.store d'.books.store) (hdoes : t.Does env d stepped d') :
    (∃ t' z, stepped = .went t' ∧ t'.id = t.id ∧ t'.operation = .execution z ∧
      z.InOrder K t.id config d'.books.store t'.hold) ∨
    ∃ r, stepped = .ended (some (.execution r)) ∧
      ∀ o, r = .ok o → K.price t.id o.symbol o.price ∧ K.entry t.id o.record := by
  have hplain := x.isPlain_next
  cases hdoes with
  | asks symbol maxAge deadline resume hnext =>
      rw [hop] at hnext
      rcases next_of_pricing hnext with ⟨hphase, rfl, rfl, -⟩
      refine Or.inl ⟨_, x, rfl, rfl, hop, h.config, h.quantity, h.quoted, h.entered,
        Or.inr ⟨_, rfl, hphase, rfl, rfl, fun price hdone => ?_⟩, h.based⟩
      exact absurd hdone (by simp only [QuoteReader.start, reduceCtorEq, not_false_eq_true])
  | looks r r' hhold hstep =>
      rcases h.waits with hfree | ⟨r₀, hr₀, hawaits⟩
      · rw [hhold] at hfree
        exact absurd hfree (by simp only [reduceCtorEq, not_false_eq_true])
      · cases hhold.symm.trans hr₀
        rcases hawaits.phase with ⟨due, hpricing⟩
        rcases QuoteReader.cases_of_step hstep with ⟨⟨hsymbol, hage⟩, hcases⟩
        refine Or.inl ⟨_, x, rfl, rfl, hop, h.config, h.quantity, h.quoted, h.entered,
          Or.inr ⟨r', rfl, hawaits.phase, hsymbol.trans hawaits.symbol,
            hage.trans hawaits.maxAge, fun price hdone => ?_⟩, h.based⟩
        rcases hcases with ⟨seen, p, hlooking, hfresh, hphase⟩ | ⟨seen, -, -, hphase⟩ |
          ⟨seen, -, -, hphase⟩ | ⟨seen, -, -, hphase⟩
        · cases hdone.symm.trans hphase
          rw [hawaits.maxAge, h.config, hawaits.symbol] at hfresh
          rw [hsymbol, hawaits.symbol]
          exact hfinds _ _ ⟨x, due, r, seen, hop, hpricing, rfl, hhold, hlooking, hfresh⟩
        · exact absurd (hphase.symm.trans hdone)
            (by simp only [reduceCtorEq, not_false_eq_true])
        · exact absurd (hphase.symm.trans hdone)
            (by simp only [reduceCtorEq, not_false_eq_true])
        · exact absurd (hphase.symm.trans hdone)
            (by simp only [QuoteReader.Phase.done.injEq, reduceCtorEq, not_false_eq_true])
  | priced r result symbol maxAge deadline resume hhold hresult hnext =>
      rw [hop] at hnext
      rw [hhold] at h
      rcases next_of_pricing hnext with ⟨-, -, -, hresume⟩
      exact Or.inl ⟨_, _, rfl, rfl, hresume result, h.priced hresult⟩
  | freed =>
      exact Or.inl ⟨_, x, rfl, rfl, hop, h.config, h.quantity, h.quoted, h.entered, Or.inl rfl,
        h.based⟩
  | timed resume hnext =>
      rw [hop] at hnext
      rcases next_of_reading hnext with ⟨price, hphase, hresume⟩
      refine Or.inl ⟨_, _, rfl, rfl, hresume env.moment,
        h.enter (fun e => ?_) (fun q hq => ?_) (fun r hr => ?_) trivial⟩
      · rw [hphase]
        exact Phase.noConfusion
      · rw [quoted?, hphase]
        exact hq
      · exact absurd hr (by simp only [Execution.enter, entered?, reduceCtorEq,
          not_false_eq_true])
  | late due y hdeadline =>
      rcases fail_of_deadline hop hdeadline with ⟨e, rfl⟩
      exact Or.inl ⟨_, _, rfl, rfl, rfl, h.fail e⟩
  | calls c deadline resume hnext =>
      rw [hop] at hnext
      rcases Progress.calling_of_map hnext with ⟨d', k, hk, hresume⟩
      exact Or.inl ⟨_, _, rfl, rfl, hresume _,
        h.called (asks_of_next hk) env.moment.now henters⟩
  | wakes due y hnext =>
      rw [← hop, hnext] at hplain
      exact absurd hplain Bool.false_ne_true
  | starts child y _ hnext =>
      rw [← hop, hnext] at hplain
      exact absurd hplain Bool.false_ne_true
  | abandons y _ hnext =>
      rw [← hop, hnext] at hplain
      exact absurd hplain Bool.false_ne_true
  | crashes hnext =>
      rw [← hop, hnext] at hplain
      exact absurd hplain Bool.false_ne_true
  | ends r hnext =>
      rw [hop, Operation.next, next] at hnext
      cases hphase : x.phase with
      | finished result =>
          rw [hphase] at hnext
          cases hnext
          refine Or.inr ⟨result, rfl, fun o ho => ⟨h.quoted o.symbol o.price ?_,
            h.entered o.record ?_⟩⟩
          · rw [quoted?, hphase, ho]
          · rw [entered?, hphase, ho]
      | _ =>
          rw [hphase] at hnext
          exact absurd hnext (by simp only [Progress.map, reduceCtorEq, not_false_eq_true])

end Execution

/-! ## The ledger -/

/-- What is known of a task: its answers are not kept back, and its trade is in order. -/
structure Task.InOrder (K : Sources) (config : TradingConfig) (s : Store) (t : Task) : Prop where
  answered : ∀ m x, t.hold ≠ .withheld m x
  trade : ∀ x, t.operation = .execution x → x.InOrder K t.id config s t.hold

/-- A task that is told something has the same trade. -/
theorem Task.InOrder.told {K : Sources} {config : TradingConfig} {s : Store} {t : Task}
    (h : t.InOrder K config s) (removed : Option Nat) :
    ({ t with operation := t.operation.ended removed } : Task).InOrder K config s := by
  refine ⟨h.answered, fun x hx => h.trade x ?_⟩
  cases hop : t.operation with
  | execution y =>
      rw [← hx]
      simp only [hop, Operation.ended]
  | _ =>
      simp only [hop, Operation.ended, reduceCtorEq] at hx

namespace Ledger

/-- What is known of a ledger. -/
structure InOrder (K : Sources) (config : TradingConfig) (l : Ledger) : Prop where
  faults : l.shared.faults = []
  tasks : l.Every (Task.InOrder K config l.books.store)
  results : ∀ id o, l.result? id = some (some (.execution (.ok o))) →
    K.price id o.symbol o.price ∧ K.entry id o.record
  logs : ∀ user, ∀ r ∈ l.books.store.log user, ∃ id, K.price id r.symbol r.price

variable {K K' : Sources} {config : TradingConfig} {l l' : Ledger} {t : Task}
  {env : Surroundings} {d : Shared} {stepped : Stepped}

theorem InOrder.mono (h : l.InOrder K config)
    (hprice : ∀ id symbol price, K.price id symbol price → K'.price id symbol price)
    (hentry : ∀ id r, K.entry id r → K'.entry id r) : l.InOrder K' config := by
  refine ⟨h.faults, fun t ht => ⟨(h.tasks t ht).answered, fun x hx =>
    ((h.tasks t ht).trade x hx).mono (hprice t.id) (hentry t.id)⟩, fun id o ho => ?_,
    fun user r hr => ?_⟩
  · rcases h.results id o ho with ⟨hp, hr⟩
    exact ⟨hprice _ _ _ hp, hentry _ _ hr⟩
  · rcases h.logs user r hr with ⟨id, hp⟩
    exact ⟨id, hprice _ _ _ hp⟩

theorem inOrder_create (K : Sources) (config trading : TradingConfig)
    (valuation : ValuationConfig) : (create trading valuation).InOrder K config :=
  ⟨rfl, fun _ ht => absurd ht List.not_mem_nil,
    fun _ _ ho => absurd ho.symm (Option.some_ne_none _), fun _ _ hr => absurd hr List.not_mem_nil⟩

theorem InOrder.add (h : l.InOrder K config) (parent : Option Nat) {x : Operation}
    (hx : ∀ y, x = .execution y → y.InOrder K l.nextId config l.books.store .free) :
    (l.add parent x).InOrder K config :=
  ⟨h.faults, Every.add h.tasks ⟨fun _ _ => Hold.noConfusion, hx⟩, h.results, h.logs⟩

/-- An errand comes in order. -/
theorem inOrder_spawn (h : l.InOrder K config) (e : Errand) :
    (l.spawn (e.operation config)).2.InOrder K config := by
  refine h.add none fun y hy => ?_
  cases e with
  | trade now user request prunes =>
      cases Operation.execution.inj hy
      exact Execution.inOrder_start K _ config _ now user request prunes
  | _ => exact Operation.noConfusion hy

theorem inOrder_cancel (h : l.InOrder K config) (id : Nat) : (l.cancel id).InOrder K config :=
  ⟨h.faults, every_cancel h.tasks id, h.results, h.logs⟩

/-- The job heeds the stop signal. -/
theorem inOrder_heed (h : l.InOrder K config) {id : Nat} (hheed : l.heed? id = some l') :
    l'.InOrder K config := by
  have hshared := shared_heed? hheed
  rcases heed?_eq_some hheed with ⟨t, -, -, rfl⟩
  refine ⟨?_, ?_, fun id o ho => ?_, ?_⟩
  · rw [hshared]
    exact h.faults
  · rw [books, hshared]
    exact Every.after h.tasks (fun _ removed hold => hold.told removed)
      (fun _ ht' => absurd ht'.symm (Option.some_ne_none _)) (fun _ _ hst => Stepped.noConfusion hst)
  · rcases result?_after ho with hold | ⟨-, hended⟩
    · exact h.results id o hold
    · cases hended
  · rw [books, hshared]
    exact h.logs

theorem inOrder_moveBack (h : l.InOrder K config) (id : Nat) : (l.moveBack id).InOrder K config := by
  rcases l.moveBack_eq id with ⟨tasks, hmem, heq⟩
  rw [heq]
  exact ⟨h.faults, fun t ht => h.tasks t (hmem t ht), h.results, h.logs⟩

/-- What the tasks share is as it should be after a step of one of them, which may be a call. -/
theorem InOrder.shared_of_does (h : l.InOrder K config) (ht : t ∈ l.tasks)
    (hdoes : t.Does env l.shared stepped d) : ({ l with shared := d } : Ledger).InOrder K config := by
  cases hdoes with
  | calls c deadline resume hnext =>
      have hgrown := Call.grown_perform l.shared.books env.moment.now c
      refine ⟨h.faults, fun t ht => ⟨(h.tasks t ht).answered, fun x hx =>
        ((h.tasks t ht).trade x hx).of_grown hgrown⟩, h.results, fun user r hr => ?_⟩
      simp only [books, Call.log_perform] at hr
      rcases List.mem_append.1 (List.mem_of_mem_drop hr) with hold | hnew
      · exact h.logs user r hold
      · -- Only a trade that has been committed writes into a log.
        cases c with
        | appendTrade user' r' =>
            rcases Operation.exists_of_isTrading hnext rfl with ⟨x, hop⟩
            rw [hop] at hnext
            rcases Progress.calling_of_map hnext with ⟨d', k, hk, -⟩
            have hasks := Execution.asks_of_next hk
            cases hasks with
            | log o hphase =>
                have hquoted := ((h.tasks t ht).trade x hop).quoted o.symbol o.price
                  (by rw [Execution.quoted?, hphase])
                simp only [Call.appended] at hnew
                split at hnew
                · rw [List.mem_singleton.1 hnew]
                  exact ⟨t.id, hquoted⟩
                · exact absurd hnew List.not_mem_nil
        | _ => exact absurd hnew List.not_mem_nil
  | _ => exact h

/-- What there is to know of a step of a task: which price its trade finds, and what it enters in
logs. -/
structure Witnessed (K : Sources) (config : TradingConfig) (env : Surroundings) (l : Ledger) (t : Task)
    (s : Store) : Prop where
  finds : ∀ symbol price, Execution.Finds config env t symbol price → K.price t.id symbol price
  enters : Execution.Enters K t.id l.books.store s

/-- A step of a task leaves its trade in order. -/
theorem InOrder.task_of_does (h : l.InOrder K config) (ht : t ∈ l.tasks)
    (hwitnessed : Witnessed K config env l t d.books.store) (hdoes : t.Does env l.shared stepped d)
    {t' : Task} (ht' : stepped.task? = some t') : t'.InOrder K config d.books.store := by
  rcases hdoes.task ht' with ⟨hid, hhold, -⟩
  refine ⟨fun m x => ?_, fun z hz => ?_⟩
  · rcases hhold with hsame | hfree | ⟨r, hr⟩
    · rw [hsame]
      exact (h.tasks t ht).answered m x
    · rw [hfree]
      exact Hold.noConfusion
    · rw [hr]
      exact Hold.noConfusion
  · rcases hdoes.execution ht' hz with ⟨x, hx⟩
    rcases ((h.tasks t ht).trade x hx).of_does hx hwitnessed.finds hwitnessed.enters hdoes with
      ⟨t₁, z₁, rfl, -, hz₁, hinOrder⟩ | ⟨r, rfl, -⟩
    · cases Option.some.inj ht'
      cases hz.symm.trans hz₁
      rw [hid]
      exact hinOrder
    · exact absurd ht' (by simp only [Stepped.task?, reduceCtorEq, not_false_eq_true])

/-- A trade that ends has come back at a price. -/
theorem InOrder.outcome_of_does (h : l.InOrder K config) (ht : t ∈ l.tasks)
    (hwitnessed : Witnessed K config env l t d.books.store) {outcome : Option Outcome}
    (hdoes : t.Does env l.shared (.ended outcome) d) (o : TradeOutcome)
    (ho : outcome = some (.execution (.ok o))) :
    K.price t.id o.symbol o.price ∧ K.entry t.id o.record := by
  subst ho
  cases hdoes with
  | ends _ hnext =>
      rcases Operation.exists_of_finished hnext with ⟨x, hop⟩
      rcases ((h.tasks t ht).trade x hop).of_does hop hwitnessed.finds hwitnessed.enters
        (.ends _ hnext) with ⟨t', z, hwent, -⟩ | ⟨r, hended, hr⟩
      · exact absurd hwent (by simp only [reduceCtorEq, not_false_eq_true])
      · cases hended
        exact hr o rfl

/-- A step of a task is one of those that a task does, and the books are the same or as a call of it
has left them. -/
theorem InOrder.does_of_stepAt? (h : l.InOrder K config) {id : Nat}
    (hstep : l.stepAt? env id = some l') : ∃ t stepped d, l.task? id = some t ∧
      t.Does env l.shared stepped d ∧ l'.shared = d ∧
      l' = ({ l with shared := d } : Ledger).after t stepped := by
  rcases Option.bind_eq_some_iff.1 hstep with ⟨t, ht, hstep⟩
  rcases stepTask?_eq_some hstep with ⟨stepped, d, htask, rfl⟩
  have hdoes := Task.does_of_step? h.faults (h.tasks t (mem_of_task? ht)).answered htask
  exact ⟨t, stepped, d, ht, hdoes, shared_after _ t stepped, rfl⟩

/-- A step of a task keeps the ledger in order. -/
theorem inOrder_of_stepAt? (h : l.InOrder K config) {id : Nat} (hstep : l.stepAt? env id = some l')
    (hwitnessed : ∀ t, l.task? id = some t → Witnessed K config env l t l'.books.store) :
    l'.InOrder K config := by
  rcases h.does_of_stepAt? hstep with ⟨t, stepped, d, ht, hdoes, rfl, hl'⟩
  have hmem := mem_of_task? ht
  have hshared := h.shared_of_does hmem hdoes
  have hnew := hwitnessed t ht
  refine ⟨hshared.faults, ?_, fun id o ho => ?_, hshared.logs⟩
  · rw [hl', books, shared_after]
    exact Every.after hshared.tasks (fun _ removed hold => hold.told removed)
      (fun t' ht' => h.task_of_does hmem hnew hdoes ht')
      (fun _ _ _ => ⟨fun _ _ => Hold.noConfusion, fun _ hy => Operation.noConfusion hy⟩)
  · rw [hl'] at ho
    rcases result?_after ho with hold | ⟨hid, rfl⟩
    · exact hshared.results id o hold
    · rw [hid]
      exact h.outcome_of_does hmem hnew hdoes o rfl

end Ledger

end Bourse
