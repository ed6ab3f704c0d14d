import Bourse.Proofs.Floor.Basic
import Bourse.Proofs.Ledger.Documents

/-!
# The Steps of a Visitor

What a step of a visitor can be, as far as documents are concerned. Only two kinds
of visitors ever write one: a trade, whose one writing call is the replacement of
the document that it has read, and the opening of an account, whose one writing
call is its creation. The others only read.

A trade that is about to store its copy has read the document some time ago, and
others may have been there since. `Execution.Based` is what is known of the copy
all the same: a document of the version remembered is the one that was read, and
the copy is that document after the trade. It stays true however the documents
grow, so nothing that others do can break it.

## Main definitions

* `Execution.pending?`, `Execution.committed?`: the trade about to be committed, and
  the one that has been.
* `Execution.Based`: what is known of a copy about to be stored.
* `Execution.Asks`: the calls of a trade.
* `AccountOpening.IsOf`: an opening with the cash and symbols of a configuration.
* `Operation.Upright`: what is known of any visitor.

## Theorems

* `Execution.cases_of_hear?`, `Execution.asks_of_next`: what the steps of a trade are.
* `AccountOpening.cases_of_calling`: what the calls of an opening are.
* `Operation.upright_of_hear?`: nothing that is heard makes a visitor less upright.
* `Operation.cases_of_calling`: what the calls of any visitor are.
* `Operation.Upright.of_grown`: no step of another makes a visitor less upright.
-/

namespace Bourse

/-! ## Trades -/

namespace Execution

/-- The log entry of a trade that is about to be committed. -/
def pending? (x : Execution) : Option TradeRecord :=
  match x.phase with
  | .storing price m _ u => some (x.outcome price m.time u.portfolio).record
  | _ => none

/-- The log entry of a trade that has been committed. -/
def committed? (x : Execution) : Option TradeRecord :=
  match x.phase with
  | .logging o | .invalidating o | .pruning o | .finished (.ok o) => some o.record
  | _ => none

/-- The copy that a trade is about to store is the stored document after the trade, unless the
document has a later version by now. -/
def Based (s : Store) (x : Execution) : Prop :=
  match x.phase with
  | .storing price m version u =>
    ∃ v, s.user? x.user = some v ∧ version ≤ v.version ∧
      (v.version = version → x.amend price m.time v.value = .ok u)
  | _ => True

theorem Based.of_grown {s s' : Store} {x : Execution} (h : x.Based s) (hs : s.Grown s') :
    x.Based s' := by
  unfold Based at h ⊢
  split
  · next price m version u hphase =>
    rw [hphase] at h
    rcases h with ⟨v, hv, hle, hamend⟩
    rcases hs x.user v hv with ⟨v', hv', hle', hsame⟩
    refine ⟨v', hv', hle.trans hle', fun hversion => ?_⟩
    -- A document that still has the version read cannot have been written in between.
    have hold : v'.version = v.version := by omega
    rw [hsame hold]
    exact hamend (by omega)
  · exact trivial

/-- What a trade hears comes before its commit: a price, the time, or that it is too late. -/
theorem cases_of_hear? {x y : Execution} {news : News}
    (h : (@next UserValuation x).hear? news = some y) :
    x.committed? = none ∧
      ((∃ price, y = x.enter (.timing price)) ∨ (∃ price m, y = x.enter (.reading price m)) ∨
        ∃ e, y = x.fail e) := by
  unfold committed?
  cases hphase : x.phase with
  | pricing due =>
      rw [next, hphase] at h
      cases news with
      | clock m => exact absurd h (by simp only [Progress.hear?, reduceCtorEq, not_false_eq_true])
      | price answer =>
          rw [← Option.some.inj h]
          cases answer with
          | ok price => exact ⟨rfl, Or.inl ⟨price, rfl⟩⟩
          | error e => exact ⟨rfl, Or.inr (Or.inr ⟨_, rfl⟩)⟩
      | late =>
          rw [← Option.some.inj h]
          exact ⟨rfl, Or.inr (Or.inr ⟨_, rfl⟩)⟩
  | timing price =>
      rw [next, hphase] at h
      cases news with
      | clock m =>
          rw [← Option.some.inj h]
          exact ⟨rfl, Or.inr (Or.inl ⟨price, m, rfl⟩)⟩
      | _ => exact absurd h (by simp only [Progress.hear?, reduceCtorEq, not_false_eq_true])
  | reading price m =>
      rw [next, hphase] at h
      cases news with
      | late =>
          rw [← Option.some.inj h]
          exact ⟨rfl, Or.inr (Or.inr ⟨_, rfl⟩)⟩
      | _ => exact absurd h (by simp only [Progress.hear?, reduceCtorEq, not_false_eq_true])
  | storing price m version u =>
      rw [next, hphase] at h
      cases news with
      | late =>
          rw [← Option.some.inj h]
          exact ⟨rfl, Or.inr (Or.inr ⟨_, rfl⟩)⟩
      | _ => exact absurd h (by simp only [Progress.hear?, reduceCtorEq, not_false_eq_true])
  | logging o | invalidating o | pruning o | finished r =>
      -- From its commit on a trade waits for nothing but its calls.
      rw [next, hphase] at h
      cases news <;>
        exact absurd h (by simp only [Progress.hear?, Option.map_none, reduceCtorEq,
          not_false_eq_true])

/-- The calls of a trade, and how it goes on after each. -/
inductive Asks (x : Execution) : (c : Call) → (Except StoreError c.Result → Execution) → Prop
  | document (price : Amount) (m : Moment) (phase : x.phase = .reading price m) :
      Asks x (.readUser x.user) (x.read price m)
  | commit (price : Amount) (m : Moment) (version : Nat) (u : User)
      (phase : x.phase = .storing price m version u) :
      Asks x (.replaceUser x.user version u) (x.stored price m)
  | log (o : TradeOutcome) (phase : x.phase = .logging o) :
      Asks x (.appendTrade x.user o.record) (fun _ => x.enter (.invalidating o))
  | invalidate (o : TradeOutcome) (phase : x.phase = .invalidating o) :
      Asks x (.invalidateHistory x.user)
        (fun _ => x.enter (if x.prunes then .pruning o else .finished (.ok o)))
  | prune (o : TradeOutcome) (phase : x.phase = .pruning o) :
      Asks x (.pruneTrades x.user x.config.maxTradeHistory)
        (fun _ => x.enter (.finished (.ok o)))

theorem asks_of_next {x : Execution} {c : Call} {d : Deadline Execution}
    {resume : Except StoreError c.Result → Execution}
    (h : @next UserValuation x = .calling c d resume) : x.Asks c resume := by
  cases hphase : x.phase with
  | reading price m =>
      rw [next, hphase] at h
      cases h
      exact .document price m hphase
  | storing price m version u =>
      rw [next, hphase] at h
      cases h
      exact .commit price m version u hphase
  | logging o =>
      rw [next, hphase] at h
      cases h
      exact .log o hphase
  | invalidating o =>
      rw [next, hphase] at h
      cases h
      exact .invalidate o hphase
  | pruning o =>
      rw [next, hphase] at h
      cases h
      exact .prune o hphase
  -- In the other phases it listens, or has ended.
  | pricing due | timing price | finished r =>
      rw [next, hphase] at h
      exact absurd h (by simp only [reduceCtorEq, not_false_eq_true])

/-- A trade that has read a document holds a copy of it after the trade, or has failed. -/
theorem cases_of_read (x : Execution) (price : Amount) (m : Moment)
    (r : Except StoreError (Option (Versioned User))) :
    (∃ v u, r = .ok (some v) ∧ x.amend price m.time v.value = .ok u ∧
      x.read price m r = x.enter (.storing price m v.version u)) ∨
    ∃ e, x.read price m r = x.fail e := by
  rcases r with e | _ | v
  · exact Or.inr ⟨_, rfl⟩
  · exact Or.inr ⟨_, rfl⟩
  · rw [read]
    split
    · next u hamend => exact Or.inl ⟨v, u, rfl, hamend, rfl⟩
    · exact Or.inr ⟨_, rfl⟩

/-- A trade whose copy was to be stored is committed, or has failed. -/
theorem cases_of_stored (x : Execution) (price : Amount) (m : Moment)
    (r : Except StoreError (Versioned User)) :
    (∃ v, r = .ok v ∧
      x.stored price m r = x.enter (.logging (x.outcome price m.time v.value.portfolio))) ∨
    ∃ e, x.stored price m r = x.fail e := by
  rcases r with e | v
  · exact Or.inr ⟨_, rfl⟩
  · exact Or.inl ⟨v, rfl, rfl⟩

/-- A call of a trade writes no document, unless it is the one that is to commit the trade. -/
theorem cases_of_asks {x : Execution} {c : Call} {resume : Except StoreError c.Result → Execution}
    (h : x.Asks c resume) (b : Books) (now : Nat) :
    (c.isWrite = false ∧ (resume (c.perform b now).1).user = x.user ∧
      (resume (c.perform b now).1).committed? = x.committed? ∧
      (resume (c.perform b now).1).Based b.store) ∨
    ∃ price m version u, x.phase = .storing price m version u ∧ c = .replaceUser x.user version u ∧
      resume (c.perform b now).1 = x.stored price m (b.store.compareAndSet x.user version u).1 := by
  unfold committed?
  cases h with
  | document price m hphase =>
      rw [hphase]
      refine Or.inl ?_
      rcases x.cases_of_read price m (.ok (b.store.user? x.user)) with
        ⟨v, u, hv, hamend, hread⟩ | ⟨e, hread⟩
      · -- What it has read is stored at this moment, under the version that it remembers.
        simp only [Call.perform, hread]
        exact ⟨rfl, rfl, rfl, v, Except.ok.inj hv, le_refl _, fun _ => hamend⟩
      · simp only [Call.perform, hread]
        exact ⟨rfl, rfl, rfl, trivial⟩
  | commit price m version u hphase => exact Or.inr ⟨price, m, version, u, hphase, rfl, rfl⟩
  | log o hphase =>
      rw [hphase]
      exact Or.inl ⟨rfl, rfl, rfl, trivial⟩
  | invalidate o hphase =>
      rw [hphase]
      by_cases hp : x.prunes
      · simp only [hp, if_true]
        exact Or.inl ⟨rfl, rfl, rfl, trivial⟩
      · simp only [hp]
        exact Or.inl ⟨rfl, rfl, rfl, trivial⟩
  | prune o hphase =>
      rw [hphase]
      exact Or.inl ⟨rfl, rfl, rfl, trivial⟩

end Execution

/-! ## Openings of accounts -/

namespace AccountOpening

/-- An opening with the cash and the symbols of a configuration, which is about to create what it
would create at some time. -/
structure IsOf (config : TradingConfig) (x : AccountOpening) : Prop where
  startingCash : x.startingCash = config.startingCash
  symbols : x.symbols = config.supportedSymbols
  creating : match x.phase with
    | .creating u => ∃ time, u = x.account time
    | _ => True

theorem isOf_of_hear? {config : TradingConfig} {x y : AccountOpening} {news : News}
    (hx : x.IsOf config) (h : (@next UserValuation x).hear? news = some y) :
    y.IsOf config := by
  cases hphase : x.phase with
  | timing =>
      rw [next, hphase] at h
      cases news with
      | clock m =>
          rw [← Option.some.inj h]
          exact ⟨hx.startingCash, hx.symbols, m.time, rfl⟩
      | _ => exact absurd h (by simp only [Progress.hear?, reduceCtorEq, not_false_eq_true])
  | looking | creating u | recording u | rereading | finished r =>
      rw [next, hphase] at h
      cases news <;>
        exact absurd h (by simp only [Progress.hear?, Option.map_none, reduceCtorEq,
          not_false_eq_true])

theorem isOf_looked {config : TradingConfig} {x : AccountOpening} (hx : x.IsOf config)
    (r : Except StoreError (Option (Versioned User))) : (x.looked r).IsOf config := by
  rcases r with e | _ | v
  · exact ⟨hx.startingCash, hx.symbols, trivial⟩
  · exact ⟨hx.startingCash, hx.symbols, trivial⟩
  · exact ⟨hx.startingCash, hx.symbols, trivial⟩

theorem isOf_created {config : TradingConfig} {x : AccountOpening} (hx : x.IsOf config)
    (r : Except StoreError (Versioned User)) : (x.created r).IsOf config := by
  unfold created
  split
  · exact ⟨hx.startingCash, hx.symbols, trivial⟩
  · exact ⟨hx.startingCash, hx.symbols, trivial⟩
  · exact ⟨hx.startingCash, hx.symbols, trivial⟩

theorem isOf_reread {config : TradingConfig} {x : AccountOpening} (hx : x.IsOf config)
    (r : Except StoreError (Option (Versioned User))) : (x.reread r).IsOf config := by
  rcases r with e | _ | v
  · exact ⟨hx.startingCash, hx.symbols, trivial⟩
  · exact ⟨hx.startingCash, hx.symbols, trivial⟩
  · exact ⟨hx.startingCash, hx.symbols, trivial⟩

/-- A call of an opening writes no document, unless it is the one that is to create it. -/
theorem cases_of_calling {config : TradingConfig} {x : AccountOpening} {c : Call}
    {d : Deadline AccountOpening} {resume : Except StoreError c.Result → AccountOpening}
    (hx : x.IsOf config) (h : @next UserValuation x = .calling c d resume) :
    (∀ r, (resume r).IsOf config) ∧
      (c.isWrite = false ∨ ∃ time, c = .createUser (x.account time)) := by
  cases hphase : x.phase with
  | looking =>
      rw [next, hphase] at h
      cases h
      exact ⟨isOf_looked hx, Or.inl rfl⟩
  | creating u =>
      -- The account was made up before, when the clock was read.
      obtain ⟨time, rfl⟩ : ∃ time, u = x.account time := by
        have hcreating := hx.creating
        rw [hphase] at hcreating
        exact hcreating
      rw [next, hphase] at h
      cases h
      exact ⟨isOf_created hx, Or.inr ⟨time, rfl⟩⟩
  | recording u =>
      rw [next, hphase] at h
      cases h
      exact ⟨fun _ => ⟨hx.startingCash, hx.symbols, trivial⟩, Or.inl rfl⟩
  | rereading =>
      rw [next, hphase] at h
      cases h
      exact ⟨isOf_reread hx, Or.inl rfl⟩
  | timing | finished r =>
      rw [next, hphase] at h
      exact absurd h (by simp only [reduceCtorEq, not_false_eq_true])

end AccountOpening

/-! ## Readings -/

theorem PortfolioReading.isWrite_of_next {x : PortfolioReading} {c : Call}
    {d : Deadline PortfolioReading} {resume : Except StoreError c.Result → PortfolioReading}
    (h : @PortfolioReading.next UserValuation x = .calling c d resume) : c.isWrite = false := by
  cases x with
  | reading user => cases h; rfl
  | finished r => cases h

theorem HistoryReading.isWrite_of_next {x : HistoryReading} {c : Call}
    {d : Deadline HistoryReading} {resume : Except StoreError c.Result → HistoryReading}
    (h : @HistoryReading.next UserValuation x = .calling c d resume) : c.isWrite = false := by
  cases x with
  | looking user => cases h; rfl
  | listing user generation => cases h; rfl
  | saving user generation trades => cases h; rfl
  | finished r => cases h

theorem SnapshotReading.isWrite_of_next {x : SnapshotReading} {c : Call}
    {d : Deadline SnapshotReading} {resume : Except StoreError c.Result → SnapshotReading}
    (h : @SnapshotReading.next UserValuation x = .calling c d resume) : c.isWrite = false := by
  cases x with
  | reading user => cases h; rfl
  | finished r => cases h

/-! ## Visitors -/

namespace Operation

/-- What is known of any visitor: a trade is based on the documents, and an opening is one of the
configuration. Nobody comes to value anything. -/
def Upright (config : TradingConfig) (s : Store) : Operation → Prop
  | execution x => x.Based s
  | opening x => x.IsOf config
  | portfolio _ | history _ | snapshots _ => True
  | valuation _ | userValuation _ | job _ => False

/-- The log entries of the trades that an operation has committed for a user: one or none. -/
def committed (id : String) : Operation → List TradeRecord
  | execution x => if x.user = id then x.committed?.toList else []
  | _ => []

theorem committed_of_none {x : Execution} (h : x.committed? = none) (id : String) :
    (execution x).committed id = [] := by
  simp only [committed, h, Option.toList_none]
  exact ite_self []

theorem committed_of_some {x : Execution} {t : TradeRecord} (h : x.committed? = some t)
    (id : String) : (execution x).committed id = if x.user = id then [t] else [] := by
  simp only [committed, h, Option.toList_some]

theorem upright_of_errand (config : TradingConfig) (s : Store) (e : Errand) :
    (e.operation config).Upright config s ∧ ∀ id, (e.operation config).committed id = [] := by
  cases e with
  | trade now user request prunes =>
      simp only [Errand.operation, Execution.start]
      split
      · exact ⟨trivial, committed_of_none rfl⟩
      · exact ⟨trivial, committed_of_none rfl⟩
  | account identity => exact ⟨⟨rfl, rfl, trivial⟩, fun _ => rfl⟩
  | _ => exact ⟨trivial, fun _ => rfl⟩

theorem Upright.of_grown {config : TradingConfig} {s s' : Store} {x : Operation}
    (h : x.Upright config s) (hs : s.Grown s') : x.Upright config s' := by
  cases x with
  | execution x => exact Execution.Based.of_grown h hs
  | _ => exact h

/-- What an operation within another hears leads to an operation within the other. -/
theorem exists_of_hear? {σ ρ ρ' : Type} {f : σ → Operation} {g : ρ → ρ'}
    {p : Progress UserValuation σ ρ} {news : News} {y : Operation}
    (h : (p.map f g).hear? news = some y) : ∃ s, p.hear? news = some s ∧ y = f s := by
  rw [Progress.hear?_map, Option.map_eq_some_iff] at h
  rcases h with ⟨s, hs, rfl⟩
  exact ⟨s, hs, rfl⟩

/-- Nothing that a visitor hears makes it anything else than upright, or commits its trade. -/
theorem upright_of_hear? {config : TradingConfig} {s : Store} {x y : Operation} {news : News}
    (hx : x.Upright config s) (h : x.next.hear? news = some y) :
    y.Upright config s ∧ ∀ id, y.committed id = x.committed id := by
  cases x with
  | execution x =>
      rcases exists_of_hear? h with ⟨z, hz, rfl⟩
      rcases Execution.cases_of_hear? hz with ⟨hnone, hy⟩
      -- Wherever it goes from here, it holds no copy yet.
      have hz' : z.committed? = none ∧ z.Based s := by
        rcases hy with ⟨price, rfl⟩ | ⟨price, m, rfl⟩ | ⟨e, rfl⟩
        · exact ⟨rfl, trivial⟩
        · exact ⟨rfl, trivial⟩
        · exact ⟨rfl, trivial⟩
      refine ⟨hz'.2, fun id => ?_⟩
      rw [committed_of_none hnone, committed_of_none hz'.1]
  | opening x =>
      rcases exists_of_hear? h with ⟨z, hz, rfl⟩
      exact ⟨AccountOpening.isOf_of_hear? hx hz, fun _ => rfl⟩
  | portfolio x =>
      rcases exists_of_hear? h with ⟨z, -, rfl⟩
      exact ⟨trivial, fun _ => rfl⟩
  | history x =>
      rcases exists_of_hear? h with ⟨z, -, rfl⟩
      exact ⟨trivial, fun _ => rfl⟩
  | snapshots x =>
      rcases exists_of_hear? h with ⟨z, -, rfl⟩
      exact ⟨trivial, fun _ => rfl⟩
  | valuation x | userValuation x | job x => exact hx.elim

/-- A call of a visitor writes no document, or is to commit a trade, or is to create an account. -/
theorem cases_of_calling {config : TradingConfig} {b : Books} {x : Operation} {c : Call}
    {d : Deadline Operation} {resume : Except StoreError c.Result → Operation}
    (hx : x.Upright config b.store) (h : x.next = .calling c d resume) (now : Nat) :
    (c.isWrite = false ∧ (resume (c.perform b now).1).Upright config b.store ∧
      ∀ id, (resume (c.perform b now).1).committed id = x.committed id) ∨
    (∃ w price m version u, x = .execution w ∧ w.phase = .storing price m version u ∧
      c = .replaceUser w.user version u ∧ resume (c.perform b now).1 =
        .execution (w.stored price m (b.store.compareAndSet w.user version u).1)) ∨
    ∃ w time, x = .opening w ∧ w.IsOf config ∧ c = .createUser (w.account time) ∧
      ∃ w', resume (c.perform b now).1 = .opening w' ∧ w'.IsOf config := by
  cases x with
  | execution x =>
      rcases Progress.calling_of_map h with ⟨d', k, hk, hresume⟩
      rcases Execution.cases_of_asks (Execution.asks_of_next hk) b now with
        ⟨hwrite, huser, hcommitted, hbased⟩ | ⟨price, m, version, u, hphase, rfl, hstored⟩
      · refine Or.inl ⟨hwrite, ?_, fun id => ?_⟩
        · rw [hresume]
          exact hbased
        · simp only [hresume, committed, huser, hcommitted]
      · refine Or.inr (Or.inl ⟨x, price, m, version, u, rfl, hphase, rfl, ?_⟩)
        rw [hresume, hstored]
  | opening x =>
      rcases Progress.calling_of_map h with ⟨d', k, hk, hresume⟩
      rcases AccountOpening.cases_of_calling hx hk with ⟨hof, hwrite | ⟨time, rfl⟩⟩
      · refine Or.inl ⟨hwrite, ?_, fun id => ?_⟩
        · rw [hresume]
          exact hof _
        · rw [hresume]
          rfl
      · refine Or.inr (Or.inr ⟨x, time, rfl, hx, rfl, k _, hresume _, hof _⟩)
  -- A reading is upright in every state, and no state of it commits anything.
  | portfolio x =>
      rcases Progress.calling_of_map h with ⟨d', k, hk, hresume⟩
      refine Or.inl ⟨PortfolioReading.isWrite_of_next hk, ?_, fun id => ?_⟩
      · rw [hresume]
        exact trivial
      · rw [hresume]
        rfl
  | history x =>
      rcases Progress.calling_of_map h with ⟨d', k, hk, hresume⟩
      refine Or.inl ⟨HistoryReading.isWrite_of_next hk, ?_, fun id => ?_⟩
      · rw [hresume]
        exact trivial
      · rw [hresume]
        rfl
  | snapshots x =>
      rcases Progress.calling_of_map h with ⟨d', k, hk, hresume⟩
      refine Or.inl ⟨SnapshotReading.isWrite_of_next hk, ?_, fun id => ?_⟩
      · rw [hresume]
        exact trivial
      · rw [hresume]
        rfl
  | valuation x | userValuation x | job x => exact hx.elim

end Operation

end Bourse
