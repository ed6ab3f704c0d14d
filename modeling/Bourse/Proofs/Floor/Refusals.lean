import Bourse.Proofs.Floor.Visitor
import Bourse.Proofs.Ledger.Commits
import Bourse.Proofs.Portfolio.Uncovered

/-!
# Refused Trades

Whether a trade is covered is settled by the one call that reads the document, so whatever others do
before or after does not matter. If it is not, nothing has been written by then, and what the caller
hears is the verdict on the trade: that the request is bad, unless a number on the way was too long
for a decimal. Only where what was missing has been lost in rounding the trade goes on.

## Main definitions

* `Execution.Takes`: how a trade goes on after a verdict.
* `Floor.Overreaches`: a trade is about to read a document that does not cover it.

## Theorems

* `Execution.verdict_of_read`: a trade that has read a document which does not cover it.
* `Floor.uncovered_refused`: a trade that is not covered, on the floor.
-/

namespace Bourse

namespace Execution

variable {x : Execution} {price held : Amount} {m : Moment} {v : Versioned User}

/-- How a trade goes on after a verdict: it fails with the error, or is about to store a copy of the
document with the portfolio. -/
def Takes (x : Execution) (price : Amount) (m : Moment) (v : Versioned User)
    (r : Except TradeError Portfolio) (y : Execution) : Prop :=
  match r with
  | .error e => y = x.fail e
  | .ok p => ∃ u, y = x.enter (.storing price m v.version u) ∧ u.portfolio = p

/-- A trade that has read a document takes what becomes of the portfolio. -/
theorem takes_read (x : Execution) (price : Amount) (m : Moment) (v : Versioned User) :
    x.Takes price m v
      ((v.value.portfolio.applyTrade x.request.side x.request.symbol price x.quantity).mapError
        .ofPortfolio)
      (x.read price m (.ok (some v))) := by
  simp only [read, amend]
  cases v.value.portfolio.applyTrade x.request.side x.request.symbol price x.quantity with
  | error e => rfl
  | ok p => exact ⟨_, rfl, rfl⟩

/-- A trade that has read a document which does not cover it takes the verdict. -/
theorem verdict_of_read (hvalid : x.request.validate x.config.supportedSymbols = .ok x.quantity)
    (hprice : price.Sound) (hp : v.value.portfolio.Solvent)
    (hheld : v.value.portfolio.position? x.request.symbol = some held)
    (h : v.value.portfolio.Uncovered held x.request.side price x.quantity) :
    ∃ r, v.value.portfolio.Verdict held x.request.symbol price x.quantity x.request.side r ∧
      x.Takes price m v r (x.read price m (.ok (some v))) := by
  have hquantity :=
    TradeRequest.sound_of_checkQuantity (TradeRequest.checkQuantity_of_validate hvalid)
  exact ⟨_, Portfolio.verdict_applyTrade hp hheld hprice hquantity h, x.takes_read price m v⟩

end Execution

namespace Floor

variable {f : Floor} {n : Nat} {x : Execution} {price held : Amount}
  {m : Moment} {v : Versioned User}

/-- A trade with its price reads the document of its user, and nothing else changes. -/
theorem step?_of_reading (hx : f.visits[n]? = some ⟨.execution x, true⟩)
    (hphase : x.phase = .reading price m) (hv : f.books.store.user? x.user = some v)
    (config : TradingConfig) (now : Nat) :
    ∃ f', f.step? config (.call n now) = some f' ∧ f'.books = f.books ∧
      f'.visits = f.visits.set n ⟨.execution (x.read price m (.ok (some v))), true⟩ := by
  have hpresent : f.present? n = some (.execution x) := by
    rw [present?, hx]
  have hnext : (Operation.execution x).next = .calling (.readUser x.user)
      ((x.commitDeadline m).map (fun d => (d.1, .execution d.2)))
      (fun r => .execution (x.read price m r)) := by
    rw [Operation.next, Execution.next, hphase]
    rfl
  refine ⟨f.called n now (.execution x) (.readUser x.user) (fun r => .execution (x.read price m r)),
    ?_, rfl, ?_⟩
  · simp only [step?, hpresent, hnext]
  · simp only [called, Call.perform, hv]

/-- A trade that has passed the check and has a price is about to read a sound document that does
not cover it. -/
structure Overreaches (f : Floor) (n : Nat) (x : Execution) (price : Amount) (m : Moment)
    (v : Versioned User) (held : Amount) : Prop where
  visit : f.visits[n]? = some ⟨.execution x, true⟩
  phase : x.phase = .reading price m
  valid : x.request.validate x.config.supportedSymbols = .ok x.quantity
  price_sound : price.Sound
  stored : f.books.store.user? x.user = some v
  solvent : v.value.portfolio.Solvent
  held_eq : v.value.portfolio.position? x.request.symbol = some held
  uncovered : v.value.portfolio.Uncovered held x.request.side price x.quantity

/-- A trade that is not covered takes the verdict on it, and has changed nothing. Nothing passing
stands in its way, and below 79 billion it is the caller's error. -/
theorem uncovered_refused (h : f.Overreaches n x price m v held) (config : TradingConfig)
    (now : Nat) :
    ∃ f' y r, f.step? config (.call n now) = some f' ∧ f'.books = f.books ∧
      f'.visits[n]? = some ⟨.execution y, true⟩ ∧ x.Takes price m v r y ∧
      v.value.portfolio.Verdict held x.request.symbol price x.quantity x.request.side r ∧
      (∀ text, r ≠ .error (.unavailable text)) ∧
      (x.quantity.value * price.value < 79 * 10 ^ 9 → ∃ text, r = .error (.validation text)) := by
  have hquantity :=
    TradeRequest.sound_of_checkQuantity (TradeRequest.checkQuantity_of_validate h.valid)
  rcases step?_of_reading h.visit h.phase h.stored config now with
    ⟨f', hstep, hbooks, hvisits⟩
  rcases Execution.verdict_of_read (m := m) h.valid h.price_sound h.solvent h.held_eq
    h.uncovered with ⟨r, hverdict, htakes⟩
  refine ⟨f', _, r, hstep, hbooks, ?_, htakes, hverdict, hverdict.ne_unavailable,
    hverdict.eq_validation (mul_nonneg hquantity.value_nonneg h.price_sound.value_nonneg)⟩
  rw [hvisits]
  exact getElem?_set_visit h.visit _

/-- Somebody with some cash and an empty position is about to read the document for a trade. -/
def offered (side : Side) (cash price quantity : Amount) : Floor :=
  { books :=
      { store :=
          { users := Table.empty.insert "alice"
              ⟨7, .opened "alice" "Alice" "" ⟨0, 0⟩ (.seeded cash ["BTC"])⟩
            logs := .empty
            histories := .empty }
        histories := .empty 1000 }
    visits :=
      [⟨.execution ((Execution.start .standard 0 "alice" ⟨side, "BTC", some quantity⟩ false).enter
        (.reading price ⟨9, ⟨9, 0⟩⟩)), true⟩]
    journal := [] }

theorem overreaches_offered {side : Side} {cash price quantity : Amount}
    (hvalid : (⟨side, "BTC", some quantity⟩ : TradeRequest).validate
      TradingConfig.standard.supportedSymbols = .ok quantity)
    (hcash : cash.Sound) (hprice : price.Sound)
    (h : (Portfolio.seeded cash ["BTC"]).Uncovered .zero side price quantity) :
    (offered side cash price quantity).Overreaches 0
      ((Execution.start .standard 0 "alice" ⟨side, "BTC", some quantity⟩ false).enter
        (.reading price ⟨9, ⟨9, 0⟩⟩)) price ⟨9, ⟨9, 0⟩⟩
      ⟨7, .opened "alice" "Alice" "" ⟨0, 0⟩ (.seeded cash ["BTC"])⟩ .zero := by
  have hstart : Execution.start .standard 0 "alice" ⟨side, "BTC", some quantity⟩ false =
      { user := "alice", request := ⟨side, "BTC", some quantity⟩, quantity, config := .standard,
        prunes := false, phase := .pricing (0 + TradingConfig.standard.quoteDeadlineMs) } := by
    rw [Execution.start, hvalid]
  refine ⟨rfl, rfl, ?_, hprice, ?_, Portfolio.solvent_seeded hcash _, ?_, ?_⟩
  · rw [hstart]
    exact hvalid
  · rw [hstart]
    exact Table.get?_insert_self _ _ _
  · rw [hstart]
    exact (Portfolio.position?_seeded cash ["BTC"] "BTC").trans (if_pos (by decide))
  · rw [hstart]
    exact h

/-- Two are too dear for the cash, and one cannot be sold by who has none. -/
theorem uncovered_refused_moderate :
    (∃ f' y text, (offered .buy (.ofUnits 100000) (.ofUnits 60000) (.ofUnits 2)).step? .standard
        (.call 0 9) = some f' ∧
      f'.books = (offered .buy (.ofUnits 100000) (.ofUnits 60000) (.ofUnits 2)).books ∧
      f'.visits[0]? = some ⟨.execution y, true⟩ ∧
      y.phase = .finished (.error (.validation text))) ∧
    ∃ f' y text, (offered .sell (.ofUnits 100000) (.ofUnits 60000) (.ofUnits 1)).step? .standard
        (.call 0 9) = some f' ∧
      f'.books = (offered .sell (.ofUnits 100000) (.ofUnits 60000) (.ofUnits 1)).books ∧
      f'.visits[0]? = some ⟨.execution y, true⟩ ∧
      y.phase = .finished (.error (.validation text)) := by
  constructor
  · have h : (offered .buy (.ofUnits 100000) (.ofUnits 60000) (.ofUnits 2)).Overreaches 0
        _ _ _ _ _ :=
      overreaches_offered (by decide +kernel) (by decide) (by decide) (by decide +kernel)
    rcases uncovered_refused h .standard 9 with
      ⟨f', y, r, hstep, hbooks, hy, htakes, -, -, hmoderate⟩
    rcases hmoderate (by decide +kernel) with ⟨text, rfl⟩
    exact ⟨f', y, text, hstep, hbooks, hy, congrArg Execution.phase htakes⟩
  · have h : (offered .sell (.ofUnits 100000) (.ofUnits 60000) (.ofUnits 1)).Overreaches 0
        _ _ _ _ _ :=
      overreaches_offered (by decide +kernel) (by decide) (by decide) (by decide +kernel)
    rcases uncovered_refused h .standard 9 with
      ⟨f', y, r, hstep, hbooks, hy, htakes, -, -, hmoderate⟩
    rcases hmoderate (by decide +kernel) with ⟨text, rfl⟩
    exact ⟨f', y, text, hstep, hbooks, hy, congrArg Execution.phase htakes⟩

/-- A purchase whose cost is out of range, and a sale that would bring more than the cash has room
for, fail inside. A purchase that lacks seven units of the eighteenth digit goes through. -/
theorem uncovered_not_refused :
    (∃ x price m v held f' y,
      (offered .buy (.ofUnits 100000) (.ofUnits 300000000000000)
        (.ofUnits 3000000000000000)).Overreaches 0 x price m v held ∧
      (offered .buy (.ofUnits 100000) (.ofUnits 300000000000000)
        (.ofUnits 3000000000000000)).step? .standard (.call 0 9) = some f' ∧
      f'.visits[0]? = some ⟨.execution y, true⟩ ∧
      y.phase = .finished (.error (.internal AmountError.outOfRange.message))) ∧
    (∃ x price m v held f' y,
      (offered .sell (.ofUnits 100000000000000000) (.ofUnits 10000000000000000)
        (.ofUnits 7922816251426)).Overreaches 0 x price m v held ∧
      (offered .sell (.ofUnits 100000000000000000) (.ofUnits 10000000000000000)
        (.ofUnits 7922816251426)).step? .standard (.call 0 9) = some f' ∧
      f'.visits[0]? = some ⟨.execution y, true⟩ ∧
      y.phase = .finished (.error (.internal AmountError.outOfRange.message))) ∧
    ∃ x price m v held f' y o,
      (offered .buy ⟨1000000000000, 8000000⟩ ⟨1000000, 7⟩ ⟨1000000, 1⟩).Overreaches 0 x price m v
        held ∧
      (offered .buy ⟨1000000000000, 8000000⟩ ⟨1000000, 7⟩ ⟨1000000, 1⟩).run? .standard
        [.call 0 9, .call 0 9] = some f' ∧
      f'.visits[0]? = some ⟨.execution y, true⟩ ∧
      y.phase = .logging o ∧ o.portfolio.cash = .zero := by
  refine ⟨?_, ?_, ?_⟩
  · exact ⟨_, _, _, _, _, _, _, overreaches_offered (by decide +kernel) (by decide) (by decide)
      (by decide +kernel), rfl, rfl, rfl⟩
  · exact ⟨_, _, _, _, _, _, _, overreaches_offered (by decide +kernel) (by decide) (by decide)
      (by decide +kernel), rfl, rfl, rfl⟩
  · exact ⟨_, _, _, _, _, _, _, _, overreaches_offered (by decide +kernel) (by decide) (by decide)
      (by decide +kernel), rfl, rfl, rfl, by decide +kernel⟩

end Floor

end Bourse
