import Bourse.Portfolio.Basic
import Bourse.Proofs.Amount.Value
import Bourse.Proofs.Table

/-!
# What a Trade Does to a Portfolio

A trade either refuses or replaces two things: the cash and one position that was
there before. `Fill` holds everything such a trade has computed on the way, and
`fill_of_applyTrade` says that a trade which was not refused has computed it.
Nothing after this looks into `applyTrade` again.

Buying and selling are told together by a sign. Both of the balances that change
are checked before they become amounts again, and cutting digits off a value that
is not negative cannot make it so; hence a portfolio whose amounts are sound stays
one, whatever the price was.

## Main definitions

* `Side.sign`: what a side does to a position.
* `Portfolio.Solvent`: cash and positions are sound.
* `Portfolio.Fill`: a trade that was not refused.
* `Portfolio.replay`: the portfolio after some trades.

## Theorems

* `solvent_seeded`: a new account is sound if its cash is.
* `fill_of_applyTrade`: a trade that was not refused is a fill.
* `add?_gained`: what enters a position is added exactly.
* `Fill.value_newPosition`: the new position is exact.
* `solvent_applyTrade`: a trade keeps cash and positions sound.
* `mem_keys_applyTrade`: a trade keeps the symbols.
* `position?_applyTrade_of_ne`: a trade keeps the other positions.
-/

namespace Bourse

/-- A fold that may fail gets through when its first step does and the rest goes on from there. -/
theorem foldlM_cons_eq_ok {ε α β : Type} {f : β → α → Except ε β} {b r : β} {a : α} {l : List α} :
    (a :: l).foldlM f b = .ok r ↔ ∃ c, f b a = .ok c ∧ l.foldlM f c = .ok r := by
  rw [List.foldlM_cons]
  cases f b a with
  | error e =>
      constructor
      · intro h
        exact absurd h (by simp only [bind, Except.bind, reduceCtorEq, not_false_eq_true])
      · rintro ⟨c, hc, -⟩
        exact absurd hc (by simp only [reduceCtorEq, not_false_eq_true])
  | ok b' =>
      constructor
      · intro h
        exact ⟨b', rfl, h⟩
      · rintro ⟨c, hc, h⟩
        rw [← Except.ok.inj hc] at h
        exact h

namespace Side

/-- What a side does to a position: buying adds to it and selling takes from it. -/
def sign : Side → ℚ
  | .buy => 1
  | .sell => -1
  | .unspecified => 0

/-- A purchase directs cost and quantity as they are, a sale their opposites. -/
theorem cases_of_direct {side : Side} {cost quantity paid gained : Decimal}
    (h : side.direct cost quantity = some (paid, gained)) :
    (side = .buy ∧ paid = cost ∧ gained = quantity) ∨
      (side = .sell ∧ paid = -cost ∧ gained = -quantity) := by
  cases side with
  | unspecified => exact absurd h (by simp only [direct, reduceCtorEq, not_false_eq_true])
  | buy =>
      simp only [direct, Option.some.injEq, Prod.mk.injEq] at h
      exact Or.inl ⟨rfl, h.1.symm, h.2.symm⟩
  | sell =>
      simp only [direct, Option.some.injEq, Prod.mk.injEq] at h
      exact Or.inr ⟨rfl, h.1.symm, h.2.symm⟩

theorem value_of_direct {side : Side} {cost quantity paid gained : Decimal}
    (h : side.direct cost quantity = some (paid, gained)) :
    paid.value = side.sign * cost.value ∧ gained.value = side.sign * quantity.value := by
  rcases cases_of_direct h with ⟨rfl, rfl, rfl⟩ | ⟨rfl, rfl, rfl⟩
  · rw [sign, one_mul, one_mul]
    exact ⟨rfl, rfl⟩
  · rw [sign, neg_one_mul, neg_one_mul]
    exact ⟨Decimal.value_neg cost, Decimal.value_neg quantity⟩

theorem scale_of_direct {side : Side} {cost quantity paid gained : Decimal}
    (h : side.direct cost quantity = some (paid, gained)) :
    paid.scale = cost.scale ∧ gained.scale = quantity.scale := by
  rcases cases_of_direct h with ⟨-, rfl, rfl⟩ | ⟨-, rfl, rfl⟩
  · exact ⟨rfl, rfl⟩
  · exact ⟨rfl, rfl⟩

/-- A sign changes no distance from zero, except that no side leaves none. -/
theorem abs_sign_mul_le (side : Side) (v : ℚ) : |side.sign * v| ≤ |v| := by
  cases side with
  | unspecified => rw [sign, zero_mul, abs_zero]; exact abs_nonneg v
  | buy => rw [sign, one_mul]
  | sell => rw [sign, neg_one_mul, abs_neg]

end Side

namespace Portfolio

/-- Cash and every position are sound amounts. -/
structure Solvent (p : Portfolio) : Prop where
  cash : p.cash.Sound
  positions : ∀ symbol a, p.position? symbol = some a → a.Sound

/-- A trade that was not refused, with all that it has computed on the way. -/
structure Fill (p : Portfolio) (side : Side) (symbol : String) (price quantity : Amount)
    (p' : Portfolio) where
  /-- The position before the trade. -/
  held : Amount
  cost : Decimal
  /-- The cost with its sign: what leaves the cash. -/
  paid : Decimal
  /-- The quantity with its sign: what enters the position. -/
  gained : Decimal
  /-- The cash after the trade, before digits are cut off. -/
  cash : Decimal
  /-- The position after the trade, before digits are cut off. -/
  position : Decimal
  newCash : Amount
  newPosition : Amount
  held_eq : p.position? symbol = some held
  cost_eq : quantity.toDecimal.mul? price.toDecimal = some cost
  direct_eq : side.direct cost quantity.toDecimal = some (paid, gained)
  cash_eq : p.cash.toDecimal.sub? paid = some cash
  position_eq : held.toDecimal.add? gained = some position
  cash_nonneg : 0 ≤ cash.value
  position_nonneg : 0 ≤ position.value
  newCash_eq : Amount.ofDecimal cash = .ok newCash
  newPosition_eq : Amount.ofDecimal position = .ok newPosition
  result_eq : p' = ⟨newCash, p.positions.insert symbol newPosition⟩

/-- The two balances of a settled trade are at least zero and become its new amounts. -/
theorem settle_eq_ok {p p' : Portfolio} {symbol : String} {current cash position : Decimal}
    (h : p.settle symbol current cash position = .ok p') :
    0 ≤ cash.value ∧ 0 ≤ position.value ∧ ∃ c n, Amount.ofDecimal cash = .ok c ∧
      Amount.ofDecimal position = .ok n ∧ p' = ⟨c, p.positions.insert symbol n⟩ := by
  unfold settle at h
  split_ifs at h with hcash hposition
  rw [Decimal.isNegative_iff, not_lt] at hcash hposition
  refine ⟨hcash, hposition, ?_⟩
  split at h
  · next c n hc hn => exact ⟨c, n, hc, hn, (Except.ok.inj h).symm⟩
  · exact absurd h (by simp only [reduceCtorEq, not_false_eq_true])
  · exact absurd h (by simp only [reduceCtorEq, not_false_eq_true])

theorem fill_of_applyTrade {p p' : Portfolio} {side : Side} {symbol : String}
    {price quantity : Amount} (h : p.applyTrade side symbol price quantity = .ok p') :
    Nonempty (Fill p side symbol price quantity p') := by
  -- Every test that does not refuse the trade leaves one value for the fill.
  unfold applyTrade at h
  split at h
  · exact absurd h (by simp only [reduceCtorEq, not_false_eq_true])
  next held hheld =>
  split at h
  · exact absurd h (by simp only [reduceCtorEq, not_false_eq_true])
  next cost hcost =>
  split at h
  · exact absurd h (by simp only [reduceCtorEq, not_false_eq_true])
  next paid gained hdirect =>
  split at h
  · next cash position hcash hposition =>
    rcases settle_eq_ok h with ⟨hc, hn, newCash, newPosition, hnewCash, hnewPosition, hresult⟩
    exact ⟨⟨held, cost, paid, gained, cash, position, newCash, newPosition, hheld, hcost, hdirect,
      hcash, hposition, hc, hn, hnewCash, hnewPosition, hresult⟩⟩
  · exact absurd h (by simp only [reduceCtorEq, not_false_eq_true])

theorem position?_seeded (cash : Amount) (symbols : List String) (s : String) :
    (seeded cash symbols).position? s = if s ∈ symbols then some .zero else none :=
  Table.get?_ofList_const Amount.zero symbols s

/-- The symbols of a new account are those it was seeded with. -/
theorem mem_keys_seeded {cash : Amount} {symbols : List String} {s : String} :
    s ∈ (seeded cash symbols).positions.keys ↔ s ∈ symbols := by
  rw [Table.mem_keys_iff, ← position?, position?_seeded]
  split_ifs with hs
  · exact ⟨fun _ => hs, fun _ => rfl⟩
  · exact ⟨fun h => absurd h (by decide), fun h => absurd h hs⟩

theorem solvent_seeded {cash : Amount} (h : cash.Sound) (symbols : List String) :
    (seeded cash symbols).Solvent := by
  refine ⟨h, fun s a ha => ?_⟩
  rw [position?_seeded] at ha
  split_ifs at ha
  rw [← Option.some.inj ha]
  exact Amount.sound_zero

section Fill

variable {p p' : Portfolio} {side : Side} {symbol : String} {price quantity : Amount}

/-- A position and what enters it have an exact sum. -/
theorem add?_gained {cost paid gained : Decimal} (held : Amount)
    (h : side.direct cost quantity.toDecimal = some (paid, gained)) :
    ∃ sum, held.toDecimal.add? gained = some sum ∧
      sum.value = held.value + side.sign * quantity.value ∧ sum.scale ≤ 9 := by
  have hgained : gained.value = side.sign * quantity.value := by
    rw [(Side.value_of_direct h).2, Amount.value_toDecimal]
  have hscale : gained.scale ≤ 9 := by
    rw [(Side.scale_of_direct h).2]
    exact Amount.scale_toDecimal_le quantity
  have hreach : |gained.value| < 2 ^ 64 := by
    rw [hgained]
    exact (Side.abs_sign_mul_le side _).trans_lt (Amount.abs_value_lt quantity)
  have hheld : |held.toDecimal.value| < 2 ^ 64 := by
    rw [Amount.value_toDecimal]
    exact Amount.abs_value_lt held
  -- Nine digits on both sides, and neither further out than an amount can be.
  rcases Amount.add?_of_scale_le (Amount.scale_toDecimal_le held) hscale hheld hreach with
    ⟨sum, hsum, hvalue, hsumScale⟩
  exact ⟨sum, hsum, by rw [hvalue, hgained, Amount.value_toDecimal], hsumScale⟩

/-- The change of a position is exact, and so is the position after it. -/
theorem Fill.value_newPosition (f : Fill p side symbol price quantity p') :
    f.newPosition.value = f.held.value + side.sign * quantity.value := by
  rcases add?_gained f.held f.direct_eq with ⟨sum, hsum, hvalue, hscale⟩
  have hposition : f.position = sum := Option.some.inj (f.position_eq.symm.trans hsum)
  rw [Amount.value_of_ofDecimal f.newPosition_eq f.position_nonneg (hposition ▸ hscale),
    hposition, hvalue]

theorem Fill.cash_result (f : Fill p side symbol price quantity p') : p'.cash = f.newCash :=
  congrArg Portfolio.cash f.result_eq

theorem Fill.position?_result (f : Fill p side symbol price quantity p') :
    p'.position? symbol = some f.newPosition :=
  (congrArg (fun p => p.position? symbol) f.result_eq).trans (Table.get?_insert_self _ _ _)

/-- The cash after a trade is sound. -/
theorem Fill.sound_newCash (f : Fill p side symbol price quantity p') : f.newCash.Sound :=
  (Amount.sound_of_ofDecimal f.newCash_eq f.cash_nonneg).1

theorem Fill.sound_newPosition (f : Fill p side symbol price quantity p') :
    f.newPosition.Sound :=
  (Amount.sound_of_ofDecimal f.newPosition_eq f.position_nonneg).1

theorem solvent_applyTrade (h : p.applyTrade side symbol price quantity = .ok p')
    (hp : p.Solvent) : p'.Solvent := by
  rcases fill_of_applyTrade h with ⟨f⟩
  rw [f.result_eq]
  refine ⟨f.sound_newCash, fun s a ha => ?_⟩
  rw [position?, Table.get?_insert_eq] at ha
  split_ifs at ha with hs
  · rw [← Option.some.inj ha]
    exact f.sound_newPosition
  · exact hp.positions s a ha

theorem position?_applyTrade_of_ne (h : p.applyTrade side symbol price quantity = .ok p')
    {s : String} (hs : s ≠ symbol) : p'.position? s = p.position? s := by
  rcases fill_of_applyTrade h with ⟨f⟩
  rw [f.result_eq]
  exact Table.get?_insert_of_ne _ _ hs

/-- Only what had a position before can be traded, so no symbol comes or goes. -/
theorem mem_keys_applyTrade (h : p.applyTrade side symbol price quantity = .ok p')
    {s : String} : s ∈ p'.positions.keys ↔ s ∈ p.positions.keys := by
  rcases fill_of_applyTrade h with ⟨f⟩
  rw [f.result_eq, Table.mem_keys_insert]
  constructor
  · rintro (rfl | hs)
    · rw [Table.mem_keys_iff, ← position?, f.held_eq]
      rfl
    · exact hs
  · exact Or.inr

end Fill

/-- The portfolio after some trades, oldest first, of which none was refused. -/
def replay (p : Portfolio) (trades : List TradeRecord) : Except PortfolioError Portfolio :=
  trades.foldlM (fun p t => p.applyTrade t.side t.symbol t.price t.size) p

@[simp] theorem replay_nil (p : Portfolio) : p.replay [] = .ok p := rfl

theorem replay_cons_eq_ok {p p' : Portfolio} {t : TradeRecord} {trades : List TradeRecord} :
    p.replay (t :: trades) = .ok p' ↔
      ∃ q, p.applyTrade t.side t.symbol t.price t.size = .ok q ∧ q.replay trades = .ok p' :=
  foldlM_cons_eq_ok

end Portfolio

end Bourse
