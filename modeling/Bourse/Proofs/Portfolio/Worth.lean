import Bourse.Proofs.Portfolio.Trade
import Mathlib.Algebra.Order.BigOperators.Group.List

/-!
# No Trade Creates Value

What a portfolio is worth at given prices, and what trading at those very prices
does to it: nothing, except that a fraction of a nano may be lost each time.

Two algorithms meet here. A trade multiplies quantity by price, takes the product
from the cash and cuts the rest off at nine digits; a valuation multiplies every
position by its price, adds everything up and cuts once. Both would round if the
numbers were long enough, and a rounding up in either could be repeated at will by
whoever trades. Below a worth of 79 billion neither ever does. The product of two
amounts has eighteen fractional digits, and 79 billion with eighteen digits is
still a coefficient of 96 bits, so every product and every sum on the way is exact
and what is left is the one cut at the end, which is downward.

The bound cannot be read off the trade alone. A purchase whose cost does have to
be rounded is refused, since its cost exceeds any cash within the bound by far; a
sale cannot cost more than the position it sells was worth.

## Main definitions

* `SoundQuotes`: prices that are sound amounts.
* `Portfolio.worth`: the exact value of a portfolio at given prices.
* `Portfolio.Marked`: a position has been added to a total at a price.
* `Portfolio.valuationInOrder`: the valuation with the positions in another order.
* `TradeRecord.IsAt`: a trade of a valid, positive size at the price quoted.

## Theorems

* `mark_cons_of_none`, `mark_cons_of_some`: what one position does to a total.
* `mark_exact`: adding up positions of moderate worth does not round.
* `valuationInOrder_eq_floor`, `valuation_eq_floor`: a valuation is the worth cut off at nine
  digits.
* `sub?_paid`: a moderate cost is taken from the cash exactly.
* `Fill.value_cash`: a trade of moderate cost does not round.
* `worth_applyTrade`: one trade loses less than a nano and gains nothing.
* `valuation_replay_le`: any number of trades lose at most a nano each.
-/

namespace Bourse

/-- Prices that are sound amounts. -/
def SoundQuotes (quotes : Table String Amount) : Prop :=
  ∀ symbol price, quotes.get? symbol = some price → price.Sound

/-- A value of at most eighteen digits below 79 billion has room in 96 bits. -/
theorem room_of_lt {v : ℚ} {s : Nat} (h : |v| < 79228162514) (hs : s ≤ 18) :
    |v| * 10 ^ s < 2 ^ 96 := by
  have hpow : (10 : ℚ) ^ s ≤ 10 ^ 18 := pow_le_pow_right₀ (by norm_num) hs
  calc |v| * 10 ^ s ≤ |v| * 10 ^ 18 := mul_le_mul_of_nonneg_left hpow (abs_nonneg v)
    _ < 79228162514 * 10 ^ 18 := mul_lt_mul_of_pos_right h (by positivity)
    _ < 2 ^ 96 := by norm_num

namespace Portfolio

/-- What one position is worth; without a price, nothing. -/
def positionWorth (quotes : Table String Amount) (e : String × Amount) : ℚ :=
  match quotes.get? e.1 with
  | some price => e.2.value * price.value
  | none => 0

/-- The exact value of a portfolio at given prices. -/
def worth (p : Portfolio) (quotes : Table String Amount) : ℚ :=
  p.cash.value + (p.positions.entries.map (positionWorth quotes)).sum

theorem positionWorth_of_none {quotes : Table String Amount} {e : String × Amount}
    (h : quotes.get? e.1 = none) : positionWorth quotes e = 0 := by
  rw [positionWorth, h]

theorem positionWorth_of_some {quotes : Table String Amount} {e : String × Amount} {price : Amount}
    (h : quotes.get? e.1 = some price) : positionWorth quotes e = e.2.value * price.value := by
  rw [positionWorth, h]

theorem positionWorth_nonneg {quotes : Table String Amount} (hq : SoundQuotes quotes)
    {e : String × Amount} (he : e.2.Sound) : 0 ≤ positionWorth quotes e := by
  unfold positionWorth
  split
  · next price hprice =>
    exact mul_nonneg he.value_nonneg (hq e.1 price hprice).value_nonneg
  · exact le_refl 0

theorem sum_positionWorth_nonneg {quotes : Table String Amount} (hq : SoundQuotes quotes)
    {l : List (String × Amount)} (hl : ∀ e ∈ l, e.2.Sound) :
    0 ≤ (l.map (positionWorth quotes)).sum := by
  refine List.sum_nonneg (fun w hw => ?_)
  rcases List.mem_map.1 hw with ⟨e, he, rfl⟩
  exact positionWorth_nonneg hq (hl e he)

/-! ## Valuations -/

/-- The product of two amounts of moderate worth is exact. -/
theorem mul?_toDecimal {a b : Amount} (h : |a.value * b.value| < 79228162514) :
    ∃ d, a.toDecimal.mul? b.toDecimal = some d ∧ d.value = a.value * b.value ∧ d.scale ≤ 18 := by
  have hscale : a.toDecimal.scale + b.toDecimal.scale ≤ 18 :=
    Nat.add_le_add a.scale_toDecimal_le b.scale_toDecimal_le
  rw [← a.value_toDecimal, ← b.value_toDecimal] at h ⊢
  rcases Decimal.mul?_exact (by omega) (room_of_lt h hscale) with ⟨d, hd, hv, hs⟩
  exact ⟨d, hd, hv, hs.trans hscale⟩

/-- A position has been added to a total at a price. -/
def Marked (size price : Amount) (total next : Decimal) : Prop :=
  ∃ product, size.toDecimal.mul? price.toDecimal = some product ∧ total.add? product = some next

/-- A position without a price leaves the total as it is. -/
theorem mark_cons_of_none {quotes : Table String Amount} {e : String × Amount}
    {rest : List (String × Amount)} {total : Decimal} (h : quotes.get? e.1 = none) :
    mark quotes total (e :: rest) = mark quotes total rest := by
  rw [mark, h]

/-- A position with a price is added to the total. -/
theorem mark_cons_of_some {quotes : Table String Amount} {e : String × Amount}
    {rest : List (String × Amount)} {price : Amount} {total d : Decimal}
    (h : quotes.get? e.1 = some price) :
    mark quotes total (e :: rest) = some d ↔
      ∃ next, Marked e.2 price total next ∧ mark quotes next rest = some d := by
  rw [mark]
  simp only [h]
  constructor
  · intro hmark
    split at hmark
    · exact absurd hmark (by simp only [reduceCtorEq, not_false_eq_true])
    · next product hproduct =>
      split at hmark
      · exact absurd hmark (by simp only [reduceCtorEq, not_false_eq_true])
      · next next hnext => exact ⟨next, ⟨product, hproduct, hnext⟩, hmark⟩
  · rintro ⟨next, ⟨product, hproduct, hnext⟩, hmark⟩
    simp only [hproduct, hnext]
    exact hmark

/-- Adding up positions of moderate worth does not round. -/
theorem mark_exact {quotes : Table String Amount} (hq : SoundQuotes quotes)
    {l : List (String × Amount)} (hl : ∀ e ∈ l, e.2.Sound) {total : Decimal}
    (ht : 0 ≤ total.value) (hscale : total.scale ≤ 18)
    (hroom : total.value + (l.map (positionWorth quotes)).sum < 79 * 10 ^ 9) :
    ∃ d, mark quotes total l = some d ∧
      d.value = total.value + (l.map (positionWorth quotes)).sum := by
  -- What the rest is worth is not negative, so no total on the way exceeds the last.
  induction l generalizing total with
  | nil =>
      refine ⟨total, rfl, ?_⟩
      rw [List.map_nil, List.sum_nil, add_zero]
  | cons e rest ih =>
      have hrest : ∀ e' ∈ rest, e'.2.Sound := fun e' he' => hl e' (List.mem_cons_of_mem e he')
      have hsum := sum_positionWorth_nonneg hq hrest
      have hfirst := positionWorth_nonneg hq (hl e List.mem_cons_self)
      rw [List.map_cons, List.sum_cons, ← add_assoc] at hroom ⊢
      cases hprice : quotes.get? e.1 with
      | none =>
          rw [positionWorth_of_none hprice, add_zero] at hroom ⊢
          rw [mark_cons_of_none hprice]
          exact ih hrest ht hscale hroom
      | some price =>
          rw [positionWorth_of_some hprice] at hroom hfirst ⊢
          -- Product and new total are both within the bound, so neither is rounded.
          rcases mul?_toDecimal (a := e.2) (b := price) (by
              rw [abs_of_nonneg hfirst]
              linarith) with ⟨worth, hmul, hworthValue, hworthScale⟩
          rcases Decimal.add?_exact (a := total) (b := worth) (room_of_lt (by
              rw [hworthValue, abs_of_nonneg (by linarith)]
              linarith) (max_le hscale hworthScale)) with ⟨next, hadd, hnextValue, hnextScale⟩
          rw [← hworthValue, ← hnextValue] at hroom ⊢
          have hnext : 0 ≤ next.value := by
            rw [hnextValue, hworthValue]
            linarith
          rcases ih hrest hnext (hnextScale.trans (max_le hscale hworthScale)) hroom with
            ⟨d, hd, hvalue⟩
          exact ⟨d, (mark_cons_of_some hprice).2 ⟨next, ⟨worth, hmul, hadd⟩, hd⟩, hvalue⟩

/-- The entries of a solvent portfolio are sound. -/
theorem Solvent.entries {p : Portfolio} (hp : p.Solvent) :
    ∀ e ∈ p.positions.entries, e.2.Sound :=
  fun e he => hp.positions e.1 e.2 (Table.mem_entries_iff.1 he)

theorem worth_nonneg {p : Portfolio} (hp : p.Solvent) {quotes : Table String Amount}
    (hq : SoundQuotes quotes) : 0 ≤ p.worth quotes :=
  add_nonneg hp.cash.value_nonneg (sum_positionWorth_nonneg hq hp.entries)

/-- The valuation of a portfolio whose positions are added up in the order given. -/
def valuationInOrder (p : Portfolio) (quotes : Table String Amount) (l : List (String × Amount)) :
    Except AmountError Amount :=
  Amount.ofResult (mark quotes p.cash.toDecimal l)

theorem valuationInOrder_entries (p : Portfolio) (quotes : Table String Amount) :
    p.valuationInOrder quotes p.positions.entries = p.valuation quotes := rfl

/-- Cash and positions, in whatever order, add up to the worth. -/
theorem worth_perm {p : Portfolio} {l : List (String × Amount)} (hl : l.Perm p.positions.entries)
    (quotes : Table String Amount) :
    p.cash.value + (l.map (positionWorth quotes)).sum = p.worth quotes := by
  rw [worth, (hl.map (positionWorth quotes)).sum_eq]

/-- In whatever order the positions are added up, a valuation is the worth cut off at nine
digits. -/
theorem valuationInOrder_eq_floor {p : Portfolio} (hp : p.Solvent) {quotes : Table String Amount}
    (hq : SoundQuotes quotes) (hroom : p.worth quotes < 79 * 10 ^ 9) {l : List (String × Amount)}
    (hl : l.Perm p.positions.entries) :
    ∃ v, p.valuationInOrder quotes l = .ok v ∧ v.Sound ∧
      v.inNanos = ⌊p.worth quotes * 10 ^ 9⌋ := by
  have hcash : 0 ≤ p.cash.toDecimal.value := by
    rw [Amount.value_toDecimal]
    exact hp.cash.value_nonneg
  rcases mark_exact hq (fun e he => hp.entries e (hl.mem_iff.1 he)) hcash
    ((Amount.scale_toDecimal_le p.cash).trans (by decide))
    (by rw [Amount.value_toDecimal, worth_perm hl]; exact hroom) with ⟨d, hd, hvalue⟩
  have hworth : d.value = p.worth quotes := by
    rw [hvalue, Amount.value_toDecimal, worth_perm hl]
  have hnonneg : 0 ≤ d.value := by
    rw [hworth]
    exact worth_nonneg hp hq
  rcases Amount.ofDecimal_of_nonneg hnonneg (by
    rw [hworth]
    exact hroom.trans (by norm_num)) with ⟨v, hv, hsound, hn⟩
  refine ⟨v, ?_, hsound, by rw [hn, hworth]⟩
  rw [valuationInOrder, hd]
  exact hv

/-- A valuation is the worth cut off at nine digits. -/
theorem valuation_eq_floor {p : Portfolio} (hp : p.Solvent) {quotes : Table String Amount}
    (hq : SoundQuotes quotes) (hroom : p.worth quotes < 79 * 10 ^ 9) :
    ∃ v, p.valuation quotes = .ok v ∧ v.inNanos = ⌊p.worth quotes * 10 ^ 9⌋ := by
  rcases valuationInOrder_eq_floor hp hq hroom (.refl _) with ⟨v, hv, -, hn⟩
  rw [valuationInOrder_entries] at hv
  exact ⟨v, hv, hn⟩

/-! ## Trades -/

section Fill

variable {p p' : Portfolio} {side : Side} {symbol : String} {price quantity : Amount}

/-- Cash and a moderate cost that leaves it have an exact difference, if that is moderate too. -/
theorem sub?_paid (cash : Amount) {cost paid gained size : Decimal}
    (h : side.direct cost size = some (paid, gained)) (hscale : cost.scale ≤ 18)
    (hcash : |cash.value - side.sign * cost.value| < 79228162514) :
    ∃ rest, cash.toDecimal.sub? paid = some rest ∧
      rest.value = cash.value - side.sign * cost.value := by
  have hpaid := (Side.value_of_direct h).1
  have hpaidScale : paid.scale ≤ 18 := by
    rw [(Side.scale_of_direct h).1]
    exact hscale
  rcases Decimal.sub?_exact (a := cash.toDecimal) (b := paid) (room_of_lt (by
      rw [Amount.value_toDecimal, hpaid]
      exact hcash) (max_le ((Amount.scale_toDecimal_le cash).trans (by decide)) hpaidScale)) with
    ⟨rest, hsub, hvalue, -⟩
  exact ⟨rest, hsub, by rw [hvalue, Amount.value_toDecimal, hpaid]⟩

/-- A trade whose cost and whose cash after it are moderate does not round. -/
theorem Fill.value_cash (f : Fill p side symbol price quantity p')
    (hcost : |quantity.value * price.value| < 79228162514)
    (hcash : |p.cash.value - side.sign * (quantity.value * price.value)| < 79228162514) :
    f.cash.value = p.cash.value - side.sign * (quantity.value * price.value) := by
  rcases mul?_toDecimal hcost with ⟨cost, hmul, hvalue, hscale⟩
  rw [f.cost_eq, Option.some.injEq] at hmul
  rw [← hmul] at hvalue hscale
  rw [← hvalue] at hcash ⊢
  rcases sub?_paid p.cash f.direct_eq hscale hcash with ⟨rest, hsub, hrest⟩
  rw [f.cash_eq, Option.some.injEq] at hsub
  rw [hsub, hrest]

/-- A purchase that was not refused costs no more than the decimals can hold exactly: one whose
cost had to be rounded would have left the cash far below zero. -/
theorem Fill.cost_lt_of_buy (f : Fill p .buy symbol price quantity p')
    (hcash : p.cash.value < 79 * 10 ^ 9) : quantity.value * price.value < 79228162514 := by
  by_contra hlong
  rw [not_lt] at hlong
  -- Rounding moves the cost and the rest by at most a half each, far less than is missing.
  have hcost := abs_le.1 (Decimal.mul?_close f.cost_eq)
  have hrest := abs_le.1 (Decimal.sub?_close f.cash_eq)
  have hpaid := (Side.value_of_direct f.direct_eq).1
  rw [Amount.value_toDecimal, Amount.value_toDecimal] at hcost
  rw [Amount.value_toDecimal, hpaid, Side.sign, one_mul] at hrest
  have hnonneg := f.cash_nonneg
  linarith

/-- Cash and any one position together are worth no more than the portfolio. -/
theorem cash_add_held_le_worth (hp : p.Solvent) {quotes : Table String Amount}
    (hq : SoundQuotes quotes) {held : Amount} (hheld : p.position? symbol = some held)
    (hprice : quotes.get? symbol = some price) :
    p.cash.value + held.value * price.value ≤ p.worth quotes := by
  have hmem : held.value * price.value ∈ p.positions.entries.map (positionWorth quotes) := by
    exact List.mem_map.2
      ⟨(symbol, held), Table.mem_entries_iff.2 hheld, positionWorth_of_some hprice⟩
  have hle := List.single_le_sum (fun w hw => by
    rcases List.mem_map.1 hw with ⟨e, he, rfl⟩
    exact positionWorth_nonneg hq (hp.entries e he)) _ hmem
  rw [worth]
  linarith

/-- Below 79 billion the cash after a trade at the price quoted is exact until it is cut off. -/
theorem Fill.value_cash_of_worth (f : Fill p side symbol price quantity p') (hp : p.Solvent)
    {quotes : Table String Amount} (hq : SoundQuotes quotes)
    (hprice : quotes.get? symbol = some price) (hsize : 0 < quantity.value)
    (hroom : p.worth quotes < 79 * 10 ^ 9) :
    f.cash.value = p.cash.value - side.sign * (quantity.value * price.value) := by
  have hcash := hp.cash.value_nonneg
  have hpriceNonneg := (hq symbol price hprice).value_nonneg
  have hcost : 0 ≤ quantity.value * price.value := mul_nonneg hsize.le hpriceNonneg
  have hheld := cash_add_held_le_worth hp hq f.held_eq hprice
  have hheldNonneg : 0 ≤ f.held.value * price.value :=
    mul_nonneg (hp.positions symbol f.held f.held_eq).value_nonneg hpriceNonneg
  rcases Side.cases_of_direct f.direct_eq with ⟨rfl, -, -⟩ | ⟨rfl, -, -⟩
  · have hlt := f.cost_lt_of_buy (by linarith)
    refine f.value_cash ?_ ?_
    · rw [abs_of_nonneg hcost]
      exact hlt
    · rw [Side.sign, one_mul, abs_lt]
      constructor <;> linarith
  · -- A sale takes from the position what it sells, so that was worth at least the proceeds.
    have hposition := f.value_newPosition
    have hnewPosition := f.sound_newPosition.value_nonneg
    rw [Side.sign, neg_one_mul] at hposition
    have hle : quantity.value * price.value ≤ f.held.value * price.value :=
      mul_le_mul_of_nonneg_right (by linarith) hpriceNonneg
    refine f.value_cash ?_ ?_
    · rw [abs_of_nonneg hcost]
      linarith
    · rw [Side.sign, neg_one_mul, sub_neg_eq_add, abs_of_nonneg (by linarith)]
      linarith

/-- The worth after a trade: the positions are moved by just the cost, whatever became of the
cash. -/
theorem Fill.worth_result (f : Fill p side symbol price quantity p')
    {quotes : Table String Amount} (hprice : quotes.get? symbol = some price) :
    p'.worth quotes = f.newCash.value - p.cash.value + p.worth quotes +
      side.sign * (quantity.value * price.value) := by
  -- Of the sum only the entry of the symbol traded has changed.
  have hsum := Table.sum_insert (positionWorth quotes) f.newPosition f.held_eq
  have hold : positionWorth quotes (symbol, f.held) = f.held.value * price.value :=
    positionWorth_of_some hprice
  have hnew : positionWorth quotes (symbol, f.newPosition) = f.newPosition.value * price.value :=
    positionWorth_of_some hprice
  have hresult : p'.worth quotes =
      f.newCash.value + ((p.positions.insert symbol f.newPosition).entries.map
        (positionWorth quotes)).sum := congrArg (fun p => p.worth quotes) f.result_eq
  rw [hresult, worth, hsum, hold, hnew, f.value_newPosition]
  ring

/-- One trade at the price quoted loses less than a nano and gains nothing. -/
theorem worth_applyTrade (h : p.applyTrade side symbol price quantity = .ok p') (hp : p.Solvent)
    {quotes : Table String Amount} (hq : SoundQuotes quotes)
    (hprice : quotes.get? symbol = some price) (hsize : 0 < quantity.value)
    (hroom : p.worth quotes < 79 * 10 ^ 9) :
    p'.worth quotes ≤ p.worth quotes ∧ p.worth quotes - 1 / 10 ^ 9 < p'.worth quotes := by
  rcases fill_of_applyTrade h with ⟨f⟩
  have hcash := f.value_cash_of_worth hp hq hprice hsize hroom
  have hcut := (Amount.sound_of_ofDecimal f.newCash_eq f.cash_nonneg).2
  have hlow := Int.floor_le (f.cash.value * 10 ^ 9)
  have hhigh := Int.lt_floor_add_one (f.cash.value * 10 ^ 9)
  have hnew : f.newCash.value * 10 ^ 9 = ⌊f.cash.value * 10 ^ 9⌋ := by
    rw [Amount.value, hcut, div_mul_cancel₀ _ (by norm_num)]
  -- Cost and gain cancel, and what is lost is what the cut takes off the cash.
  rw [f.worth_result hprice]
  constructor <;> linarith

end Fill

end Portfolio

/-- A trade of a valid, positive size at the price quoted for its symbol. -/
structure TradeRecord.IsAt (quotes : Table String Amount) (t : TradeRecord) : Prop where
  price : quotes.get? t.symbol = some t.price
  valid : t.size.isValid = true
  positive : 0 < t.size.value

namespace Portfolio

/-- Trades at the prices quoted lose less than a nano each and gain nothing. -/
theorem worth_replay {quotes : Table String Amount} (hq : SoundQuotes quotes)
    {trades : List TradeRecord} (ht : ∀ t ∈ trades, t.IsAt quotes) {p p' : Portfolio}
    (hp : p.Solvent) (hroom : p.worth quotes < 79 * 10 ^ 9) (h : p.replay trades = .ok p') :
    p'.Solvent ∧ p'.worth quotes ≤ p.worth quotes ∧
      p.worth quotes - trades.length / 10 ^ 9 ≤ p'.worth quotes := by
  -- The worth never rises, so the bound on it holds before every trade.
  induction trades generalizing p with
  | nil =>
      rw [replay_nil, Except.ok.injEq] at h
      rw [← h, List.length_nil]
      refine ⟨hp, le_refl _, ?_⟩
      norm_num
  | cons t rest ih =>
      rcases replay_cons_eq_ok.1 h with ⟨q, hfirst, hrest⟩
      have hat := ht t List.mem_cons_self
      rcases worth_applyTrade hfirst hp hq hat.price hat.positive hroom with ⟨hle, hlt⟩
      rcases ih (fun t' ht' => ht t' (List.mem_cons_of_mem t ht'))
        (solvent_applyTrade hfirst hp) (hle.trans_lt hroom) hrest with ⟨hsolvent, hle', hge'⟩
      refine ⟨hsolvent, hle'.trans hle, ?_⟩
      rw [List.length_cons]
      push_cast
      linarith

/-- No run of trades at fixed prices creates value, and each trade loses at most one nano: the
valuation after the run lies between the one before and that less a nano for each trade. -/
theorem valuation_replay_le {p p' : Portfolio} {quotes : Table String Amount}
    {trades : List TradeRecord} (hp : p.Solvent) (hq : SoundQuotes quotes)
    (ht : ∀ t ∈ trades, t.IsAt quotes) (h : p.replay trades = .ok p')
    (hroom : p.worth quotes < 79 * 10 ^ 9) :
    ∃ v v', p.valuation quotes = .ok v ∧ p'.valuation quotes = .ok v' ∧
      v'.value ≤ v.value ∧ v.value - trades.length / 10 ^ 9 ≤ v'.value := by
  rcases worth_replay hq ht hp hroom h with ⟨hp', hle, hge⟩
  rcases valuation_eq_floor hp hq hroom with ⟨v, hv, hn⟩
  rcases valuation_eq_floor hp' hq (hle.trans_lt hroom) with ⟨v', hv', hn'⟩
  refine ⟨v, v', hv, hv', ?_, ?_⟩
  · have hfloor : v'.inNanos ≤ v.inNanos := by
      rw [hn, hn']
      exact Int.floor_le_floor (by linarith)
    have hcast : (v'.inNanos : ℚ) ≤ v.inNanos := by exact_mod_cast hfloor
    rw [Amount.value, Amount.value]
    exact div_le_div_of_nonneg_right hcast (by norm_num)
  · -- A whole number of nanos may be taken off before or after the cut.
    have hfloor : v.inNanos - trades.length ≤ v'.inNanos := by
      rw [hn, hn', ← Int.floor_sub_natCast]
      exact Int.floor_le_floor (by linarith)
    have hcast : (v.inNanos : ℚ) - trades.length ≤ v'.inNanos := by exact_mod_cast hfloor
    rw [Amount.value, Amount.value, ← sub_div]
    exact div_le_div_of_nonneg_right hcast (by norm_num)

/-- Buying seven billionths at a price with nine digits and selling them again costs one nano. -/
theorem valuation_replay_le_buy_sell :
    ∃ p' v v',
      (seeded (.ofUnits 100000) ["BTC"]).replay
        [⟨⟨0, 0⟩, "BTC", .buy, ⟨0, 7⟩, ⟨333, 333333333⟩⟩,
          ⟨⟨1, 0⟩, "BTC", .sell, ⟨0, 7⟩, ⟨333, 333333333⟩⟩] = .ok p' ∧
      p'.cash = ⟨99999, 999999999⟩ ∧
      (seeded (.ofUnits 100000) ["BTC"]).valuation (.ofList [("BTC", ⟨333, 333333333⟩)]) = .ok v ∧
      p'.valuation (.ofList [("BTC", ⟨333, 333333333⟩)]) = .ok v' ∧
      v'.value ≤ v.value ∧ v.value - (2 : Nat) / 10 ^ 9 ≤ v'.value := by
  have hq : SoundQuotes (.ofList [("BTC", ⟨333, 333333333⟩)]) := by
    intro s price hprice
    have hget := Table.get?_ofList_const (⟨333, 333333333⟩ : Amount) ["BTC"] s
    rw [List.map_singleton, hprice] at hget
    split_ifs at hget
    rw [Option.some.inj hget]
    decide
  have hroom : (seeded (.ofUnits 100000) ["BTC"]).worth (.ofList [("BTC", ⟨333, 333333333⟩)]) <
      79 * 10 ^ 9 := by
    have hentries : (seeded (.ofUnits 100000) ["BTC"]).positions.entries =
        [("BTC", Amount.zero)] := rfl
    have hcash : (seeded (.ofUnits 100000) ["BTC"]).cash.inNanos = 100000000000000 := by decide
    have hposition : positionWorth (.ofList [("BTC", ⟨333, 333333333⟩)]) ("BTC", Amount.zero) =
        0 := by
      unfold positionWorth
      split
      · rw [Amount.value_zero, zero_mul]
      · rfl
    rw [worth, hentries, List.map_singleton, List.sum_singleton, hposition, Amount.value, hcash]
    norm_num
  have hat : ∀ side time, (⟨time, "BTC", side, ⟨0, 7⟩, ⟨333, 333333333⟩⟩ : TradeRecord).IsAt
      (.ofList [("BTC", ⟨333, 333333333⟩)]) := by
    intro side time
    have hquote : (Table.ofList [("BTC", (⟨333, 333333333⟩ : Amount))]).get? "BTC" =
        some ⟨333, 333333333⟩ := by decide
    have hvalid : Amount.isValid ⟨0, 7⟩ = true := by decide
    have hsize : Amount.inNanos ⟨0, 7⟩ = 7 := by decide
    refine ⟨hquote, hvalid, ?_⟩
    rw [Amount.value, hsize]
    norm_num
  have hreplay : (seeded (.ofUnits 100000) ["BTC"]).replay
      [⟨⟨0, 0⟩, "BTC", .buy, ⟨0, 7⟩, ⟨333, 333333333⟩⟩,
        ⟨⟨1, 0⟩, "BTC", .sell, ⟨0, 7⟩, ⟨333, 333333333⟩⟩] =
      .ok ⟨⟨99999, 999999999⟩, .ofList [("BTC", .zero)]⟩ := by decide +kernel
  rcases valuation_replay_le
    (solvent_seeded (by decide) ["BTC"]) hq (by
      intro t ht
      rcases List.mem_pair.1 ht with rfl | rfl
      · exact hat .buy ⟨0, 0⟩
      · exact hat .sell ⟨1, 0⟩) hreplay hroom with ⟨v, v', hv, hv', hle, hge⟩
  exact ⟨_, v, v', hreplay, rfl, hv, hv', hle, hge⟩

end Portfolio

end Bourse
