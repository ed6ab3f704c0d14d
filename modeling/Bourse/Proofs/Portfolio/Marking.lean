import Bourse.Proofs.Amount.Products
import Bourse.Proofs.Portfolio.Worth

/-!
# How Far Off a Valuation Is

Every position that has a price takes a valuation two operations, the product and the new total, and
both may round. Each is off by half a nano at most as long as it is within the reach of amounts, for
there is room for nine digits there. That it is within reach can be told from the end: no position
is worth less than nothing, and rounding crosses no whole number, so a total never falls below a
whole number that it has reached. A valuation that succeeds has been within reach all the time.

So a valuation is off by a nano at most for every position that has a price, and by less than one
more for what is cut off at the end. How far it is off, and in which direction, may depend on the
order of the positions. Below a worth of 79 billion nothing is rounded, and the order does not
matter.

## Main definitions

* `Portfolio.quoted`: how many positions of a list have a price.
* `Portfolio.quotedPositions`: how many positions of a portfolio have a price.

## Theorems

* `Marked.le`: a total does not fall below a whole number.
* `Marked.close`: one position takes a total off by a nano at most.
* `mark_close`: any number of positions take it off by a nano each.
* `valuationInOrder_close`: how far off a valuation is.
* `valuations_truncated`: what a valuation is, within the bound and beyond it.
-/

namespace Bourse

theorem SoundQuotes.of_entries {quotes : Table String Amount}
    (h : ∀ e ∈ quotes.entries, e.2.Sound) : SoundQuotes quotes :=
  fun symbol price hprice => h (symbol, price) (Table.mem_entries_iff.2 hprice)

namespace Portfolio

variable {quotes : Table String Amount} {l rest : List (String × Amount)} {e : String × Amount}
  {size price : Amount} {total next d : Decimal}

theorem Solvent.of_entries {p : Portfolio} (hcash : p.cash.Sound)
    (h : ∀ e ∈ p.positions.entries, e.2.Sound) : p.Solvent :=
  ⟨hcash, fun symbol held hheld => h (symbol, held) (Table.mem_entries_iff.2 hheld)⟩

/-- How many positions of a list have a price. -/
def quoted (quotes : Table String Amount) (l : List (String × Amount)) : Nat :=
  l.countP (fun e => quotes.contains e.1)

/-- How many positions of a portfolio have a price. -/
def quotedPositions (p : Portfolio) (quotes : Table String Amount) : Nat :=
  quoted quotes p.positions.entries

theorem quoted_cons_of_none (l : List (String × Amount)) (h : quotes.get? e.1 = none) :
    quoted quotes (e :: l) = quoted quotes l :=
  List.countP_cons_of_neg (by rw [Table.contains, h]; decide)

theorem quoted_cons_of_some (l : List (String × Amount)) (h : quotes.get? e.1 = some price) :
    quoted quotes (e :: l) = quoted quotes l + 1 :=
  List.countP_cons_of_pos (by rw [Table.contains, h]; rfl)

/-! ## One position -/

/-- A total does not fall below a whole number when a position is added. -/
theorem Marked.le (h : Marked size price total next) (hworth : 0 ≤ size.value * price.value)
    {k : Int} (hk : (k : ℚ) ≤ total.value) : (k : ℚ) ≤ next.value := by
  rcases h with ⟨product, hproduct, hnext⟩
  have hnonneg := (Amount.mul?_uncrossed hproduct).nonneg hworth
  exact (Decimal.add?_uncrossed hnext k).1 (by linarith)

/-- A position takes a total that stays within reach off by a nano at most. -/
theorem Marked.close (h : Marked size price total next) (hworth : 0 ≤ size.value * price.value)
    (htotal : 0 ≤ total.value) (hreach : next.value < 2 ^ 66) :
    |next.value - (total.value + size.value * price.value)| ≤ 1 / 10 ^ 9 := by
  rcases h with ⟨product, hproduct, hnext⟩
  have hnonneg := (Amount.mul?_uncrossed hproduct).nonneg hworth
  -- Had the sum or the product been out of reach, the new total would not be within it.
  have hsum := (Decimal.add?_uncrossed hnext).lt (k := 2 ^ 66) (by push_cast; exact hreach)
  push_cast at hsum
  have hexact := (Amount.mul?_uncrossed hproduct).lt (k := 2 ^ 66) (by push_cast; linarith)
  push_cast at hexact
  have hfirst := (Decimal.mul?_rounded hproduct
    ((Amount.scale_add_le size price).trans (by decide)) (by
      rw [Amount.value_toDecimal, Amount.value_toDecimal, abs_of_nonneg hworth]
      exact hexact)).close_nano
  have hsecond := (Decimal.add?_rounded hnext (by
    rw [abs_of_nonneg (add_nonneg htotal hnonneg)]
    exact hsum)).close_nano
  rw [Amount.value_toDecimal, Amount.value_toDecimal] at hfirst
  calc |next.value - (total.value + size.value * price.value)|
      ≤ |next.value - (total.value + product.value)| +
          |total.value + product.value - (total.value + size.value * price.value)| :=
        abs_sub_le _ _ _
    _ ≤ 1 / 2 / 10 ^ 9 + 1 / 2 / 10 ^ 9 := by
        rw [add_sub_add_left_eq_sub]
        exact add_le_add hsecond hfirst
    _ = 1 / 10 ^ 9 := by ring

/-! ## All positions -/

/-- A total does not fall below a whole number when any number of positions are added. -/
theorem le_mark (hq : SoundQuotes quotes) (hl : ∀ e ∈ l, e.2.Sound)
    (h : mark quotes total l = some d) {k : Int} (hk : (k : ℚ) ≤ total.value) :
    (k : ℚ) ≤ d.value := by
  induction l generalizing total with
  | nil =>
      rw [mark, Option.some.injEq] at h
      rw [← h]
      exact hk
  | cons e rest ih =>
      have hrest : ∀ e' ∈ rest, e'.2.Sound := fun e' he' => hl e' (List.mem_cons_of_mem e he')
      cases hprice : quotes.get? e.1 with
      | none =>
          rw [mark_cons_of_none hprice] at h
          exact ih hrest h hk
      | some price =>
          rcases (mark_cons_of_some hprice).1 h with ⟨next, hnext, hlast⟩
          have hnonneg := positionWorth_nonneg hq (hl e List.mem_cons_self)
          rw [positionWorth_of_some hprice] at hnonneg
          exact ih hrest hlast (hnext.le hnonneg hk)

/-- Any number of positions take a total that ends within reach off by a nano each. -/
theorem mark_close (hq : SoundQuotes quotes) (hl : ∀ e ∈ l, e.2.Sound) (ht : 0 ≤ total.value)
    (h : mark quotes total l = some d) (hreach : d.value < 2 ^ 66) :
    |d.value - (total.value + (l.map (positionWorth quotes)).sum)| ≤ quoted quotes l / 10 ^ 9 := by
  -- The reach is known of the last total only, and goes back from there to every one before.
  induction l generalizing total with
  | nil =>
      rw [mark, Option.some.injEq] at h
      rw [h, List.map_nil, List.sum_nil, add_zero, sub_self, abs_zero]
      positivity
  | cons e rest ih =>
      have hrest : ∀ e' ∈ rest, e'.2.Sound := fun e' he' => hl e' (List.mem_cons_of_mem e he')
      rw [List.map_cons, List.sum_cons]
      cases hprice : quotes.get? e.1 with
      | none =>
          rw [mark_cons_of_none hprice] at h
          rw [positionWorth_of_none hprice, quoted_cons_of_none rest hprice, zero_add]
          exact ih hrest ht h
      | some price =>
          rcases (mark_cons_of_some hprice).1 h with ⟨next, hnext, hlast⟩
          have hnonneg := positionWorth_nonneg hq (hl e List.mem_cons_self)
          rw [positionWorth_of_some hprice] at hnonneg ⊢
          have hnextNonneg : 0 ≤ next.value := by
            have hzero := hnext.le hnonneg (k := 0) (by exact_mod_cast ht)
            exact_mod_cast hzero
          have hnextReach : next.value < 2 ^ 66 := by
            by_contra hnot
            have hle := le_mark hq hrest hlast (k := 2 ^ 66) (by push_cast; linarith)
            push_cast at hle
            linarith
          have hstep := hnext.close hnonneg ht hnextReach
          have hlater := ih hrest hnextNonneg hlast
          rw [quoted_cons_of_some rest hprice]
          generalize (rest.map (positionWorth quotes)).sum = sum at hlater ⊢
          calc |d.value - (total.value + (e.2.value * price.value + sum))|
              ≤ |d.value - (next.value + sum)| +
                  |next.value + sum - (total.value + (e.2.value * price.value + sum))| :=
                abs_sub_le _ _ _
            _ ≤ quoted quotes rest / 10 ^ 9 + 1 / 10 ^ 9 := by
                rw [← add_assoc, add_sub_add_right_eq_sub]
                exact add_le_add hlater hstep
            _ = ((quoted quotes rest + 1 : Nat) : ℚ) / 10 ^ 9 := by
                push_cast
                ring

/-! ## Valuations -/

variable {p : Portfolio} {v : Amount}

/-- A valuation is off by less than a nano for every position that has a price, and one more. -/
theorem valuationInOrder_close (hp : p.Solvent) (hq : SoundQuotes quotes)
    (hl : l.Perm p.positions.entries) (h : p.valuationInOrder quotes l = .ok v) :
    |v.value - p.worth quotes| < (p.quotedPositions quotes + 1) / 10 ^ 9 := by
  rcases Amount.ofResult_eq_ok_iff.1 h with ⟨d, hd, hv⟩
  have hreach := (abs_lt.1 (Amount.abs_lt_of_fits (Amount.fits_of_ofDecimal hv))).2
  have hcash : 0 ≤ p.cash.toDecimal.value := by
    rw [Amount.value_toDecimal]
    exact hp.cash.value_nonneg
  have hmark := mark_close hq (fun e he => hp.entries e (hl.mem_iff.1 he)) hcash hd (by linarith)
  rw [Amount.value_toDecimal, worth_perm hl, quoted, hl.countP_eq] at hmark
  -- What is cut off at the end is less than a nano, however many digits there are.
  have hcut : |v.value - d.value| < 1 / 10 ^ 9 := by
    have hclose := d.near_self.truncate_close
    rw [← Decimal.truncatedAt_eq, ← (Amount.ofDecimal_eq_ok_iff.1 hv).2] at hclose
    exact hclose
  calc |v.value - p.worth quotes|
      ≤ |v.value - d.value| + |d.value - p.worth quotes| := abs_sub_le _ _ _
    _ < 1 / 10 ^ 9 + p.quotedPositions quotes / 10 ^ 9 := add_lt_add_of_lt_of_le hcut hmark
    _ = (p.quotedPositions quotes + 1) / 10 ^ 9 := by ring

/-- The valuation of a portfolio worth less than 79 billion is its worth truncated at nine digits,
in whatever order the positions are added up. Beyond that, if there is one, it is off by less than a
nano for every position that has a price, and one more. -/
theorem valuations_truncated (hp : p.Solvent) (hq : SoundQuotes quotes) :
    (p.worth quotes < 79 * 10 ^ 9 → ∃ v, p.valuation quotes = .ok v ∧ v.isValid = true ∧
      v.inNanos = truncate (p.worth quotes * 10 ^ 9) ∧
      ∀ l, l.Perm p.positions.entries → p.valuationInOrder quotes l = .ok v) ∧
    (∀ v, p.valuation quotes = .ok v →
      |v.value - p.worth quotes| < (p.quotedPositions quotes + 1) / 10 ^ 9) ∧
    ∀ l v, l.Perm p.positions.entries → p.valuationInOrder quotes l = .ok v →
      |v.value - p.worth quotes| < (p.quotedPositions quotes + 1) / 10 ^ 9 := by
  refine ⟨fun hroom => ?_, fun v h => valuationInOrder_close hp hq (.refl _) h,
    fun l v hl h => valuationInOrder_close hp hq hl h⟩
  rcases valuationInOrder_eq_floor hp hq hroom (.refl _) with ⟨v, hv, hsound, hn⟩
  have hvalid := (Amount.sound_iff.1 hsound).1
  refine ⟨v, hv, hvalid, ?_, fun l hl => ?_⟩
  · rw [hn, truncate_of_nonneg (mul_nonneg (worth_nonneg hp hq) (by norm_num))]
  · -- Another order gives a valid amount of as many nanos, and there is only one.
    rcases valuationInOrder_eq_floor hp hq hroom hl with ⟨w, hw, hwSound, hwn⟩
    rw [hw, Amount.eq_of_inNanos_eq (Amount.sound_iff.1 hwSound).1 hvalid (hwn.trans hn.symm)]

/-- A portfolio with a position that has no price, at prices with one of no position, has the same
valuation in every order. One with much cash has not: half a unit of the last digit kept is lost if
it is added first, but makes a whole one after nine others. -/
theorem valuations_truncated_half :
    (∀ l, l.Perm [("BTC", ⟨1, 500000000⟩), ("ETH", ⟨3, 0⟩)] →
      valuationInOrder ⟨⟨100, 0⟩, .ofList [("BTC", ⟨1, 500000000⟩), ("ETH", ⟨3, 0⟩)]⟩
        (.ofList [("BTC", ⟨2, 1⟩), ("SOL", ⟨7, 0⟩)]) l = .ok ⟨103, 1⟩) ∧
    ∃ p : Portfolio, ∃ quotes,
      p.positions.entries = [("BTC", ⟨0, 50000000⟩), ("ETH", ⟨0, 900000000⟩)] ∧
      p.valuation quotes = .ok ⟨5000000000000000000, 0⟩ ∧
      p.valuationInOrder quotes [("ETH", ⟨0, 900000000⟩), ("BTC", ⟨0, 50000000⟩)] =
        .ok ⟨5000000000000000000, 1⟩ ∧
      |Amount.value ⟨5000000000000000000, 0⟩ - p.worth quotes| < ((2 : Nat) + 1) / 10 ^ 9 ∧
      |Amount.value ⟨5000000000000000000, 1⟩ - p.worth quotes| < ((2 : Nat) + 1) / 10 ^ 9 := by
  constructor
  · have htruncated := @valuations_truncated (.ofList [("BTC", ⟨2, 1⟩), ("SOL", ⟨7, 0⟩)])
      ⟨⟨100, 0⟩, .ofList [("BTC", ⟨1, 500000000⟩), ("ETH", ⟨3, 0⟩)]⟩
      (.of_entries (by decide) (by decide +kernel)) (.of_entries (by decide +kernel))
    rcases htruncated.1 (by decide +kernel) with ⟨v, hv, -, -, hany⟩
    have hvaluation : Except.ok ⟨103, 1⟩ = Except.ok v := Eq.trans (by decide +kernel) hv
    rw [Except.ok.inj hvaluation]
    exact hany
  · have hclose := (@valuations_truncated (.ofList [("BTC", ⟨0, 1⟩), ("ETH", ⟨0, 1⟩)])
      ⟨⟨5000000000000000000, 0⟩, .ofList [("BTC", ⟨0, 50000000⟩), ("ETH", ⟨0, 900000000⟩)]⟩
      (.of_entries (by decide) (by decide +kernel)) (.of_entries (by decide +kernel))).2
    exact ⟨_, _, rfl, by decide +kernel, by decide +kernel,
      hclose.1 _ (by decide +kernel), hclose.2 _ _ (.swap _ _ _) (by decide +kernel)⟩

end Portfolio

end Bourse
