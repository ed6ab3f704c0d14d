import Bourse.Proofs.Amount.Value

/-!
# Between Amounts and Decimals

Both conversions are exact as far as they can be. An amount, valid or not, has a decimal of just
its value. A decimal has an amount if its whole part fits the units, and that amount is the only
valid one of the value truncated at the ninth digit.

A conversion is a calculation in decimals, and decimals round. The decimal of an amount is the sum
of its units and its nanos; the amount of a decimal is got by cutting off digits twice, taking the
difference and scaling it up. `add?_parts` and `ofDecimalInSteps?_eq` carry these calculations out,
for every operand, with every operation that could round or break off, and say that none does.

## Main definitions

* `Decimal.cut`: a decimal with its last digits cut off.
* `Decimal.whole?`: the whole part of a decimal, as a machine integer.
* `Amount.Fits`: the whole part of a number has room in the units.
* `Amount.ofDecimalInSteps?`: the conversion of a decimal, one operation after the other.

## Theorems

* `Decimal.value_cut`: cutting digits off truncates.
* `Amount.ofNanos_truncate`: a number has an amount just if its whole part fits.
* `Amount.add?_parts`: units and nanos add up to the decimal of an amount.
* `Amount.ofDecimalInSteps?_eq`: no step of a conversion rounds or breaks off.
* `Amount.conversions_exact`: what the two conversions give.
-/

namespace Bourse

namespace Decimal

theorem natAbs_tdiv_lt {n : Int} {bound : Nat} (den : Int) (h : n.natAbs < bound) :
    (n.tdiv den).natAbs < bound := by
  rw [Int.natAbs_tdiv]
  exact (Nat.div_le_self _ _).trans_lt h

/-- The decimal with at most so many fractional digits, the others cut off. -/
def cut (digits : Nat) (d : Decimal) : Decimal :=
  if h : d.scale ≤ digits then d
  else
    { coefficient := d.coefficient.tdiv (10 ^ (d.scale - digits))
      scale := digits
      coefficient_lt := natAbs_tdiv_lt _ d.coefficient_lt
      scale_le := (Nat.le_of_not_le h).trans d.scale_le }

/-- The whole part of a decimal, if it fits a machine integer of so many bits beside its sign. -/
def whole? (bits : Nat) (d : Decimal) : Option Int :=
  if -(2 ^ bits) ≤ (d.cut 0).coefficient ∧ (d.cut 0).coefficient < 2 ^ bits then
    some (d.cut 0).coefficient
  else none

theorem scale_cut_le (digits : Nat) (d : Decimal) : (d.cut digits).scale ≤ digits := by
  unfold cut
  split_ifs with h
  · exact h
  · exact le_refl digits

/-- Cutting digits off truncates the value. -/
theorem value_cut (digits : Nat) (d : Decimal) :
    (d.cut digits).value = truncate (d.value * 10 ^ digits) / 10 ^ digits := by
  have hpos : (0 : ℚ) < 10 ^ digits := by positivity
  unfold cut
  split_ifs with h
  · -- All digits are kept, and the value is a whole number of units of the last.
    rw [value_mul_pow h, truncate_intCast, ← value_mul_pow h, mul_div_cancel_right₀ _ hpos.ne']
  · have hsplit : (10 : ℚ) ^ d.scale = 10 ^ (d.scale - digits) * 10 ^ digits := by
      rw [← pow_add, Nat.sub_add_cancel (Nat.le_of_not_le h)]
    have hscaled : d.value * 10 ^ digits = d.coefficient / (10 ^ (d.scale - digits) : Nat) := by
      rw [value, hsplit]
      push_cast
      field_simp
    rw [hscaled, truncate_div, value]
    push_cast
    rfl

/-- Without fractional digits the coefficient is the whole part. -/
theorem coefficient_cut_zero (d : Decimal) : (d.cut 0).coefficient = truncate d.value := by
  have hvalue := value_cut 0 d
  rw [pow_zero, mul_one, div_one, value, Nat.le_zero.1 (scale_cut_le 0 d), pow_zero,
    div_one] at hvalue
  exact_mod_cast hvalue

theorem whole?_of_value {d : Decimal} {bits : Nat} {n : Int} (h : d.value = n) :
    d.whole? bits = if -(2 ^ bits) ≤ n ∧ n < 2 ^ bits then some n else none := by
  rw [whole?, coefficient_cut_zero, h, truncate_intCast]

end Decimal

namespace Amount

/-- The whole part of a number has room in the units. -/
def Fits (v : ℚ) : Prop :=
  -(2 ^ 63) ≤ truncate v ∧ truncate v < 2 ^ 63

instance (v : ℚ) : Decidable (Fits v) := inferInstanceAs (Decidable (_ ∧ _))

/-- A number truncated at nine digits is the value of an amount just if its whole part fits. -/
theorem ofNanos_truncate (v : ℚ) :
    (Fits v ∧ ∃ a, ofNanos (truncate (v * 10 ^ 9)) = .ok a ∧ a.isValid = true ∧
        a.inNanos = truncate (v * 10 ^ 9)) ∨
      (¬ Fits v ∧ ofNanos (truncate (v * 10 ^ 9)) = .error .outOfRange) := by
  have hwhole : (truncate (v * 10 ^ 9)).tdiv nanosPerUnit = truncate v := by
    rw [← tdiv_truncate v (show 0 < nanosPerUnit by decide)]
    norm_num [nanosPerUnit]
  by_cases hfits : Fits v
  · obtain ⟨a, ha⟩ : ∃ a, ofNanos (truncate (v * 10 ^ 9)) = .ok a := by
      unfold ofNanos
      exact ⟨_, if_pos (hwhole ▸ hfits)⟩
    exact Or.inl ⟨hfits, a, ha, ofNanos_eq_ok_iff.1 ha⟩
  · refine Or.inr ⟨hfits, ?_⟩
    unfold ofNanos
    exact if_neg (hwhole ▸ hfits)

theorem ofDecimal_eq (d : Decimal) : ofDecimal d = ofNanos (truncate (d.value * 10 ^ 9)) := by
  rw [ofDecimal, Decimal.truncatedAt_eq]

theorem ofDecimal_eq_error_iff {d : Decimal} :
    ofDecimal d = .error .outOfRange ↔ ¬ Fits d.value := by
  rw [ofDecimal_eq]
  rcases ofNanos_truncate d.value with ⟨hfits, a, ha, -⟩ | ⟨hfits, herror⟩
  · rw [ha]
    exact iff_of_false (by simp only [reduceCtorEq, not_false_eq_true]) (not_not.2 hfits)
  · exact iff_of_true herror hfits

/-- The value of an amount is a whole number of nanos. -/
theorem truncate_value_mul (a : Amount) : truncate (a.value * 10 ^ 9) = a.inNanos := by
  rw [value, div_mul_cancel₀ _ (by norm_num), truncate_intCast]

/-- The value of a valid amount fits. -/
theorem fits_value {a : Amount} (h : a.isValid = true) : Fits a.value := by
  rcases ofNanos_truncate a.value with ⟨hfits, -⟩ | ⟨-, herror⟩
  · exact hfits
  · rw [truncate_value_mul, ofNanos_eq_ok_iff.2 ⟨h, rfl⟩] at herror
    exact absurd herror (by simp only [reduceCtorEq, not_false_eq_true])

/-- Back from the decimal of an amount comes the valid amount of the same value. -/
theorem ofDecimal_toDecimal_iff {a b : Amount} :
    ofDecimal a.toDecimal = .ok b ↔ b.isValid = true ∧ b.value = a.value := by
  rw [ofDecimal_eq, value_toDecimal, truncate_value_mul, ofNanos_eq_ok_iff, value_eq_iff]

/-! ## Step by step -/

theorem natAbs_toInt_lt (n : Int32) : n.toInt.natAbs < 2 ^ (96 : Nat) := by
  have hhigh := n.toInt_lt
  have hlow := n.le_toInt
  omega

/-- Decimals have room for the digits of nanos. -/
theorem nanosDigits_le : 9 ≤ 28 := by decide

/-- The decimal of a number of nanos that a machine integer holds. -/
def nanosDecimal (n : Int32) : Decimal where
  coefficient := n.toInt
  scale := 9
  coefficient_lt := natAbs_toInt_lt n
  scale_le := nanosDigits_le

/-- Units and nanos add up to the decimal of an amount, without being rounded. -/
theorem add?_parts (a : Amount) :
    (Decimal.whole a.units.toInt a.natAbs_units_lt).add? (nanosDecimal a.nanos) =
      some a.toDecimal := by
  have hunits : a.units = 0 ↔ a.units.toInt = 0 := by
    rw [← Int64.toInt_inj, Int64.toInt_zero]
  have hnanos : a.nanos = 0 ↔ a.nanos.toInt = 0 := by
    rw [← Int32.toInt_inj, Int32.toInt_zero]
  have hvalue : a.inNanos = a.units.toInt * 10 ^ 9 + a.nanos.toInt := rfl
  unfold Decimal.add? toDecimal
  by_cases hu : (Decimal.whole a.units.toInt a.natAbs_units_lt).coefficient = 0
  · -- No units: the sum is the nanos as they are.
    rw [if_pos hu, if_neg (fun h => h.2 (hunits.2 hu))]
    have hnanosOnly : a.inNanos = a.nanos.toInt := by
      rw [hvalue, show a.units.toInt = 0 from hu, zero_mul, zero_add]
    simp only [nanosDecimal, hnanosOnly]
  · rw [if_neg hu]
    by_cases hn : (nanosDecimal a.nanos).coefficient = 0
    · rw [if_pos hn, if_pos ⟨hnanos.2 hn, mt hunits.1 hu⟩]
    · rw [if_neg hn, if_neg (fun h => hn (hnanos.1 h.1))]
      -- The sum has nine digits, and there is room for them.
      have hround : roundHalfEven
          ((a.units.toInt * 10 ^ 9 + a.nanos.toInt * 10 ^ 0) * 10 ^ (8 + 1)) (10 ^ (0 + 9)) =
            a.inNanos :=
        roundHalfEven_of_eq_mul (by decide) (by rw [hvalue]; ring)
      have hparts : Decimal.ofParts? a.inNanos (8 + 1) =
          some ⟨a.inNanos, 9, a.natAbs_inNanos_lt, by decide⟩ :=
        dif_pos ⟨a.natAbs_inNanos_lt, by decide⟩
      change Decimal.fit? (a.units.toInt * 10 ^ 9 + a.nanos.toInt * 10 ^ 0) (10 ^ (0 + 9)) (8 + 1) =
        some ⟨a.inNanos, 9, a.natAbs_inNanos_lt, by decide⟩
      rw [Decimal.fit?, hround, hparts]

/-- The amount of a decimal, one operation after the other. None means that an operation on
decimals has broken off. -/
def ofDecimalInSteps? (d : Decimal) : Option (Except AmountError Amount) :=
  let kept := d.cut 9
  let whole := kept.cut 0
  match whole.whole? 63 with
  | none => some (.error .outOfRange)
  | some units =>
    match kept.sub? whole with
    | none => none
    | some rest =>
      match rest.mul? (.whole nanosPerUnit (by decide)) with
      | none => none
      | some scaled =>
        match scaled.whole? 31 with
        | none => some (.error .outOfRange)
        | some nanos => some (.ok ⟨Int64.ofInt units, Int32.ofInt nanos⟩)

/-- What a decimal has behind the point, nine digits of it, is got exactly. -/
theorem sub?_cut {d : Decimal} {n : Int} (hn : truncate (d.value * 10 ^ 9) = n) :
    ((d.cut 9).cut 0).value = (n.tdiv nanosPerUnit : Int) ∧
      ∃ rest, (d.cut 9).sub? ((d.cut 9).cut 0) = some rest ∧
        rest.value = (n.tmod nanosPerUnit : Int) / 10 ^ 9 ∧ rest.scale ≤ 9 := by
  rcases split_nanos n with ⟨hsum, hshort, -, -⟩
  have hunit : ((nanosPerUnit : Nat) : ℚ) = 10 ^ 9 := by norm_num [nanosPerUnit]
  have hkept : (d.cut 9).value = n / 10 ^ 9 := by rw [Decimal.value_cut, hn]
  have hwhole : ((d.cut 9).cut 0).value = (n.tdiv nanosPerUnit : Int) := by
    rw [Decimal.value_cut, pow_zero, mul_one, div_one, hkept, ← hunit, truncate_div]
  have hrest : (d.cut 9).value - ((d.cut 9).cut 0).value =
      (n.tmod nanosPerUnit : Int) / 10 ^ 9 := by
    have hsum' : (n : ℚ) = (n.tdiv nanosPerUnit : Int) * 10 ^ 9 + (n.tmod nanosPerUnit : Int) := by
      exact_mod_cast hsum.symm
    rw [hkept, hwhole, hsum', add_div, mul_div_cancel_right₀ _ (by norm_num), add_sub_cancel_left]
  have hscale : max (d.cut 9).scale ((d.cut 9).cut 0).scale ≤ 9 :=
    max_le (Decimal.scale_cut_le 9 d) ((Decimal.scale_cut_le 0 _).trans (by decide))
  -- It is less than one unit, so there is room for it.
  have hone : |(d.cut 9).value - ((d.cut 9).cut 0).value| < 1 := by
    have hbelow : |((n.tmod nanosPerUnit : Int) : ℚ)| < 10 ^ 9 := by
      rw [← Int.cast_abs, Int.abs_eq_natAbs]
      exact_mod_cast hshort
    rw [hrest, abs_div, abs_of_pos (by norm_num : (0 : ℚ) < 10 ^ 9), div_lt_one (by norm_num)]
    exact hbelow
  have hpow : (10 : ℚ) ^ max (d.cut 9).scale ((d.cut 9).cut 0).scale ≤ 10 ^ 9 :=
    pow_le_pow_right₀ (by norm_num) hscale
  rcases Decimal.sub?_exact (a := d.cut 9) (b := (d.cut 9).cut 0) (by
    calc |(d.cut 9).value - ((d.cut 9).cut 0).value| *
          10 ^ max (d.cut 9).scale ((d.cut 9).cut 0).scale
        ≤ 1 * 10 ^ 9 := mul_le_mul hone.le hpow (by positivity) (by norm_num)
      _ < 2 ^ 96 := by norm_num) with ⟨rest, hsub, hvalue, hrestScale⟩
  exact ⟨hwhole, rest, hsub, hvalue.trans hrest, hrestScale.trans hscale⟩

/-- A fraction of nine digits is scaled up to its nanos exactly. -/
theorem mul?_nanos {rest : Decimal} {r : Int} (hvalue : rest.value = r / 10 ^ 9)
    (hscale : rest.scale ≤ 9) (hr : r.natAbs < 10 ^ 9) :
    ∃ scaled, rest.mul? (.whole nanosPerUnit (by decide)) = some scaled ∧ scaled.value = r := by
  have hproduct : rest.value * (Decimal.whole nanosPerUnit (by decide)).value = r := by
    rw [Decimal.value_whole, hvalue]
    norm_num [nanosPerUnit]
  have hpow : (10 : ℚ) ^ rest.scale ≤ 10 ^ 9 := pow_le_pow_right₀ (by norm_num) hscale
  have hr' : |(r : ℚ)| < 10 ^ 9 := by
    rw [← Int.cast_abs, Int.abs_eq_natAbs]
    exact_mod_cast hr
  rcases Decimal.mul?_exact (a := rest) (b := .whole nanosPerUnit (by decide))
    (by
      change rest.scale + 0 ≤ 28
      omega)
    (by
      rw [hproduct]
      change |(r : ℚ)| * 10 ^ (rest.scale + 0) < 2 ^ 96
      calc |(r : ℚ)| * 10 ^ (rest.scale + 0)
          ≤ 10 ^ 9 * 10 ^ 9 := mul_le_mul hr'.le hpow (by positivity) (by norm_num)
        _ < 2 ^ 96 := by norm_num) with ⟨scaled, hmul, hscaled, -⟩
  exact ⟨scaled, hmul, hscaled.trans hproduct⟩

/-- No step of a conversion rounds or breaks off. -/
theorem ofDecimalInSteps?_eq (d : Decimal) : ofDecimalInSteps? d = some (ofDecimal d) := by
  rw [ofDecimal_eq]
  generalize hn : truncate (d.value * 10 ^ 9) = n
  rcases split_nanos n with ⟨-, hshort, -, -⟩
  rcases sub?_cut hn with ⟨hwhole, rest, hsub, hrest, hscale⟩
  rcases mul?_nanos hrest hscale hshort with ⟨scaled, hmul, hscaled⟩
  simp only [ofDecimalInSteps?, ofNanos, hsub, hmul, Decimal.whole?_of_value hwhole,
    Decimal.whole?_of_value hscaled]
  -- Nanos short of one unit always fit, so only the units decide.
  rw [if_pos (show -(2 ^ 31) ≤ n.tmod nanosPerUnit ∧ n.tmod nanosPerUnit < 2 ^ 31 by omega)]
  split_ifs
  · rfl
  · rfl

theorem exists_of_fits {d : Decimal} (h : Fits d.value) :
    ∃ a, ofDecimal d = .ok a ∧ a.isValid = true ∧ a.inNanos = truncate (d.value * 10 ^ 9) := by
  rw [ofDecimal_eq]
  rcases ofNanos_truncate d.value with ⟨-, hamount⟩ | ⟨hnot, -⟩
  · exact hamount
  · exact absurd h hnot

/-- A number of units and nanos is the value of at most one valid amount, and of one if it fits. -/
theorem existsUnique_of_fits {a : Amount} (h : Fits a.value) :
    ∃! b : Amount, b.isValid = true ∧ b.value = a.value := by
  rw [← value_toDecimal] at h
  rcases exists_of_fits h with ⟨b, hb, -⟩
  rcases ofDecimal_toDecimal_iff.1 hb with ⟨hvalid, hvalue⟩
  refine ⟨b, ⟨hvalid, hvalue⟩, ?_⟩
  rintro c ⟨hc, hcvalue⟩
  exact eq_of_inNanos_eq hc hvalid (value_eq_iff.1 (hcvalue.trans hvalue.symm))

/-- A decimal has an amount just if its whole part fits the units, and that is the valid one of its
value truncated at nine digits. An amount has a decimal of just its value, got without rounding, and
from it comes back the valid amount of the same value, if there is one. -/
theorem conversions_exact :
    (∀ d : Decimal, ofDecimalInSteps? d = some (ofDecimal d) ∧
      (ofDecimal d = .error .outOfRange ↔ ¬ Fits d.value) ∧
      (Fits d.value → ∃ a, ofDecimal d = .ok a ∧ a.isValid = true ∧
        a.inNanos = truncate (d.value * 10 ^ 9))) ∧
    (∀ a : Amount,
      (Decimal.whole a.units.toInt a.natAbs_units_lt).add? (nanosDecimal a.nanos) =
        some a.toDecimal ∧
      a.toDecimal.value = a.units.toInt + a.nanos.toInt / 10 ^ 9 ∧
      (a.isValid = true → ofDecimal a.toDecimal = .ok a) ∧
      (∀ b, ofDecimal a.toDecimal = .ok b ↔ b.isValid = true ∧ b.value = a.value) ∧
      (ofDecimal a.toDecimal = .error .outOfRange ↔ ¬ Fits a.value) ∧
      (Fits a.value → ∃! b : Amount, b.isValid = true ∧ b.value = a.value)) := by
  refine ⟨fun d => ⟨ofDecimalInSteps?_eq d, ofDecimal_eq_error_iff, exists_of_fits⟩, fun a => ?_⟩
  refine ⟨add?_parts a, ?_, fun h => ofDecimal_toDecimal_iff.2 ⟨h, rfl⟩,
    fun b => ofDecimal_toDecimal_iff, ?_, existsUnique_of_fits⟩
  · have hnanos : (a.inNanos : ℚ) = a.units.toInt * 10 ^ 9 + a.nanos.toInt := by
      have hint : a.inNanos = a.units.toInt * 10 ^ 9 + a.nanos.toInt := rfl
      exact_mod_cast hint
    rw [value_toDecimal, value, hnanos, add_div, mul_div_cancel_right₀ _ (by norm_num)]
  · rw [← value_toDecimal]
    exact ofDecimal_eq_error_iff

/-- The decimals with the smallest units there are and with the next smaller ones, and an amount
whose parts have opposite signs. -/
theorem conversions_exact_at_the_edge :
    (∃ a, ofDecimal ⟨-9223372036854775808999999999, 9, by decide, by decide⟩ = .ok a ∧
      a.isValid = true ∧ a.inNanos = -9223372036854775808999999999) ∧
    ofDecimal ⟨-9223372036854775809, 0, by decide, by decide⟩ = .error .outOfRange ∧
    ofDecimal (toDecimal ⟨Int64.minValue, -999999999⟩) = .ok ⟨Int64.minValue, -999999999⟩ ∧
    ofDecimal (toDecimal ⟨1, -500000000⟩) = .ok ⟨0, 500000000⟩ ∧
    ∃! b : Amount, b.isValid = true ∧ b.value = value ⟨1, -500000000⟩ := by
  rcases conversions_exact with ⟨hdecimal, hamount⟩
  rcases hamount ⟨1, -500000000⟩ with ⟨-, -, -, hback, -, hunique⟩
  refine ⟨?_, (hdecimal _).2.1.2 (by decide +kernel), (hamount _).2.2.1 (by decide),
    (hback _).2 ⟨by decide, by decide +kernel⟩, hunique (by decide +kernel)⟩
  rcases (hdecimal ⟨-9223372036854775808999999999, 9, by decide, by decide⟩).2.2
    (by decide +kernel) with ⟨a, ha, hvalid, hnanos⟩
  exact ⟨a, ha, hvalid, hnanos.trans (by decide +kernel)⟩

end Amount

end Bourse
