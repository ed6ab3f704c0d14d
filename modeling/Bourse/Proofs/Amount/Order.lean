import Bourse.Proofs.Amount.Sums

/-!
# The Order of Amounts

Amounts are compared as decimals, which may be of different scales. Equality and the tests of the
sign look at the two fields. They agree all the same, because everything is about the number of
nanos: any two amounts are in the order of their nanos, and the fields of a valid one are just the
quotient and the remainder of its nanos.

An amount that is not valid has its place in the order too, that of its value. There may be a valid
one in the same place, so the order of all amounts is a preorder and no more.

## Theorems

* `Decimal.compare_eq`: decimals are compared as numbers, whatever their scales.
* `compare_eq_value`, `compare_eq_inNanos`: amounts are compared as numbers, or as nanos.
* `lt_of_units_lt`: of two valid amounts the one with fewer units is less.
* `compare_eq_compareLex`: valid amounts are compared by their units, then by their nanos.
* `lt_iff_of_sub`, `le_iff_of_add`: the order is that of differences, and sums keep it.
* `comparisons_exact`: what the order is, and how it fits the fields, differences and sums.
-/

namespace Bourse

namespace Decimal

/-- Decimals are compared as the numbers that they stand for, whatever their scales. -/
theorem compare_eq (a b : Decimal) : a.compare b = Ord.compare a.value b.value := by
  -- With as many digits as both scales have together, either number is whole.
  have ha := value_mul_pow (Nat.le_add_right a.scale b.scale)
  have hb := value_mul_pow (Nat.le_add_left b.scale a.scale)
  rw [Nat.add_sub_cancel_left] at ha
  rw [Nat.add_sub_cancel] at hb
  have hpos : (0 : ℚ) < 10 ^ (a.scale + b.scale) := by positivity
  calc a.compare b
      = cmp (a.coefficient * 10 ^ b.scale) (b.coefficient * 10 ^ a.scale) :=
        (cmp_eq_compare _ _).symm
    _ = cmp ((a.coefficient * 10 ^ b.scale : Int) : ℚ) (b.coefficient * 10 ^ a.scale : Int) :=
        (Int.cast_strictMono.cmp_map_eq _ _).symm
    _ = cmp a.value b.value := by rw [← ha, ← hb, cmp_mul_pos_right hpos]
    _ = Ord.compare a.value b.value := cmp_eq_compare _ _

end Decimal

namespace Amount

variable {a b c d s t : Amount}

/-! ## The order of all amounts -/

/-- Whether `a < b` or `a ≤ b` is read off what `compare` says of the two. -/
instance : Ord Amount := ⟨compare⟩

instance : LT Amount := ltOfOrd

instance : LE Amount := leOfOrd

theorem compare_eq_value (a b : Amount) : a.compare b = Ord.compare a.value b.value := by
  rw [compare, Decimal.compare_eq, value_toDecimal, value_toDecimal]

theorem compare_eq_inNanos (a b : Amount) : a.compare b = Ord.compare a.inNanos b.inNanos := by
  have hpos : (0 : ℚ) < 10 ^ 9 := by norm_num
  calc a.compare b
      = cmp a.value b.value := (compare_eq_value a b).trans (cmp_eq_compare _ _).symm
    _ = cmp (a.inNanos : ℚ) b.inNanos := by
        rw [← cmp_mul_pos_right hpos, value_mul_nanos, value_mul_nanos]
    _ = cmp a.inNanos b.inNanos := Int.cast_strictMono.cmp_map_eq _ _
    _ = Ord.compare a.inNanos b.inNanos := cmp_eq_compare _ _

theorem lt_iff : a < b ↔ a.inNanos < b.inNanos := by
  change a.compare b = .lt ↔ _
  rw [compare_eq_inNanos, compare_lt_iff_lt]

theorem le_iff : a ≤ b ↔ a.inNanos ≤ b.inNanos := by
  change (a.compare b).isLE = true ↔ _
  rw [compare_eq_inNanos, Int.isLE_compare]

instance : Std.IsLinearPreorder Amount where
  le_refl _ := le_iff.2 (le_refl _)
  le_trans _ _ _ hab hbc := le_iff.2 ((le_iff.1 hab).trans (le_iff.1 hbc))
  le_total a b := (le_total a.inNanos b.inNanos).imp le_iff.2 le_iff.2

/-- To be less is to be at most the other one and not the other way round. -/
instance : Std.LawfulOrderLT Amount where
  lt_iff _ _ := by rw [lt_iff, le_iff, le_iff, lt_iff_le_not_ge]

/-- A comparison gives the opposite result if the amounts are exchanged. -/
instance : Std.LawfulOrderOrd Amount where
  isLE_compare _ _ := Iff.rfl
  isGE_compare a b := by
    change (a.compare b).isGE = true ↔ _
    rw [compare_eq_inNanos, Int.isGE_compare, le_iff]

/-! ## Valid amounts -/

theorem compare_eq_eq (ha : a.isValid = true) (hb : b.isValid = true) :
    a.compare b = .eq ↔ a = b := by
  rw [compare_eq_inNanos, compare_eq_iff_eq]
  exact ⟨eq_of_inNanos_eq ha hb, congrArg inNanos⟩

/-- Others may be equal in the order and still have different fields. -/
example : compare ⟨0, 1000000000⟩ ⟨1, 0⟩ = .eq := by decide +kernel

/-- No two valid amounts share a place. -/
instance : Std.IsLinearOrder {a : Amount // a.isValid = true} where
  le_refl a := Std.IsPreorder.le_refl a.1
  le_trans a b c := Std.IsPreorder.le_trans a.1 b.1 c.1
  le_antisymm a b hab hba :=
    Subtype.ext (eq_of_inNanos_eq a.2 b.2 (le_antisymm (le_iff.1 hab) (le_iff.1 hba)))
  le_total a b := Std.IsLinearPreorder.le_total a.1 b.1

/-- The nanos of a valid amount do not make up for a unit. -/
theorem lt_of_units_lt (ha : a.isValid = true) (hb : b.isValid = true) (h : a.units < b.units) :
    a < b := by
  rcases isValid_iff.1 ha with ⟨han, hapos, haneg⟩
  rcases isValid_iff.1 hb with ⟨hbn, hbpos, hbneg⟩
  have hunits : a.units.toInt < b.units.toInt := Int64.lt_iff_toInt_lt.1 h
  have hav : a.inNanos = a.units.toInt * 1000000000 + a.nanos.toInt := rfl
  have hbv : b.inNanos = b.units.toInt * 1000000000 + b.nanos.toInt := rfl
  rw [lt_iff]
  omega

/-- With the same units it is for the nanos to decide. -/
theorem compare_of_units_eq (h : a.units = b.units) :
    a.compare b = Ord.compare a.nanos b.nanos := by
  have hnanos : Ord.compare a.nanos.toInt b.nanos.toInt = Ord.compare a.nanos b.nanos := by
    change compareOfLessAndEq a.nanos.toInt b.nanos.toInt = compareOfLessAndEq a.nanos b.nanos
    simp only [compareOfLessAndEq, Int32.lt_iff_toInt_lt, Int32.toInt_inj]
  calc a.compare b
      = cmp a.inNanos b.inNanos := (compare_eq_inNanos a b).trans (cmp_eq_compare _ _).symm
    _ = cmp a.nanos.toInt b.nanos.toInt := by rw [inNanos, inNanos, h, cmp_add_left]
    _ = Ord.compare a.nanos b.nanos := (cmp_eq_compare _ _).trans hnanos

/-- Valid amounts are compared by their units, then by their nanos. -/
theorem compare_eq_compareLex (ha : a.isValid = true) (hb : b.isValid = true) :
    a.compare b = compareLex (compareOn units) (compareOn nanos) a b := by
  change a.compare b = (Ord.compare a.units b.units).then (Ord.compare a.nanos b.nanos)
  -- Different units leave nothing for the nanos to decide.
  cases hunits : Ord.compare a.units b.units with
  | lt => exact lt_of_units_lt ha hb (Std.compare_eq_lt.1 hunits)
  | eq => exact compare_of_units_eq (Std.LawfulEqOrd.eq_of_compare hunits)
  | gt =>
      have hgreater : Ord.compare a b = .gt :=
        Std.compare_eq_gt.2 (lt_of_units_lt hb ha (Std.compare_eq_gt.1 hunits))
      exact hgreater

theorem inNanos_pos_iff (h : a.isValid = true) :
    0 < a.inNanos ↔ a.isZero = false ∧ a.isNegative = false := by
  rw [← Bool.not_eq_true, ← Bool.not_eq_true, isZero_iff h, isNegative_iff h]
  omega

/-! ## Differences and sums -/

/-- The order is that of differences. -/
theorem lt_iff_of_sub (h : b.sub a = .ok d) :
    a < b ↔ d.isZero = false ∧ d.isNegative = false := by
  rw [sub_eq] at h
  rcases ofNanos_eq_ok_iff.1 h with ⟨hvalid, hn⟩
  rw [lt_iff, ← inNanos_pos_iff hvalid, hn]
  omega

/-- Sums with the same amount keep the order. -/
theorem le_iff_of_add (hs : a.add c = .ok s) (ht : b.add c = .ok t) : a ≤ b ↔ s ≤ t := by
  rw [le_iff, le_iff, inNanos_of_add hs, inNanos_of_add ht]
  omega

/-- Amounts, valid or not, are compared as numbers, which makes a linear preorder of them and a
linear order of the valid ones. Of these none but the same are equal in this order, and it is that
of the units and then of the nanos. An amount is less than another if the difference, where there is
one, is neither zero nor negative, and sums with a third amount, where there are any, are in the
same order. -/
theorem comparisons_exact :
    (∀ a b : Amount, a.compare b = Ord.compare a.value b.value) ∧
    (Std.IsLinearPreorder Amount ∧ Std.LawfulOrderLT Amount ∧ Std.LawfulOrderOrd Amount) ∧
    Std.IsLinearOrder {a : Amount // a.isValid = true} ∧
    (∀ a b : Amount, a.isValid = true → b.isValid = true →
      (a.compare b = .eq ↔ a = b) ∧
      a.compare b = compareLex (compareOn units) (compareOn nanos) a b) ∧
    (∀ a b d : Amount, b.sub a = .ok d → (a < b ↔ d.isZero = false ∧ d.isNegative = false)) ∧
    (∀ a b c s t : Amount, a.add c = .ok s → b.add c = .ok t → (a ≤ b ↔ s ≤ t)) :=
  ⟨compare_eq_value, ⟨inferInstance, inferInstance, inferInstance⟩, inferInstance,
    fun _ _ ha hb => ⟨compare_eq_eq ha hb, compare_eq_compareLex ha hb⟩,
    fun _ _ _ => lt_iff_of_sub, fun _ _ _ _ _ => le_iff_of_add⟩

/-- Minus one and the next amount above it, the largest difference that there is, and two sums that
are on either side of zero. -/
theorem comparisons_exact_across_zero :
    (isValid ⟨-1, 0⟩ = true ∧ isValid ⟨0, -999999999⟩ = true ∧
      (compare ⟨-1, 0⟩ ⟨0, -999999999⟩ = .eq ↔ (⟨-1, 0⟩ : Amount) = ⟨0, -999999999⟩) ∧
      compare ⟨-1, 0⟩ ⟨0, -999999999⟩ =
        compareLex (compareOn units) (compareOn nanos) ⟨-1, 0⟩ ⟨0, -999999999⟩) ∧
    (sub ⟨9223372036854775807, 999999998⟩ ⟨0, -1⟩ = .ok ⟨9223372036854775807, 999999999⟩ ∧
      ((⟨0, -1⟩ : Amount) < ⟨9223372036854775807, 999999998⟩ ↔
        isZero ⟨9223372036854775807, 999999999⟩ = false ∧
          isNegative ⟨9223372036854775807, 999999999⟩ = false)) ∧
    (add ⟨Int64.minValue, -999999999⟩ ⟨Int64.maxValue, 999999999⟩ = .ok ⟨-1, 0⟩ ∧
      add ⟨0, -999999999⟩ ⟨Int64.maxValue, 999999999⟩ = .ok ⟨Int64.maxValue, 0⟩ ∧
      ((⟨Int64.minValue, -999999999⟩ : Amount) ≤ ⟨0, -999999999⟩ ↔
        (⟨-1, 0⟩ : Amount) ≤ ⟨Int64.maxValue, 0⟩)) := by
  rcases comparisons_exact with ⟨-, -, -, hfields, hsub, hadd⟩
  have hdifference : sub ⟨9223372036854775807, 999999998⟩ ⟨0, -1⟩ =
      .ok ⟨9223372036854775807, 999999999⟩ := by decide +kernel
  have hlow : add ⟨Int64.minValue, -999999999⟩ ⟨Int64.maxValue, 999999999⟩ = .ok ⟨-1, 0⟩ := by
    decide +kernel
  have hhigh : add ⟨0, -999999999⟩ ⟨Int64.maxValue, 999999999⟩ = .ok ⟨Int64.maxValue, 0⟩ := by
    decide +kernel
  exact ⟨⟨by decide, by decide, hfields _ _ (by decide) (by decide)⟩,
    ⟨hdifference, hsub _ _ _ hdifference⟩, hlow, hhigh, hadd _ _ _ _ _ hlow hhigh⟩

end Amount

end Bourse
