import Bourse.Time.Timestamp
import Mathlib.Data.Int.Order.Basic

/-!
# Whole Hours

The start of an hour is found by taking the nanoseconds since 1970 modulo those of an
hour, and by moving back as far. For a time before 1970 the remainder is counted from
below, so the start of the hour is not after it either; and close to the first time
that 64 bits can count, it is still one that exists. A leap second has no distance of
its own and is left out here.

## Main definitions

* `Timestamp.IsPlain`: a time that is counted in 64 bits, outside of leap seconds.
* `Timestamp.IsHour`: a whole hour.

## Theorems

* `before_iff`: which of two times comes first.
* `shift?_back`: a time moved back by at least its nanoseconds, to a whole second.
* `shift?_whole`: a whole second moved by whole seconds.
* `startOfHour_eq`: the start of the hour, in seconds.
* `startOfHour_eq_iff`: two times have the same one if they lie in the same hour.
-/

namespace Bourse.Timestamp

variable {t u : Timestamp}

/-- A time whose distance from 1970 has 64 bits, and which is no leap second. -/
structure IsPlain (t : Timestamp) : Prop where
  nanos_lt : t.nanos < 1000000000
  near : t.sinceEpoch?.isSome = true

instance : Decidable t.IsPlain :=
  decidable_of_iff (t.nanos < 1000000000 ∧ t.sinceEpoch?.isSome = true)
    ⟨fun h => ⟨h.1, h.2⟩, fun h => ⟨h.nanos_lt, h.near⟩⟩

/-- A whole hour. -/
structure IsHour (t : Timestamp) : Prop where
  seconds : t.seconds % 3600 = 0
  nanos : t.nanos = 0

/-- Times are ordered by their seconds, and within a second by their nanoseconds. -/
theorem before_iff : t.before u = true ↔
    t.seconds < u.seconds ∨ t.seconds = u.seconds ∧ t.nanos < u.nanos := by
  have hcompare : compare t u =
      (compareOn Timestamp.seconds t u).then (compareOn Timestamp.nanos t u) := rfl
  rw [before, decide_eq_true_iff, hcompare, Ordering.then_eq_lt, compareOn, compareOn,
    Int.compare_eq_lt, Int.compare_eq_eq, Nat.compare_eq_lt]

/-- A time is moved back by at least its nanoseconds, to a whole second. -/
theorem shift?_back (hnanos : t.nanos < 1000000000) {k : Int} (hk : 0 ≤ k) :
    t.shift? (-(k * 1000000000 + t.nanos)) =
      if inRange (t.seconds - k) then some ⟨t.seconds - k, 0⟩ else none := by
  -- The span is negative, and so are the whole seconds and the rest that it is split into.
  have hspan : 0 ≤ k * 1000000000 + (t.nanos : Int) := by omega
  have hdiv : (-(k * 1000000000 + (t.nanos : Int))).tdiv 1000000000 = -k := by
    rw [Int.neg_tdiv, Int.tdiv_eq_ediv_of_nonneg hspan]
    omega
  have hmod : (-(k * 1000000000 + (t.nanos : Int))).tmod 1000000000 = -(t.nanos : Int) := by
    rw [Int.neg_tmod, Int.tmod_eq_emod_of_nonneg hspan]
    omega
  have hmove : t.move (-k) (-(t.nanos : Int)) = ⟨t.seconds - k, 0⟩ := by
    simp only [move, if_pos hnanos, Int.add_right_neg, Int.lt_irrefl, if_false, Int.toNat_zero,
      Bool.false_eq_true, show ¬ (1000000000 : Int) ≤ 0 from by decide, Int.sub_eq_add_neg]
  rw [shift?, hdiv, hmod, hmove]

/-- A time at a whole second is moved by whole seconds. -/
theorem shift?_whole (hnanos : t.nanos = 0) (k : Int) :
    t.shift? (k * 1000000000) =
      if inRange (t.seconds + k) then some ⟨t.seconds + k, 0⟩ else none := by
  have hdiv : (k * 1000000000).tdiv 1000000000 = k := Int.mul_tdiv_cancel k (by decide)
  have hmod : (k * 1000000000).tmod 1000000000 = 0 := Int.mul_tmod_left k 1000000000
  have hmove : t.move k 0 = ⟨t.seconds + k, 0⟩ := by
    simp only [move, hnanos, show (0 : Nat) < 1000000000 from by decide, if_true, Int.natCast_zero,
      Int.add_zero, Int.lt_irrefl, if_false, Int.toNat_zero, Bool.false_eq_true,
      show ¬ (1000000000 : Int) ≤ 0 from by decide]
  rw [shift?, hdiv, hmod, hmove]

/-- The distance from 1970 is what it should be, and has 64 bits. -/
theorem of_sinceEpoch? {n : Int} (h : t.sinceEpoch? = some n) :
    n = t.seconds * 1000000000 + t.nanos ∧ fits n = true := by
  simp only [sinceEpoch?, Option.ite_none_right_eq_some, Bool.and_eq_true, Option.some.injEq] at h
  rcases h with ⟨⟨-, hfits⟩, rfl⟩
  exact ⟨rfl, hfits⟩

/-- A time that is counted in 64 bits is far from the ends of time. -/
theorem inRange_of_fits (hnanos : t.nanos < 1000000000)
    (h : fits (t.seconds * 1000000000 + t.nanos) = true) {k : Int} (hk : 0 ≤ k) (hlt : k < 3600) :
    inRange (t.seconds - k) = true := by
  have hmin : Int64.minValue.toInt = -9223372036854775808 := rfl
  have hmax : Int64.maxValue.toInt = 9223372036854775807 := rfl
  rw [fits, Bool.and_eq_true, decide_eq_true_iff, decide_eq_true_iff, hmin, hmax] at h
  rw [inRange, minSeconds, maxSeconds, Bool.and_eq_true, decide_eq_true_iff, decide_eq_true_iff]
  omega

/-- The start of the hour, in seconds. -/
theorem startOfHour_eq (h : t.IsPlain) :
    t.startOfHour = ⟨t.seconds - t.seconds % 3600, 0⟩ := by
  have hnanos := h.nanos_lt
  rcases Option.isSome_iff_exists.1 h.near with ⟨n, hn⟩
  rcases of_sinceEpoch? hn with ⟨rfl, hfits⟩
  -- What is past of the hour, in nanoseconds.
  have hpast : (t.seconds * 1000000000 + t.nanos) % hour =
      t.seconds % 3600 * 1000000000 + t.nanos := by
    rw [hour]
    omega
  simp only [startOfHour, hn, hpast]
  by_cases hzero : t.seconds % 3600 * 1000000000 + (t.nanos : Int) = 0
  · -- It is a whole hour already.
    have hseconds : t.seconds - t.seconds % 3600 = t.seconds := by omega
    have hnone : t.nanos = 0 := by omega
    rw [if_pos hzero, hseconds, ← hnone]
  · have hk : 0 ≤ t.seconds % 3600 := by omega
    have hlt : t.seconds % 3600 < 3600 := by omega
    rw [if_neg hzero, shift?_back hnanos hk, if_pos (inRange_of_fits hnanos hfits hk hlt)]
    rfl

theorem isHour_startOfHour (h : t.IsPlain) : t.startOfHour.IsHour := by
  rw [startOfHour_eq h]
  refine ⟨?_, rfl⟩
  show (t.seconds - t.seconds % 3600) % 3600 = 0
  omega

/-- Two times have the same start of the hour if they lie in the same hour. -/
theorem startOfHour_eq_iff (ht : t.IsPlain) (hu : u.IsPlain) :
    t.startOfHour = u.startOfHour ↔ t.seconds / 3600 = u.seconds / 3600 := by
  rw [startOfHour_eq ht, startOfHour_eq hu, Timestamp.mk.injEq]
  omega

/-- One whole hour comes before another by an hour or more. -/
theorem IsHour.add_le (ht : t.IsHour) (hu : u.IsHour) (h : t.before u = true) :
    t.seconds + 3600 ≤ u.seconds := by
  have hseconds := ht.seconds
  have hseconds' := hu.seconds
  have hnanos := ht.nanos
  have hnanos' := hu.nanos
  rw [before_iff] at h
  omega

end Bourse.Timestamp
