import Bourse.Text.Numeral
import Mathlib.Data.List.Basic

/-!
# Numerals and What Follows Them

A reader of a numeral takes all digits there are, and knows where the numeral ends by the
first character that is none. So a numeral is read back from the front of a text as it was
written, as long as no digit follows it. Numerals of a fixed width need less: whoever reads
them counts.

## Main definitions

* `NoDigitAhead`: no digit stands at the front of a text.

## Theorems

* `isDigit_of_mem_digits`, `isDigit_of_mem_padded`, `isDigit_of_mem_fixed`: numerals are
  written in digits.
* `takeWhile_numeral`, `dropWhile_numeral`: where a numeral ends.
* `value_fixed`: a number that is not too wide has all its digits in a fixed width.
* `value_lt`: so many digits denote no number of more.
* `length_padded`: a number that is not too wide is padded to just the width.
-/

namespace Bourse.Numeral

-- Powers are those of the core library, whatever else is imported.
attribute [local instance (high)] instPowNat

/-- No digit stands at the front of a text. -/
def NoDigitAhead (rest : List Char) : Prop :=
  ∀ c ∈ rest.head?, isDigit c = false

theorem noDigitAhead_cons {c : Char} (rest : List Char) (h : isDigit c = false) :
    NoDigitAhead (c :: rest) := by
  intro d hd
  rw [← Option.some.inj hd]
  exact h

/-! ## Digits only -/

theorem isDigit_of_mem_digits {n : Nat} {c : Char} (h : c ∈ digits n) : isDigit c = true := by
  fun_induction digits n with
  | case1 n hn =>
      rw [List.mem_singleton.1 h]
      exact isDigit_digitChar hn
  | case2 n hn ih =>
      rcases List.mem_append.1 h with h | h
      · exact ih h
      · rw [List.mem_singleton.1 h]
        exact isDigit_digitChar (Nat.mod_lt _ (by omega))

theorem digits_ne_nil (n : Nat) : digits n ≠ [] := by
  rw [digits]
  split_ifs
  · exact List.cons_ne_nil _ _
  · exact List.append_ne_nil_of_right_ne_nil _ (List.cons_ne_nil _ _)

/-- Only zero is written with a zero in front. -/
theorem head?_digits {n : Nat} (h : n ≠ 0) : (digits n).head? ≠ some '0' := by
  fun_induction digits n with
  | case1 n hn =>
      have : n = 1 ∨ n = 2 ∨ n = 3 ∨ n = 4 ∨ n = 5 ∨ n = 6 ∨ n = 7 ∨ n = 8 ∨ n = 9 := by omega
      rcases this with rfl | rfl | rfl | rfl | rfl | rfl | rfl | rfl | rfl <;> decide
  | case2 n hn ih =>
      rw [List.head?_append_of_ne_nil _ (digits_ne_nil _)]
      exact ih (by omega)

theorem isDigit_of_mem_padded {width n : Nat} {c : Char} (h : c ∈ padded width n) :
    isDigit c = true := by
  rcases List.mem_append.1 h with h | h
  · rw [List.eq_of_mem_replicate h]
    rfl
  · exact isDigit_of_mem_digits h

theorem isDigit_of_mem_fixed {width n : Nat} {c : Char} (h : c ∈ fixed width n) :
    isDigit c = true := by
  induction width generalizing n with
  | zero => cases h
  | succ width ih =>
      rcases List.mem_append.1 h with h | h
      · exact ih h
      · rw [List.mem_singleton.1 h]
        exact isDigit_digitChar (Nat.mod_lt _ (by omega))

/-! ## Where a numeral ends -/

theorem takeWhile_numeral {ds rest : List Char} (hds : ∀ c ∈ ds, isDigit c = true)
    (hrest : NoDigitAhead rest) : (ds ++ rest).takeWhile isDigit = ds := by
  rw [List.takeWhile_append_of_pos hds]
  cases rest with
  | nil => exact List.append_nil ds
  | cons c rest =>
      rw [List.takeWhile_cons_of_neg (by rw [hrest c rfl]; exact Bool.false_ne_true)]
      exact List.append_nil ds

theorem dropWhile_numeral {ds rest : List Char} (hds : ∀ c ∈ ds, isDigit c = true)
    (hrest : NoDigitAhead rest) : (ds ++ rest).dropWhile isDigit = rest := by
  rw [List.dropWhile_append_of_pos hds]
  cases rest with
  | nil => rfl
  | cons c rest => exact List.dropWhile_cons_of_neg (by rw [hrest c rfl]; exact Bool.false_ne_true)

/-! ## Fixed width -/

theorem value_fixed {width n : Nat} (h : n < 10 ^ width) : value (fixed width n) = n := by
  induction width generalizing n with
  | zero =>
      have : n = 0 := by omega
      rw [this]
      rfl
  | succ width ih =>
      rw [fixed, value_append, ih (by rw [Nat.pow_succ] at h; omega)]
      have hlast : value [digitChar (n % 10)] = n % 10 := by
        rw [value, List.foldl_cons, List.foldl_nil, digitValue_digitChar (Nat.mod_lt _ (by omega))]
        omega
      rw [hlast, List.length_singleton, Nat.pow_one]
      omega

/-! ## How many digits a number has -/

theorem digitValue_lt {c : Char} (h : isDigit c = true) : digitValue c < 10 := by
  simp only [isDigit, Bool.and_eq_true, decide_eq_true_eq] at h
  unfold digitValue
  omega

theorem value_cons (c : Char) (cs : List Char) :
    value (c :: cs) = digitValue c * 10 ^ cs.length + value cs := by
  rw [value, List.foldl_cons, foldl_value, Nat.mul_zero, Nat.zero_add]

theorem value_lt {cs : List Char} (h : ∀ c ∈ cs, isDigit c = true) : value cs < 10 ^ cs.length := by
  induction cs with
  | nil => exact Nat.one_pos
  | cons c cs ih =>
      have hrest := ih (fun d hd => h d (List.mem_cons_of_mem c hd))
      have hfirst := digitValue_lt (h c List.mem_cons_self)
      calc value (c :: cs) = digitValue c * 10 ^ cs.length + value cs := value_cons c cs
        _ < digitValue c * 10 ^ cs.length + 10 ^ cs.length := Nat.add_lt_add_left hrest _
        _ = (digitValue c + 1) * 10 ^ cs.length := by rw [Nat.add_mul, Nat.one_mul]
        _ ≤ 10 * 10 ^ cs.length := Nat.mul_le_mul_right _ hfirst
        _ = 10 ^ (c :: cs).length := by rw [List.length_cons, Nat.pow_succ, Nat.mul_comm]

theorem length_digits_le {width n : Nat} (hwidth : 0 < width) (h : n < 10 ^ width) :
    (digits n).length ≤ width := by
  fun_induction digits n generalizing width with
  | case1 n hn => exact hwidth
  | case2 n hn ih =>
      -- All but the last digit are those of a number that is shorter by one.
      obtain ⟨w, rfl⟩ : ∃ w, width = w + 1 := ⟨width - 1, by omega⟩
      rw [Nat.pow_succ] at h
      have hw : 0 < w := by
        rcases Nat.eq_zero_or_pos w with rfl | hpos
        · rw [Nat.pow_zero] at h
          omega
        · exact hpos
      rw [List.length_append, List.length_singleton]
      exact Nat.succ_le_succ (ih hw (by omega))

theorem length_padded {width n : Nat} (hwidth : 0 < width) (h : n < 10 ^ width) :
    (padded width n).length = width := by
  have hdigits := length_digits_le hwidth h
  rw [padded, List.length_append, List.length_replicate]
  omega

end Bourse.Numeral
