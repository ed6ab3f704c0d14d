import Bourse.Proofs.Amount.Reading

/-!
# Writing Amounts and Reading Them Back

The text of an amount is a numeral of three parts: whether the amount is negative, its units and
its nanos without their signs. The reader finds these parts again whatever the amount, so two
amounts are written alike only if they agree in all three, and valid amounts that do are the same.

What is read from the text is therefore the amount that was written, with one exception. The
smallest units have no opposite, and a reader that reads the digits before the sign has no room for
them.

## Theorems

* `spells_text`: the parts of the text of an amount.
* `parse_text_of_isValid`: a valid amount is read back from its text.
* `eq_of_text_eq`: valid amounts are not written alike.
* `reading_undoes_writing`: how reading and writing agree.
-/

namespace Bourse

namespace Amount

open DecimalText

/-- The parts that an amount is written in. -/
def textParts (a : Amount) : DecimalText where
  negative := a.isNegative
  whole := Numeral.digits a.units.toInt.natAbs
  fraction := Numeral.padded 9 a.nanos.toInt.natAbs

theorem spells_text (a : Amount) : a.textParts.Spells a.text.toList := by
  refine ⟨⟨if a.isNegative then ['-'] else [], _, ?_, .point _ _, ?_⟩, fun c hc => ?_, ?_⟩
  · unfold textParts
    cases a.isNegative with
    | false => exact .missing
    | true => exact .minus
  · rw [text, String.toList_ofList, List.append_assoc]
    rfl
  · rcases List.mem_append.1 hc with hc | hc
    · exact Numeral.isDigit_of_mem_digits hc
    · exact Numeral.isDigit_of_mem_padded hc
  · exact List.append_ne_nil_of_left_ne_nil (Numeral.digits_ne_nil _) _

/-- The digits of the parts denote units and nanos without their signs. -/
theorem value_textParts (a : Amount) :
    Numeral.value a.textParts.whole = a.units.toInt.natAbs ∧
      Numeral.value a.textParts.fraction = a.nanos.toInt.natAbs :=
  ⟨Numeral.value_digits _, Numeral.value_padded 9 _⟩

/-- Nanos short of one unit have nine digits, all of which are read. -/
theorem nanos_textParts {a : Amount} (h : a.isValid = true) :
    a.textParts.nanos = a.nanos.toInt.natAbs := by
  have hlength : a.textParts.fraction.length = 9 :=
    Numeral.length_padded (by decide) (isValid_iff.1 h).1
  rw [DecimalText.nanos, List.take_of_length_le hlength.le, hlength, (value_textParts a).2,
    Nat.sub_self, Nat.pow_zero, Nat.mul_one]

/-- A valid amount is made up of its parts without their signs and one sign for both. -/
theorem inNanos_of_isValid {a : Amount} (h : a.isValid = true) :
    a.inNanos = if a.isNegative then
        -((a.units.toInt.natAbs * 10 ^ 9 + a.nanos.toInt.natAbs : Nat) : Int)
      else (a.units.toInt.natAbs * 10 ^ 9 + a.nanos.toInt.natAbs : Nat) := by
  rcases isValid_iff.1 h with ⟨hnanos, hpos, hneg⟩
  have hvalue : a.inNanos = a.units.toInt * 1000000000 + a.nanos.toInt := rfl
  split_ifs with hsign
  · rw [isNegative_iff h] at hsign
    omega
  · rw [isNegative_iff h] at hsign
    omega

/-- The number written is the value. -/
theorem truncate_textParts {a : Amount} (h : a.isValid = true) :
    truncate (a.textParts.denoted * 10 ^ 9) = a.inNanos := by
  rw [truncate_denoted (spells_text a).fraction_digits, nanos_textParts h, (value_textParts a).1,
    inNanos_of_isValid h]
  rfl

/-- A valid amount is read back from its text. -/
theorem parse_text_of_isValid {a : Amount} (h : a.isValid = true)
    (hunits : a.units ≠ Int64.minValue) : parse a.text = .ok a := by
  have hleast : a.units.toInt ≠ -(2 ^ 63) := fun heq =>
    hunits (Int64.toInt_inj.1 (heq.trans Int64.toInt_minValue.symm))
  have hlow := a.units.le_toInt
  have hhigh := a.units.toInt_lt
  rcases parse_of_spells (spells_text a) (by rw [(value_textParts a).1]; omega) with
    ⟨b, hb, hvalid, hvalue⟩
  rw [hb, eq_of_inNanos_eq hvalid h (hvalue.trans (truncate_textParts h))]

/-- The smallest units are not read back. -/
theorem parse_text_of_minValue {a : Amount} (hunits : a.units = Int64.minValue) :
    parse a.text = .error .outOfRange := by
  refine parse_of_spells_outOfRange (spells_text a) ?_
  rw [(value_textParts a).1, hunits, Int64.toInt_minValue]
  decide

/-- Valid amounts are not written alike. -/
theorem eq_of_text_eq {a b : Amount} (ha : a.isValid = true) (hb : b.isValid = true)
    (h : a.text = b.text) : a = b := by
  have hparts : a.textParts = b.textParts := by
    have hread := read?_eq_some_iff.2 (spells_text a)
    rw [h, read?_eq_some_iff.2 (spells_text b)] at hread
    exact (Option.some.inj hread).symm
  refine eq_of_inNanos_eq ha hb ?_
  rw [← truncate_textParts ha, hparts, truncate_textParts hb]

/-- What is read is a valid amount, and not one with the smallest units. -/
theorem units_ne_of_parse {s : String} {a : Amount} (h : parse s = .ok a) :
    a.isValid = true ∧ a.units ≠ Int64.minValue := by
  obtain ⟨t, ht⟩ : ∃ t : DecimalText, t.Spells s.toList := by
    by_contra hnone
    rw [parse_of_not_spells (not_exists.1 hnone)] at h
    exact absurd h (by simp only [reduceCtorEq, not_false_eq_true])
  have hfits : Numeral.value t.whole < 2 ^ 63 := by
    by_contra hbig
    rw [parse_of_spells_outOfRange ht (not_lt.1 hbig)] at h
    exact absurd h (by simp only [reduceCtorEq, not_false_eq_true])
  rcases parse_of_spells ht hfits with ⟨b, hb, hvalid, hvalue⟩
  obtain rfl : b = a := Except.ok.inj (hb.symm.trans h)
  refine ⟨hvalid, fun hleast => ?_⟩
  -- The number read is above the smallest units by a whole unit.
  have hnanos := nanos_lt ht.fraction_digits
  have hunits := (isValid_iff.1 hvalid).1
  have hsum : b.inNanos = b.units.toInt * 1000000000 + b.nanos.toInt := rfl
  rw [hvalue, truncate_denoted ht.fraction_digits, hleast, Int64.toInt_minValue] at hsum
  have hneg := (isValid_iff.1 hvalid).2.2
  rw [hleast, Int64.toInt_minValue] at hneg
  split_ifs at hsum
  · omega
  · omega

/-- Reading undoes writing for every valid amount but those with the smallest units, for which
there is no room when they are read. No two valid amounts are written alike, and an amount that has
been read is the same after being written and read again. -/
theorem reading_undoes_writing :
    (∀ a : Amount, a.isValid = true → a.units ≠ Int64.minValue → parse a.text = .ok a) ∧
    (∀ a : Amount, a.isValid = true → a.units = Int64.minValue →
      parse a.text = .error .outOfRange) ∧
    (∀ a b : Amount, a.isValid = true → b.isValid = true → a ≠ b → a.text ≠ b.text) ∧
    (∀ (s : String) (a : Amount), parse s = .ok a → parse a.text = .ok a) :=
  ⟨fun _ h hunits => parse_text_of_isValid h hunits, fun _ _ hunits => parse_text_of_minValue hunits,
    fun _ _ ha hb hne htext => hne (eq_of_text_eq ha hb htext),
    fun _ _ h => parse_text_of_isValid (units_ne_of_parse h).1 (units_ne_of_parse h).2⟩

/-- A debt of one nano, the smallest units, five units beside five nanos, and an amount read from a
text with a sign and zeros that are not written again. -/
theorem reading_undoes_writing_unusual :
    text ⟨0, -1⟩ = "-0.000000001" ∧ parse (text ⟨0, -1⟩) = .ok ⟨0, -1⟩ ∧
    parse (text ⟨Int64.minValue, -1⟩) = .error .outOfRange ∧
    text ⟨5, 0⟩ ≠ text ⟨0, 5⟩ ∧
    parse "+007.5" = .ok ⟨7, 500000000⟩ ∧ parse (text ⟨7, 500000000⟩) = .ok ⟨7, 500000000⟩ := by
  rcases reading_undoes_writing with ⟨hback, hleast, happart, hagain⟩
  have hread : parse "+007.5" = .ok ⟨7, 500000000⟩ := by decide
  exact ⟨by decide +kernel, hback _ (by decide) (by decide), hleast _ (by decide) rfl,
    happart _ _ (by decide) (by decide) (by decide), hread, hagain _ _ hread⟩

end Amount

end Bourse
