import Bourse.Amount.Text
import Bourse.Proofs.Amount.Value
import Bourse.Proofs.Text.Numeral
import Mathlib.Data.List.TakeWhile

/-!
# Reading Amounts

What texts are amounts, and which ones. `Spells` is the grammar of decimal numerals, told by what
such a text is put together from, and `read?_eq_some_iff` says that the reader takes such a text
apart and refuses any other. `denoted` is the number that a numeral stands for, with all its digits.
An amount is this number truncated at nine digits, and the whole digits alone decide whether there
is one.

Reading cuts the fractional digits at a byte and negates two machine integers. A cut may be in the
middle of a character, and the smallest integer has no opposite. `parseInSteps?` does what reading
does with these operations as they are, each of which may break off; `parseInSteps?_eq` says that
none does. All characters that reach the cut are digits, and no numeral without its sign is below
zero.

## Main definitions

* `DecimalText.Spells`: the grammar of decimal numerals.
* `DecimalText.denoted`: the number that a numeral stands for.
* `Amount.parseInSteps?`: reading, with every operation that could break off.

## Theorems

* `DecimalText.read?_eq_some_iff`: what is read are the texts of the grammar.
* `DecimalText.truncate_denoted`: the nanos of a numeral.
* `Amount.parse_of_spells`, `Amount.parse_of_not_spells`: what becomes of a text.
* `Amount.parseInSteps?_eq`: no operation of reading breaks off.
* `Amount.parse_exact`: the texts that are read, with their amounts.
-/

namespace Bourse

open Numeral

namespace DecimalText

/-- How the sign of a numeral may be written. -/
inductive SignText : Bool → List Char → Prop where
  | minus : SignText true ['-']
  | plus : SignText false ['+']
  | missing : SignText false []

/-- How the digits of a numeral may be written: the point may be missing if nothing stands behind
it. -/
inductive DigitsText : List Char → List Char → List Char → Prop where
  | point (whole fraction : List Char) : DigitsText whole fraction (whole ++ '.' :: fraction)
  | plain (whole : List Char) : DigitsText whole [] whole

/-- A text is a numeral of these parts: at most one sign, then digits with at most one point, of
which there is at least one. -/
structure Spells (t : DecimalText) (s : List Char) : Prop where
  text : ∃ sign body, SignText t.negative sign ∧ DigitsText t.whole t.fraction body ∧
    s = sign ++ body
  digits : ∀ c ∈ t.whole ++ t.fraction, isDigit c = true
  nonempty : t.whole ++ t.fraction ≠ []

/-- The number that a numeral stands for, without its sign. -/
def magnitude (t : DecimalText) : ℚ :=
  value t.whole + value t.fraction / 10 ^ t.fraction.length

/-- The number that a numeral stands for. -/
def denoted (t : DecimalText) : ℚ :=
  if t.negative then -t.magnitude else t.magnitude

/-! ## The grammar -/

theorem ne_of_isDigit {c mark : Char} (h : isDigit c = true) (hmark : isDigit mark = false) :
    c ≠ mark := by
  rintro rfl
  rw [hmark] at h
  exact Bool.false_ne_true h

theorem splitSign_spec (s : List Char) :
    ∃ sign, SignText (splitSign s).1 sign ∧ s = sign ++ (splitSign s).2 := by
  unfold splitSign
  split
  · exact ⟨_, .minus, rfl⟩
  · exact ⟨_, .plus, rfl⟩
  · exact ⟨_, .missing, rfl⟩

/-- A sign is split off if what follows begins with no sign of its own. -/
theorem splitSign_append {negative : Bool} {sign body : List Char} (h : SignText negative sign)
    (hbody : ∀ c ∈ body.head?, c ≠ '-' ∧ c ≠ '+') :
    splitSign (sign ++ body) = (negative, body) := by
  cases h with
  | minus => rfl
  | plus => rfl
  | missing =>
      rw [List.nil_append]
      unfold splitSign
      split
      · exact absurd rfl (hbody _ rfl).1
      · exact absurd rfl (hbody _ rfl).2
      · rfl

/-- A text without its sign falls into whole and fractional digits at its first point. -/
theorem digitsText_split (body : List Char) :
    DigitsText (body.takeWhile (· ≠ '.')) ((body.dropWhile (· ≠ '.')).drop 1) body := by
  have hsplit := List.takeWhile_append_dropWhile (p := fun c => decide (c ≠ '.')) (l := body)
  cases hrest : body.dropWhile (· ≠ '.') with
  | nil =>
      rw [hrest, List.append_nil] at hsplit
      rw [List.drop_nil, hsplit]
      exact .plain body
  | cons c rest =>
      -- What the digits stop at is the point.
      have hpoint := List.head?_dropWhile_not (fun c => decide (c ≠ '.')) body
      rw [hrest] at hpoint hsplit
      obtain rfl : c = '.' := by
        simpa only [List.head?_cons, ne_eq, decide_not, Bool.not_eq_eq_eq_not, Bool.not_false,
          decide_eq_true_eq] using hpoint
      have h := DigitsText.point (body.takeWhile (· ≠ '.')) rest
      rw [hsplit] at h
      exact h

theorem split_of_digitsText {whole fraction body : List Char} (h : DigitsText whole fraction body)
    (hwhole : ∀ c ∈ whole, isDigit c = true) :
    body.takeWhile (· ≠ '.') = whole ∧ (body.dropWhile (· ≠ '.')).drop 1 = fraction := by
  have hne : ∀ c ∈ whole, decide (c ≠ '.') = true := fun c hc =>
    decide_eq_true (ne_of_isDigit (hwhole c hc) rfl)
  cases h with
  | point =>
      rw [List.takeWhile_append_of_pos hne, List.dropWhile_append_of_pos hne]
      exact ⟨List.append_nil whole, rfl⟩
  | plain =>
      rw [List.takeWhile_eq_self_iff.2 hne, List.dropWhile_eq_nil_iff.2 hne]
      exact ⟨rfl, rfl⟩

/-- The digits of a numeral begin with a digit or the point. -/
theorem head?_of_digitsText {whole fraction body : List Char}
    (h : DigitsText whole fraction body) (hwhole : ∀ c ∈ whole, isDigit c = true) :
    ∀ c ∈ body.head?, c ≠ '-' ∧ c ≠ '+' := by
  have hdigit : ∀ c, isDigit c = true → c ≠ '-' ∧ c ≠ '+' := fun c hc =>
    ⟨ne_of_isDigit hc rfl, ne_of_isDigit hc rfl⟩
  intro c hc
  cases h with
  | point =>
      cases whole with
      | nil =>
          rw [← Option.some.inj hc]
          decide
      | cons d rest => exact hdigit c (hwhole c (Option.some.inj hc ▸ List.mem_cons_self))
  | plain => exact hdigit c (hwhole c (List.mem_of_mem_head? hc))

/-- What is read are the texts of the grammar. -/
theorem read?_eq_some_iff {s : List Char} {t : DecimalText} :
    read? s = some t ↔ t.Spells s := by
  constructor
  · intro h
    rcases splitSign_spec s with ⟨sign, hsign, hs⟩
    have hbody := digitsText_split (splitSign s).2
    unfold read? at h
    simp only at h
    split_ifs at h with hempty hdigits
    rw [← Option.some.inj h]
    rw [Bool.and_eq_true, List.all_eq_true, List.all_eq_true] at hdigits
    refine ⟨⟨sign, _, hsign, hbody, hs⟩, fun c hc => ?_, fun hnil => hempty ?_⟩
    · rcases List.mem_append.1 hc with hc | hc
      · exact hdigits.1 c hc
      · exact hdigits.2 c hc
    · rcases List.append_eq_nil_iff.1 hnil with ⟨hwhole, hfraction⟩
      rw [Bool.and_eq_true, List.isEmpty_iff, List.isEmpty_iff]
      exact ⟨hwhole, hfraction⟩
  · rintro ⟨⟨sign, body, hsign, hbody, rfl⟩, hdigits, hnonempty⟩
    have hwhole : ∀ c ∈ t.whole, isDigit c = true := fun c hc =>
      hdigits c (List.mem_append_left _ hc)
    have hfraction : ∀ c ∈ t.fraction, isDigit c = true := fun c hc =>
      hdigits c (List.mem_append_right _ hc)
    rcases split_of_digitsText hbody hwhole with ⟨hleft, hright⟩
    have hempty : ¬ (t.whole.isEmpty && t.fraction.isEmpty) = true := by
      rw [Bool.and_eq_true, List.isEmpty_iff, List.isEmpty_iff, ← List.append_eq_nil_iff]
      exact hnonempty
    have hall : (t.whole.all isDigit && t.fraction.all isDigit) = true := by
      rw [Bool.and_eq_true, List.all_eq_true, List.all_eq_true]
      exact ⟨hwhole, hfraction⟩
    simp only [read?, splitSign_append hsign (head?_of_digitsText hbody hwhole), hleft, hright]
    rw [if_neg hempty, if_pos hall]

/-! ## The value -/

variable {t : DecimalText} {s : List Char}

theorem Spells.fraction_digits (h : t.Spells s) : ∀ c ∈ t.fraction, isDigit c = true :=
  fun c hc => h.digits c (List.mem_append_right _ hc)

/-- The first nine fractional digits are less than one unit. -/
theorem nanos_lt (h : ∀ c ∈ t.fraction, isDigit c = true) : t.nanos < 10 ^ 9 := by
  have hkept : value (t.fraction.take 9) < 10 ^ (t.fraction.take 9).length :=
    value_lt (fun c hc => h c (List.mem_of_mem_take hc))
  have hlength : (t.fraction.take 9).length ≤ 9 := List.length_take_le 9 t.fraction
  calc t.nanos = value (t.fraction.take 9) * 10 ^ (9 - (t.fraction.take 9).length) := rfl
    _ < 10 ^ (t.fraction.take 9).length * 10 ^ (9 - (t.fraction.take 9).length) :=
        Nat.mul_lt_mul_of_pos_right hkept (Nat.pow_pos (by decide))
    _ = 10 ^ 9 := by rw [← Nat.pow_add, Nat.add_sub_cancel' hlength]

/-- Behind the ninth fractional digit stands less than one nano. -/
theorem magnitude_mul (h : ∀ c ∈ t.fraction, isDigit c = true) :
    ∃ rest : ℚ, 0 ≤ rest ∧ rest < 1 ∧
      t.magnitude * 10 ^ 9 = (value t.whole * 10 ^ 9 + t.nanos : Nat) + rest := by
  have hlength : (t.fraction.take 9).length ≤ 9 := List.length_take_le 9 t.fraction
  -- The digits kept and those cut off.
  have hvalue : (value t.fraction : ℚ) =
      value (t.fraction.take 9) * 10 ^ (t.fraction.drop 9).length + value (t.fraction.drop 9) := by
    have hsplit := value_append (t.fraction.take 9) (t.fraction.drop 9)
    rw [List.take_append_drop] at hsplit
    exact_mod_cast hsplit
  have hpow : (10 : ℚ) ^ t.fraction.length =
      10 ^ (t.fraction.take 9).length * 10 ^ (t.fraction.drop 9).length := by
    rw [← pow_add, ← List.length_append, List.take_append_drop]
  have hnine : (10 : ℚ) ^ 9 =
      10 ^ (9 - (t.fraction.take 9).length) * 10 ^ (t.fraction.take 9).length := by
    rw [← pow_add, Nat.sub_add_cancel hlength]
  have hbelow : value (t.fraction.drop 9) < 10 ^ (t.fraction.drop 9).length :=
    value_lt (fun c hc => h c (List.mem_of_mem_drop hc))
  refine ⟨value (t.fraction.drop 9) / 10 ^ (t.fraction.drop 9).length *
    10 ^ (9 - (t.fraction.take 9).length), by positivity, ?_, ?_⟩
  · rcases Nat.lt_or_ge t.fraction.length 9 with hshort | hlong
    · -- Nothing was cut off.
      have hnone : t.fraction.drop 9 = [] := List.drop_of_length_le hshort.le
      rw [hnone]
      norm_num [value]
    · have hkept : (t.fraction.take 9).length = 9 := by
        rw [List.length_take]
        omega
      rw [hkept, Nat.sub_self, pow_zero, mul_one, div_lt_one (by positivity)]
      exact_mod_cast hbelow
  · have hnanos : (t.nanos : ℚ) =
        value (t.fraction.take 9) * 10 ^ (9 - (t.fraction.take 9).length) := by
      exact_mod_cast (rfl : t.nanos = _)
    rw [magnitude, hvalue, hpow, Nat.cast_add, Nat.cast_mul, Nat.cast_pow, Nat.cast_ofNat, hnanos,
      add_mul, add_assoc, add_right_inj, hnine]
    field_simp

/-- The nanos of a numeral are its number truncated at nine digits. -/
theorem truncate_denoted (h : ∀ c ∈ t.fraction, isDigit c = true) :
    truncate (t.denoted * 10 ^ 9) =
      if t.negative then -((value t.whole * 10 ^ 9 + t.nanos : Nat) : Int)
      else (value t.whole * 10 ^ 9 + t.nanos : Nat) := by
  have hmagnitude : truncate (t.magnitude * 10 ^ 9) = (value t.whole * 10 ^ 9 + t.nanos : Nat) := by
    rcases magnitude_mul h with ⟨rest, hnonneg, hlt, hsum⟩
    have hpos : 0 ≤ t.magnitude * 10 ^ 9 := by
      rw [hsum]
      positivity
    rw [truncate_of_nonneg hpos, Int.floor_eq_iff, hsum]
    push_cast
    constructor <;> linarith
  unfold denoted
  split_ifs
  · rw [neg_mul, truncate_neg, hmagnitude]
  · exact hmagnitude

end DecimalText

namespace Amount

open DecimalText

/-- Units and nanos of one sign are a valid amount, of the value they make up. -/
theorem isValid_ofInt (units nanos : Int) (hunits : units.natAbs < 2 ^ 63)
    (hnanos : nanos.natAbs < 10 ^ 9)
    (hsign : (0 ≤ units ∧ 0 ≤ nanos) ∨ (units ≤ 0 ∧ nanos ≤ 0)) :
    isValid ⟨Int64.ofInt units, Int32.ofInt nanos⟩ = true ∧
      inNanos ⟨Int64.ofInt units, Int32.ofInt nanos⟩ = units * 10 ^ 9 + nanos := by
  have hu : (Int64.ofInt units).toInt = units :=
    Int64.toInt_ofInt_of_le (by omega) (by omega)
  have hn : (Int32.ofInt nanos).toInt = nanos :=
    Int32.toInt_ofInt_of_le (by omega) (by omega)
  refine ⟨isValid_iff.2 ?_, ?_⟩
  · rw [hu, hn]
    refine ⟨hnanos, by omega, by omega⟩
  · rw [inNanos, hu, hn]
    rfl

/-- The amount of a numeral whose whole digits fit the units. -/
theorem parse_of_spells {s : String} {t : DecimalText} (h : t.Spells s.toList)
    (hfits : Numeral.value t.whole < 2 ^ 63) :
    ∃ a, parse s = .ok a ∧ a.isValid = true ∧ a.inNanos = truncate (t.denoted * 10 ^ 9) := by
  have hnanos := nanos_lt h.fraction_digits
  rw [parse, read?_eq_some_iff.2 h, truncate_denoted h.fraction_digits]
  simp only
  rw [if_neg (by omega)]
  split_ifs
  · rcases isValid_ofInt (-(Numeral.value t.whole)) (-t.nanos) (by omega) (by omega) (by omega) with
      ⟨hvalid, hvalue⟩
    refine ⟨_, rfl, hvalid, hvalue.trans ?_⟩
    push_cast
    ring
  · rcases isValid_ofInt (Numeral.value t.whole) t.nanos (by omega) (by omega) (by omega) with
      ⟨hvalid, hvalue⟩
    refine ⟨_, rfl, hvalid, hvalue.trans ?_⟩
    push_cast
    ring

theorem parse_of_spells_outOfRange {s : String} {t : DecimalText} (h : t.Spells s.toList)
    (hbig : 2 ^ 63 ≤ Numeral.value t.whole) : parse s = .error .outOfRange := by
  rw [parse, read?_eq_some_iff.2 h]
  exact if_pos hbig

/-- Any other text is malformed. -/
theorem parse_of_not_spells {s : String} (h : ∀ t : DecimalText, ¬ t.Spells s.toList) :
    parse s = .error (.malformed s) := by
  have hnone : read? s.toList = none := by
    cases hread : read? s.toList with
    | none => rfl
    | some t => exact absurd (read?_eq_some_iff.1 hread) (h t)
  rw [parse, hnone]

/-! ## Nothing breaks off -/

/-- The number of bytes of a text. -/
def byteLength (cs : List Char) : Nat :=
  (cs.map Char.utf8Size).sum

/-- The front of a text up to a byte. There is none if the byte is in the middle of a character, or
past the end. -/
def front? : Nat → List Char → Option (List Char)
  | 0, _ => some []
  | _ + 1, [] => none
  | bytes + 1, c :: cs =>
    if c.utf8Size ≤ bytes + 1 then (front? (bytes + 1 - c.utf8Size) cs).map (c :: ·) else none

/-- Reading, with every operation that could break off: the fraction is cut at its ninth byte, and
a number with a minus sign is read without it and negated. None means that one of them did. -/
def parseInSteps? (s : String) : Option (Except AmountError Amount) :=
  let (negative, body) := splitSign s.toList
  let whole := body.takeWhile (· ≠ '.')
  let fraction := (body.dropWhile (· ≠ '.')).drop 1
  if whole.isEmpty && fraction.isEmpty then some (.error (.malformed s))
  else if !(whole.all isDigit && fraction.all isDigit) then some (.error (.malformed s))
  else if 2 ^ 63 ≤ Numeral.value whole then some (.error .outOfRange)
  else
    match front? (min (byteLength fraction) 9) fraction with
    | none => none
    | some kept =>
      let nanos := Numeral.value (kept ++ List.replicate (9 - kept.length) '0')
      if 2 ^ 31 ≤ nanos then some (.error (.malformed s))
      else
        let amount : Amount := ⟨Int64.ofInt (Numeral.value whole), Int32.ofInt nanos⟩
        if negative then amount.neg?.map .ok else some (.ok amount)

/-- A digit is one byte. -/
theorem utf8Size_of_isDigit {c : Char} (h : isDigit c = true) : c.utf8Size = 1 := by
  simp only [isDigit, Bool.and_eq_true, decide_eq_true_eq] at h
  have hlow : c.val ≤ 127 := by
    rw [UInt32.le_iff_toNat_le]
    exact h.2.trans (by decide)
  exact if_pos hlow

theorem byteLength_of_digits {cs : List Char} (h : ∀ c ∈ cs, isDigit c = true) :
    byteLength cs = cs.length := by
  induction cs with
  | nil => rfl
  | cons c cs ih =>
      have hrest := ih (fun d hd => h d (List.mem_cons_of_mem c hd))
      unfold byteLength at hrest ⊢
      rw [List.map_cons, List.sum_cons, hrest, utf8Size_of_isDigit (h c List.mem_cons_self),
        List.length_cons, Nat.add_comm]

/-- Among digits every byte is where a character begins. -/
theorem front?_of_digits {cs : List Char} (h : ∀ c ∈ cs, isDigit c = true) {bytes : Nat}
    (hbytes : bytes ≤ cs.length) : front? bytes cs = some (cs.take bytes) := by
  induction cs generalizing bytes with
  | nil =>
      rw [Nat.le_zero.1 hbytes]
      rfl
  | cons c cs ih =>
      cases bytes with
      | zero => rfl
      | succ bytes =>
          have hrest := ih (fun d hd => h d (List.mem_cons_of_mem c hd))
            (Nat.le_of_succ_le_succ hbytes)
          rw [front?, utf8Size_of_isDigit (h c List.mem_cons_self), if_pos (by omega),
            Nat.add_sub_cancel, hrest]
          rfl

/-- A number that is not below zero has an opposite. -/
theorem neg?_ofNat {units nanos : Nat} (hunits : units < 2 ^ 63) (hnanos : nanos < 2 ^ 31) :
    neg? ⟨Int64.ofInt units, Int32.ofInt nanos⟩ =
      some ⟨Int64.ofInt (-units), Int32.ofInt (-nanos)⟩ := by
  have hu : (Int64.ofInt units).toInt = units :=
    Int64.toInt_ofInt_of_le (by omega) (by omega)
  have hn : (Int32.ofInt nanos).toInt = nanos :=
    Int32.toInt_ofInt_of_le (by omega) (by omega)
  have hleast : ¬ (Int64.ofInt units = Int64.minValue ∨ Int32.ofInt nanos = Int32.minValue) := by
    rw [← Int64.toInt_inj, ← Int32.toInt_inj, hu, hn, Int64.toInt_minValue, Int32.toInt_minValue]
    omega
  rw [neg?, if_neg hleast, Int64.ofInt_neg, Int32.ofInt_neg]

/-- The first nine digits of a fraction, filled up with zeros, are its nanos. -/
theorem value_filled (t : DecimalText) :
    Numeral.value (t.fraction.take 9 ++ List.replicate (9 - (t.fraction.take 9).length) '0') =
      t.nanos := by
  rw [value_append, value_replicate_zero, List.length_replicate, Nat.add_zero]
  rfl

/-- No operation of reading breaks off. -/
theorem parseInSteps?_eq (s : String) : parseInSteps? s = some (parse s) := by
  unfold parseInSteps? parse read?
  simp only
  generalize (splitSign s.toList).1 = negative
  generalize (splitSign s.toList).2 = body
  generalize body.takeWhile (· ≠ '.') = whole
  generalize (body.dropWhile (· ≠ '.')).drop 1 = fraction
  by_cases hempty : (whole.isEmpty && fraction.isEmpty) = true
  · rw [if_pos hempty, if_pos hempty]
  rw [if_neg hempty, if_neg hempty]
  by_cases hall : (whole.all isDigit && fraction.all isDigit) = true
  · rw [if_neg (by rw [hall]; exact Bool.false_ne_true), if_pos hall]
    -- From here on the fraction is all digits.
    rw [Bool.and_eq_true, List.all_eq_true, List.all_eq_true] at hall
    have hnanos := nanos_lt (t := ⟨negative, whole, fraction⟩) hall.2
    have hfilled := value_filled ⟨negative, whole, fraction⟩
    have htake : fraction.take (min fraction.length 9) = fraction.take 9 :=
      List.take_eq_take_iff.2 (by omega)
    simp only [byteLength_of_digits hall.2, front?_of_digits hall.2 (Nat.min_le_left _ 9), htake,
      hfilled]
    rw [if_neg (show ¬ 2 ^ 31 ≤ (⟨negative, whole, fraction⟩ : DecimalText).nanos by omega)]
    split_ifs
    · rfl
    · rw [neg?_ofNat (by omega) (by omega)]
      rfl
    · rfl
  · rw [if_pos (by rw [Bool.not_eq_true] at hall; rw [hall]; rfl), if_neg hall]

/-- Exactly the decimal numerals are read. If the whole digits of one denote more than the units can
hold, that is out of range; otherwise its amount is the valid one of the number it stands for,
truncated at nine digits, with the sign in the nanos where there are no units. Whatever the text,
nothing breaks off. -/
theorem parse_exact (s : String) :
    (∀ t : DecimalText, t.Spells s.toList →
      (parse s = .error .outOfRange ↔ 2 ^ 63 - 1 < Numeral.value t.whole) ∧
      (Numeral.value t.whole ≤ 2 ^ 63 - 1 → ∃ a, parse s = .ok a ∧ a.isValid = true ∧
        a.inNanos = truncate (t.denoted * 10 ^ 9) ∧
        (a.units = 0 → a.nanos.toInt = truncate (t.denoted * 10 ^ 9)))) ∧
    ((∀ t : DecimalText, ¬ t.Spells s.toList) → parse s = .error (.malformed s)) ∧
    parseInSteps? s = some (parse s) := by
  refine ⟨fun t ht => ⟨?_, fun hfits => ?_⟩, parse_of_not_spells, parseInSteps?_eq s⟩
  · constructor
    · intro herror
      by_contra hsmall
      rcases parse_of_spells ht (by omega) with ⟨a, ha, -⟩
      rw [herror] at ha
      exact absurd ha (by simp only [reduceCtorEq, not_false_eq_true])
    · intro hbig
      exact parse_of_spells_outOfRange ht (by omega)
  · rcases parse_of_spells ht (by omega) with ⟨a, ha, hvalid, hvalue⟩
    refine ⟨a, ha, hvalid, hvalue, fun hzero => ?_⟩
    rw [← hvalue, inNanos, hzero, Int64.toInt_zero, zero_mul, zero_add]

/-- A debt of one nano and nine tenths with nothing before the point, a number with leading zeros
that is one too large, and a digit with a letter of two bytes behind the point. -/
theorem parse_exact_unusual :
    (∃ a, parse "-.0000000019" = .ok a ∧ a.isValid = true ∧ a.inNanos = -1) ∧
    parse "+0009223372036854775808" = .error .outOfRange ∧
    parse "1.\u00e9" = .error (.malformed "1.\u00e9") := by
  refine ⟨?_, ?_, ?_⟩
  · have hspells : Spells ⟨true, [], "0000000019".toList⟩ "-.0000000019".toList :=
      ⟨⟨['-'], _, .minus, .point [] _, rfl⟩, List.all_eq_true.1 (by decide), by decide⟩
    rcases ((parse_exact _).1 _ hspells).2 (by decide) with ⟨a, ha, hvalid, hvalue, -⟩
    exact ⟨a, ha, hvalid, hvalue.trans (by decide +kernel)⟩
  · have hspells : Spells ⟨false, "0009223372036854775808".toList, []⟩
        "+0009223372036854775808".toList :=
      ⟨⟨['+'], _, .plus, .plain _, rfl⟩, List.all_eq_true.1 (by decide), by decide⟩
    exact ((parse_exact _).1 _ hspells).1.2 (by decide)
  · refine (parse_exact "1.\u00e9").2.1 (fun t ht => ?_)
    have hnone : read? "1.\u00e9".toList = none := by decide
    rw [read?_eq_some_iff.2 ht] at hnone
    exact absurd hnone (by simp only [reduceCtorEq, not_false_eq_true])

end Amount

end Bourse
