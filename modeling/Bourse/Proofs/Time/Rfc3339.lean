import Bourse.Time.Rfc3339
import Bourse.Proofs.Text.Numeral
import Bourse.Proofs.Time.Calendar

/-!
# Reading Timestamps Back

A timestamp is read back from its text to the nanosecond. Each field of the text ends at a
mark that is no digit, so the reader of a field takes what was written and leaves the mark.

A leap second is written as second 60, and that is how it is told from the second after it.
Only the last second of a minute can be written so. Nanoseconds past a billion in any other
second, which no clock gives and no text names, are written like the second after it, and so
they are read back as that.

## Main definitions

* `Timestamp.Representable`: a timestamp that there can be.
* `Timestamp.WellFormed`: a timestamp that a clock can give.
* `Timestamp.settled`: a timestamp as its text has it.

## Theorems

* `readYear_yearText`, `readPair_fixed`, `readFraction_fractionText`: fields are read back.
* `ofRfc3339?_rfc3339`: a timestamp is read back from its text.
* `rfc3339_stray`: what is written for nanoseconds past a billion inside a minute.
* `wellFormed_settled`, `rfc3339_settled`: every timestamp is written like one that is read back.
-/

namespace Bourse.Timestamp

-- Powers are those of the core library, whatever else is imported.
attribute [local instance (high)] instPowNat

open Text Numeral

/-- A timestamp that there can be: its second exists, and it has fewer than two billion
nanoseconds. -/
structure Representable (t : Timestamp) : Prop where
  exists_second : inRange t.seconds = true
  nanos_lt : t.nanos < 2000000000

instance (t : Timestamp) : Decidable t.Representable :=
  decidable_of_iff (inRange t.seconds = true ∧ t.nanos < 2000000000)
    ⟨fun h => ⟨h.1, h.2⟩, fun h => ⟨h.1, h.2⟩⟩

/-- A timestamp that a clock can give: its second exists, and only the last second of a minute
can be a leap second. -/
structure WellFormed (t : Timestamp) : Prop where
  exists_second : inRange t.seconds = true
  nanos_lt : t.nanos < 2000000000
  minute_end : 1000000000 ≤ t.nanos → t.seconds % 60 = 59

instance (t : Timestamp) : Decidable t.WellFormed :=
  decidable_of_iff (inRange t.seconds = true ∧ t.nanos < 2000000000 ∧
      (1000000000 ≤ t.nanos → t.seconds % 60 = 59))
    ⟨fun h => ⟨h.1, h.2.1, h.2.2⟩, fun h => ⟨h.1, h.2, h.3⟩⟩

/-! ## Fields -/

theorem trimStart_cons {c : Char} (rest : List Char) (h : isBlank c = false) :
    trimStart (c :: rest) = c :: rest :=
  List.dropWhile_cons_of_neg (by rw [h]; exact Bool.false_ne_true)

theorem isBlank_of_isDigit {c : Char} (h : isDigit c = true) : isBlank c = false := by
  simp only [isDigit, Bool.and_eq_true, decide_eq_true_eq] at h
  simp only [isBlank, Bool.or_eq_false_iff, Bool.and_eq_false_iff, decide_eq_false_iff_not]
  omega

theorem trimStart_numeral {ds : List Char} (rest : List Char) (hds : ∀ c ∈ ds, isDigit c = true)
    (hne : ds ≠ []) : trimStart (ds ++ rest) = ds ++ rest := by
  rcases List.exists_cons_of_ne_nil hne with ⟨c, cs, rfl⟩
  exact trimStart_cons _ (isBlank_of_isDigit (hds c List.mem_cons_self))

/-- A numeral that is not too long is read back, if no digit follows it. -/
theorem readField_numeral {width : Nat} {ds rest : List Char}
    (hds : ∀ c ∈ ds, isDigit c = true) (hne : ds ≠ []) (hwidth : ds.length ≤ width)
    (hrest : NoDigitAhead rest) : readField width (ds ++ rest) = some (value ds, rest) := by
  simp only [readField, takeWhile_numeral hds hrest, List.take_of_length_le hwidth,
    List.isEmpty_iff, hne, if_false, List.drop_left]

theorem fixed_ne_nil (width n : Nat) (h : width ≠ 0) : fixed width n ≠ [] := by
  intro hf
  have hlength := length_fixed width n
  rw [hf] at hlength
  exact h hlength.symm

theorem readField_fixed {width most n : Nat} {rest : List Char} (hpos : width ≠ 0)
    (hwidth : width ≤ most) (hn : n < 10 ^ width) (hrest : NoDigitAhead rest) :
    readField most (fixed width n ++ rest) = some (n, rest) := by
  rw [readField_numeral (fun _ hc => isDigit_of_mem_fixed hc) (fixed_ne_nil width n hpos)
    (by rw [length_fixed]; exact hwidth) hrest, value_fixed hn]

/-- Two digits are read back. -/
theorem readPair_fixed {n : Nat} {rest : List Char} (hn : n < 100) (hrest : NoDigitAhead rest) :
    readPair (fixed 2 n ++ rest) = some (n, rest) := by
  rw [readPair, trimStart_numeral rest (fun _ hc => isDigit_of_mem_fixed hc)
    (fixed_ne_nil 2 n (by omega))]
  exact readField_fixed (by omega) (Nat.le_refl 2) hn hrest

theorem skipMark_cons {mark : Char} (rest : List Char) (h : isBlank mark = false) :
    skipMark mark (mark :: rest) = some rest := by
  rw [skipMark, trimStart_cons rest h]
  exact if_pos rfl

theorem padded_ne_nil (width n : Nat) : padded width n ≠ [] :=
  List.append_ne_nil_of_right_ne_nil _ (digits_ne_nil n)

/-- A year behind its sign is read back. -/
theorem readField_padded (n : Nat) {rest : List Char} (hrest : NoDigitAhead rest) :
    readField (padded 4 n ++ rest).length (padded 4 n ++ rest) = some (n, rest) := by
  rw [readField_numeral (fun _ hc => isDigit_of_mem_padded hc) (padded_ne_nil 4 n)
    (by rw [List.length_append]; omega) hrest, value_padded]

/-- A year is read back, in whichever form it is written. -/
theorem readYear_yearText (y : Int) {rest : List Char} (hrest : NoDigitAhead rest) :
    readYear (yearText y ++ rest) = some (y, rest) := by
  rw [yearText]
  split_ifs with hshort hneg
  · have hread := readField_fixed (n := y.toNat) (by omega) (Nat.le_refl 4)
      (show y.toNat < 10 ^ 4 by omega) hrest
    have htrim := trimStart_numeral rest (fun _ hc => isDigit_of_mem_fixed hc)
      (fixed_ne_nil 4 y.toNat (by omega))
    rw [readYear, htrim]
    -- The first digit is no sign.
    have hsign : ∀ c cs, fixed 4 y.toNat ++ rest = c :: cs → isDigit c = true := by
      intro c cs heq
      rcases List.exists_cons_of_ne_nil (fixed_ne_nil 4 y.toNat (by omega)) with
        ⟨d, ds, hds⟩
      rw [hds] at heq
      rw [← (List.cons.inj heq).1]
      exact isDigit_of_mem_fixed (n := y.toNat) (hds ▸ List.mem_cons_self)
    split
    · next cs heq => exact absurd (hsign _ _ heq) (by decide)
    · next cs heq => exact absurd (hsign _ _ heq) (by decide)
    · rw [hread, Option.map_some, show (y.toNat : Int) = y by omega]
  · rw [List.cons_append, readYear, trimStart_cons _ rfl]
    simp only [readField_padded y.natAbs hrest, Option.map_some]
    rw [show -(y.natAbs : Int) = y by omega]
  · rw [List.cons_append, readYear, trimStart_cons _ rfl]
    simp only [readField_padded y.natAbs hrest, Option.map_some]
    rw [show (y.natAbs : Int) = y by omega]

/-- A fraction of so many digits is read back in nanoseconds. -/
theorem readFraction_fixed {width n : Nat} {rest : List Char} (hpos : width ≠ 0)
    (hwidth : width ≤ 9) (hn : n < 10 ^ width) (hrest : NoDigitAhead rest) :
    readFraction ('.' :: (fixed width n ++ rest)) = some (n * 10 ^ (9 - width), rest) := by
  rw [readFraction, readField_fixed hpos hwidth hn hrest, Option.map_some]
  have hlength : (fixed width n ++ rest).length - rest.length = width := by
    rw [List.length_append, length_fixed]
    omega
  have hdrop : ([] ++ rest).dropWhile isDigit = rest :=
    dropWhile_numeral (fun _ hc => absurd hc List.not_mem_nil) hrest
  rw [List.nil_append] at hdrop
  rw [hlength, hdrop]

/-- The fraction of a second is read back, however many digits it has. -/
theorem readFraction_fractionText {n : Nat} (h : n < 1000000000) :
    readFraction (fractionText n ++ ['Z']) = some (n, ['Z']) := by
  have hz : NoDigitAhead ['Z'] := noDigitAhead_cons [] rfl
  rw [fractionText]
  split_ifs with h0 h3 h6
  · rw [h0]
    rfl
  · rw [List.cons_append, readFraction_fixed (by omega) (by omega)
      (show n / 1000000 < 10 ^ 3 by omega) hz, show n / 1000000 * 10 ^ (9 - 3) = n by omega]
  · rw [List.cons_append, readFraction_fixed (by omega) (by omega)
      (show n / 1000 < 10 ^ 6 by omega) hz, show n / 1000 * 10 ^ (9 - 6) = n by omega]
  · rw [List.cons_append, readFraction_fixed (by omega) (by omega)
      (show n < 10 ^ 9 by omega) hz, show n * 10 ^ (9 - 9) = n by omega]

/-! ## Whole timestamps -/

/-- A text is read as the timestamp that has the date, the time of day and the fraction which
the text names. -/
theorem ofRfc3339?_fields {date : Date} {hour minute second nanos : Nat}
    (hvalid : date.isValid = true) (hmonth : date.month < 100) (hday : date.day < 100)
    (hhour : hour ≤ 23) (hminute : minute ≤ 59) (hsecond : second ≤ 60)
    (hnanos : nanos < 1000000000) {t : Timestamp}
    (hseconds : date.toDays * 86400 +
      (hour * 3600 + minute * 60 + (if second = 60 then 59 else second) : Nat) = t.seconds)
    (hleap : (if second = 60 then nanos + 1000000000 else nanos) = t.nanos)
    (hrange : inRange t.seconds = true) :
    ofRfc3339? (String.ofList (yearText date.year ++ '-' :: fixed 2 date.month
      ++ '-' :: fixed 2 date.day ++ 'T' :: fixed 2 hour ++ ':' :: fixed 2 minute
      ++ ':' :: fixed 2 second ++ fractionText nanos ++ ['Z'])) = some t := by
  have hz : NoDigitAhead (fractionText nanos ++ ['Z']) := by
    rw [fractionText]
    split_ifs <;> exact noDigitAhead_cons _ rfl
  have hfields : (!date.isValid || decide (23 < hour) || decide (59 < minute)
      || decide (60 < second)) = false := by
    rw [hvalid, decide_eq_false (by omega), decide_eq_false (by omega), decide_eq_false (by omega)]
    rfl
  -- No mark is a digit, and the reader of a mark finds it at once.
  have hdash : ∀ rest, NoDigitAhead ('-' :: rest) := fun rest => noDigitAhead_cons rest rfl
  have htime : ∀ rest, NoDigitAhead ('T' :: rest) := fun rest => noDigitAhead_cons rest rfl
  have hcolon : ∀ rest, NoDigitAhead (':' :: rest) := fun rest => noDigitAhead_cons rest rfl
  have hskipDash : ∀ rest, skipMark '-' ('-' :: rest) = some rest :=
    fun rest => skipMark_cons rest rfl
  have hskipColon : ∀ rest, skipMark ':' (':' :: rest) = some rest :=
    fun rest => skipMark_cons rest rfl
  have hoffset : readOffset (trimStart ['Z']) = some (0, []) := rfl
  have hmark : isTimeMark 'T' = true := rfl
  have hend : (!(trimStart []).isEmpty) = false := rfl
  have hpair : (if second = 60 then (59, nanos + 1000000000) else (second, nanos)) =
      (if second = 60 then 59 else second, t.nanos) := by
    rw [← hleap]
    split_ifs <;> rfl
  have hhour' : hour < 100 := by omega
  have hminute' : minute < 100 := by omega
  have hsecond' : second < 100 := by omega
  rw [ofRfc3339?, String.toList_ofList]
  simp only [List.append_assoc, List.cons_append]
  -- The fields are read one after the other, each up to its mark.
  rw [readYear_yearText date.year (hdash _), Option.bind_eq_bind, Option.bind_some, hskipDash,
    Option.bind_eq_bind, Option.bind_some, readPair_fixed hmonth (hdash _), Option.bind_eq_bind,
    Option.bind_some, hskipDash, Option.bind_some, readPair_fixed hday (htime _), Option.bind_some]
  dsimp only
  rw [hmark, if_pos rfl, Option.bind_some, readPair_fixed hhour' (hcolon _), Option.bind_some,
    hskipColon, Option.bind_some, readPair_fixed hminute' (hcolon _), Option.bind_some, hskipColon,
    Option.bind_some, readPair_fixed hsecond' hz, Option.bind_some,
    readFraction_fractionText hnanos, Option.bind_some, hoffset, Option.bind_some]
  dsimp only
  rw [hend, if_neg Bool.false_ne_true, hfields, if_neg Bool.false_ne_true, hpair, hseconds,
    Int.sub_zero, hrange, Bool.and_self, if_pos rfl]

/-- A timestamp is read back from its text. -/
theorem ofRfc3339?_rfc3339 {t : Timestamp} (h : t.WellFormed) :
    ofRfc3339? t.rfc3339 = some t := by
  have hnanos := h.nanos_lt
  have hminute := h.minute_end
  rcases Date.ofDays_lt (t.seconds / 86400) with ⟨hmonth, hday⟩
  refine ofRfc3339?_fields (Date.isValid_ofDays _) hmonth hday (by omega) (by omega) ?_ ?_ ?_ ?_
    h.exists_second
  · split_ifs <;> omega
  · split_ifs <;> omega
  · rw [Date.toDays_ofDays]
    split_ifs <;> omega
  · split_ifs <;> omega

-- A leap second of the end of 2016, and a time in the year before the year 0.
example : rfc3339 ⟨1483228799, 1500000000⟩ = "2016-12-31T23:59:60.500Z" := by cbv

example : rfc3339 ⟨-62167219201, 1⟩ = "-0001-12-31T23:59:59.000000001Z" := by cbv

/-- Nanoseconds past a billion are written like those of the second after, unless the minute
ends there. -/
theorem rfc3339_stray {t : Timestamp} (hstray : 1000000000 ≤ t.nanos) (hnanos : t.nanos < 2000000000)
    (hinside : t.seconds % 60 ≠ 59) :
    t.rfc3339 = rfc3339 ⟨t.seconds + 1, t.nanos - 1000000000⟩ := by
  have hday : (t.seconds + 1) / 86400 = t.seconds / 86400 := by omega
  have hhour : ((t.seconds + 1) % 86400).toNat / 3600 = (t.seconds % 86400).toNat / 3600 := by omega
  have hminute : ((t.seconds + 1) % 86400).toNat / 60 % 60 =
      (t.seconds % 86400).toNat / 60 % 60 := by
    omega
  have hsecond : ((t.seconds + 1) % 86400).toNat % 60 = (t.seconds % 86400).toNat % 60 + 1 := by
    omega
  have hplain : ¬ 1000000000 ≤ t.nanos - 1000000000 := by omega
  simp only [rfc3339, hday, hhour, hminute, hsecond, hstray, hplain, if_true, if_false]

/-- A timestamp as its text has it: nanoseconds past a billion inside of a minute belong to the
second after. -/
def settled (t : Timestamp) : Timestamp :=
  if 1000000000 ≤ t.nanos ∧ t.seconds % 60 ≠ 59 then ⟨t.seconds + 1, t.nanos - 1000000000⟩ else t

theorem settled_of_wellFormed {t : Timestamp} (h : t.WellFormed) : t.settled = t :=
  if_neg (fun hstray => hstray.2 (h.minute_end hstray.1))

/-- The last second there is ends a minute, so there is always a second after. -/
theorem wellFormed_settled {t : Timestamp} (h : t.Representable) : t.settled.WellFormed := by
  have hsecond := h.exists_second
  have hnanos := h.nanos_lt
  rw [inRange, Bool.and_eq_true, decide_eq_true_iff, decide_eq_true_iff, minSeconds, maxSeconds]
    at hsecond
  rw [settled]
  split
  · next hstray =>
    refine ⟨?_, by dsimp only; omega, fun hleap => by dsimp only at hleap; omega⟩
    rw [inRange, Bool.and_eq_true, decide_eq_true_iff, decide_eq_true_iff, minSeconds, maxSeconds]
    dsimp only
    omega
  · next hplain => exact ⟨h.exists_second, hnanos, fun hleap => by omega⟩

/-- A timestamp is written as its text has it. -/
theorem rfc3339_settled {t : Timestamp} (h : t.Representable) : t.settled.rfc3339 = t.rfc3339 := by
  rw [settled]
  split
  · next hstray => exact (rfc3339_stray hstray.1 h.nanos_lt hstray.2).symm
  · rfl

end Bourse.Timestamp
