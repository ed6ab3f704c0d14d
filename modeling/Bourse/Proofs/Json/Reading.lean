import Bourse.Json.Printer
import Bourse.Json.Reader
import Bourse.Proofs.Text.Numeral

/-!
# Reading Back What Was Written

The compact form of a value is read back as that value. Each reader takes off the front
of the text what the printer has put there and leaves the rest. A string ends at its quote
and a list at its bracket; only a number has no end of its own, so what follows it has to be
a comma or a bracket, and in the compact form nothing else follows a value.

## Main definitions

* `Json.Plain`: a value of which all strings have a text and all numbers are integers.
* `Json.Delimited`: a text that is at its end, or goes on with a comma or a bracket.

## Theorems

* `readNumber_integer`: an integer is read back.
* `readString_literal`: a string is read back, whatever characters it has.
* `readValue_render`: a value is read back from the front of a text.
* `parse_text`: a value is read back from its compact form.
-/

namespace Bourse

namespace Json

open Numeral

variable {j : Json}

/-- A value of which all strings have a text and all numbers are integers. -/
inductive Plain : Json → Prop
  | null : Plain .null
  | bool (b : Bool) : Plain (.bool b)
  | integer (n : Int) : Plain (.number (.integer n))
  | string (s : String) : Plain (.string (some s))
  | array (l : List Json) (elements : ∀ j ∈ l, Plain j) : Plain (.array l)
  | object (l : List (String × Json)) (members : ∀ m ∈ l, Plain m.2) : Plain (ofMembers l)

/-- A text that is at its end, or goes on with a comma or a closing bracket. -/
def Delimited (rest : List Char) : Prop :=
  ∀ c ∈ rest.head?, c = ',' ∨ c = ']' ∨ c = '\x7d'

theorem delimited_nil : Delimited [] := by
  intro c hc
  cases hc

theorem delimited_cons {c : Char} (rest : List Char) (h : c = ',' ∨ c = ']' ∨ c = '\x7d') :
    Delimited (c :: rest) := by
  intro d hd
  rw [← Option.some.inj hd]
  exact h

theorem Delimited.noDigitAhead {rest : List Char} (h : Delimited rest) : NoDigitAhead rest := by
  intro c hc
  rcases h c hc with rfl | rfl | rfl <;> rfl

/-! ## Numbers -/

theorem readDigits_numeral {ds rest : List Char} (hds : ∀ c ∈ ds, isDigit c = true)
    (hne : ds ≠ []) (hrest : NoDigitAhead rest) : readDigits (ds ++ rest) = some (ds, rest) := by
  simp only [readDigits, takeWhile_numeral hds hrest, dropWhile_numeral hds hrest,
    List.isEmpty_iff, hne, if_false]

theorem readFraction_of_delimited {rest : List Char} (h : Delimited rest) :
    readFraction rest = some ([], rest) := by
  unfold readFraction
  split
  · next ds =>
    exact absurd (h '.' rfl) (by decide)
  · rfl

theorem readExponent_of_delimited {rest : List Char} (h : Delimited rest) :
    readExponent rest = some (none, rest) := by
  unfold readExponent
  split
  · next ds =>
    exact absurd (h 'e' rfl) (by decide)
  · next ds =>
    exact absurd (h 'E' rfl) (by decide)
  · rfl

/-- The digits of a number have no zero in front that does not belong there. -/
theorem not_leading_zero (n : Nat) : ¬ ((digits n).head? = some '0' ∧ 1 < (digits n).length) := by
  rintro ⟨hzero, hlength⟩
  by_cases hn : n = 0
  · rw [hn, digits, if_pos (by omega)] at hlength
    exact absurd hlength (Nat.lt_irrefl 1)
  · exact head?_digits hn hzero

theorem literalOf_digits (negative : Bool) (n : Nat) (h : negative = true → n ≠ 0) :
    literalOf negative (digits n) [] none = .integer (if negative then -n else n) := by
  cases negative with
  | false => simp only [literalOf, value_digits, List.isEmpty_nil, Option.isNone_none,
      Bool.and_self, Bool.false_and, Bool.not_false, if_true]
  | true => simp only [literalOf, value_digits, List.isEmpty_nil, Option.isNone_none,
      Bool.and_self, h rfl, decide_false, Bool.and_false, Bool.not_false, if_true]

theorem exists_digits (n : Nat) : ∃ c ds, digits n = c :: ds ∧ isDigit c = true := by
  rcases List.exists_cons_of_ne_nil (digits_ne_nil n) with ⟨c, ds, h⟩
  refine ⟨c, ds, h, isDigit_of_mem_digits (n := n) ?_⟩
  rw [h]
  exact List.mem_cons_self

/-- An integer is read back, as long as a comma, a bracket or nothing follows it. -/
theorem readNumber_integer (n : Int) {rest : List Char} (h : Delimited rest) :
    readNumber (integer n ++ rest) = some (.integer n, rest) := by
  have hread : readDigits (digits n.natAbs ++ rest) = some (digits n.natAbs, rest) :=
    readDigits_numeral (fun _ hc => isDigit_of_mem_digits hc) (digits_ne_nil _) h.noDigitAhead
  unfold integer
  split_ifs with hn
  · have hvalue := literalOf_digits true n.natAbs (fun _ => by omega)
    rw [if_pos rfl, show -(n.natAbs : Int) = n by omega] at hvalue
    rw [List.cons_append, readNumber]
    simp only [hread, not_leading_zero, if_false, readFraction_of_delimited h,
      readExponent_of_delimited h, hvalue]
  · have hvalue := literalOf_digits false n.natAbs (fun hf => absurd hf Bool.false_ne_true)
    rw [if_neg Bool.false_ne_true, show (n.natAbs : Int) = n by omega] at hvalue
    unfold readNumber
    split
    next negative body hsign =>
    -- The first digit is no sign.
    have hnone : negative = false ∧ body = digits n.natAbs ++ rest := by
      rcases exists_digits n.natAbs with ⟨c, ds, hds, hc⟩
      rw [hds, List.cons_append] at hsign ⊢
      split at hsign
      · next heq =>
        rw [(List.cons.inj heq).1] at hc
        exact absurd hc (by decide)
      · exact ⟨(Prod.mk.inj hsign).1.symm, (Prod.mk.inj hsign).2.symm⟩
    rw [hnone.1, hnone.2]
    simp only [hread, not_leading_zero, if_false, readFraction_of_delimited h,
      readExponent_of_delimited h, hvalue]

/-! ## Strings -/

/-- Whether a character inside a string is written by its code. -/
def IsCoded (c : Char) : Prop :=
  c.toNat < 32 ∧ c.toNat ≠ 8 ∧ c.toNat ≠ 9 ∧ c.toNat ≠ 10 ∧ c.toNat ≠ 12 ∧ c.toNat ≠ 13

instance : DecidablePred IsCoded := fun _ =>
  inferInstanceAs (Decidable (_ ∧ _))

/-- What a reader makes of one character as it stands inside a string. -/
def piece (c : Char) : Piece :=
  if IsCoded c then .unit c.toNat else .char c

theorem hexUnit?_digitChars : ∀ n < 32,
    hexUnit? '0' '0' (digitChar (n / 16)) (digitChar (n % 16)) = some n := by
  decide

theorem readPieces_letter {e c : Char} (rest : List Char) (he : e ≠ 'u')
    (hc : simpleEscape? e = some c) :
    readPieces ('\\' :: e :: rest) = (readPieces rest).map (fun r => (.char c :: r.1, r.2)) := by
  rw [readPieces.eq_4 e rest (fun _ _ _ _ _ h _ => he h), hc]
  cases readPieces rest <;> rfl

theorem readPieces_code {n : Nat} (rest : List Char) (hn : n < 32) :
    readPieces ('\\' :: 'u' :: '0' :: '0' :: digitChar (n / 16) :: digitChar (n % 16) :: rest) =
      (readPieces rest).map (fun r => (.unit n :: r.1, r.2)) := by
  rw [readPieces, hexUnit?_digitChars n hn]
  cases readPieces rest <;> rfl

theorem readPieces_plain {c : Char} (rest : List Char) (hquote : c ≠ '"') (hslash : c ≠ '\\')
    (hlow : 32 ≤ c.toNat) :
    readPieces (c :: rest) = (readPieces rest).map (fun r => (.char c :: r.1, r.2)) := by
  rw [readPieces.eq_5 c rest hquote (fun _ _ _ _ _ h _ => hslash h) (fun _ _ h _ => hslash h),
    if_neg (not_or.2 ⟨by omega, hslash⟩)]

theorem eq_of_toNat {c : Char} {n : Nat} (h : c.toNat = n) : c = Char.ofNat n := by
  rw [← h, Char.ofNat_toNat]

/-- One character is read back from inside a string. -/
theorem readPieces_escaped (c : Char) (rest : List Char) :
    readPieces (escaped c ++ rest) = (readPieces rest).map (fun r => (piece c :: r.1, r.2)) := by
  dsimp only [escaped]
  split_ifs with hquote hslash h8 h9 h10 h12 h13 h32
  · rw [hquote]
    exact readPieces_letter rest (by decide) rfl
  · rw [hslash]
    exact readPieces_letter rest (by decide) rfl
  · rw [eq_of_toNat h8]
    exact readPieces_letter rest (by decide) rfl
  · rw [eq_of_toNat h9]
    exact readPieces_letter rest (by decide) rfl
  · rw [eq_of_toNat h10]
    exact readPieces_letter rest (by decide) rfl
  · rw [eq_of_toNat h12]
    exact readPieces_letter rest (by decide) rfl
  · rw [eq_of_toNat h13]
    exact readPieces_letter rest (by decide) rfl
  · rw [piece, if_pos ⟨h32, h8, h9, h10, h12, h13⟩]
    exact readPieces_code rest h32
  · rw [piece, if_neg (fun h => h32 h.1)]
    exact readPieces_plain rest hquote hslash (by omega)

/-- All characters of a string are read back, up to its closing quote. -/
theorem readPieces_literal (cs rest : List Char) :
    readPieces (cs.flatMap escaped ++ '"' :: rest) = some (cs.map piece, rest) := by
  induction cs with
  | nil => rfl
  | cons c cs ih =>
      rw [List.flatMap_cons, List.append_assoc, readPieces_escaped, ih]
      rfl

/-- A code that is no half of a pair is a character of its own. -/
theorem assemble_unit {n : Nat} (h : n < 32) (rest : List Piece) :
    assemble (.unit n :: rest) = (assemble rest).map (Char.ofNat n :: ·) := by
  have hhigh : isHigh n = false := by
    rw [isHigh, decide_eq_false (by omega), Bool.false_and]
  have hlow : isLow n = false := by
    rw [isLow, decide_eq_false (by omega), Bool.false_and]
  cases rest with
  | nil => simp only [assemble, hhigh, hlow, Bool.or_self, Bool.false_eq_true, if_false]
  | cons p rest =>
      cases p with
      | char c => simp only [assemble, hhigh, hlow, Bool.or_self, Bool.false_eq_true, if_false]
      | unit lo => simp only [assemble, hhigh, hlow, Bool.false_eq_true, if_false]

theorem assemble_pieces (cs : List Char) : assemble (cs.map piece) = some cs := by
  induction cs with
  | nil => rfl
  | cons c cs ih =>
      rw [List.map_cons, piece]
      split_ifs with h
      · rw [assemble_unit h.1, ih, Char.ofNat_toNat]
        rfl
      · rw [assemble, ih]
        rfl

/-- A string is read back, whatever characters it has. -/
theorem readString_literal (s : String) (rest : List Char) :
    readString (s.toList.flatMap escaped ++ '"' :: rest) = some (some s, rest) := by
  rw [readString, readPieces_literal, Option.map_some, assemble_pieces, Option.map_some,
    String.ofList_toList]

/-! ## What a value is written as -/

theorem skipSpace_cons {c : Char} (rest : List Char) (h : isSpace c = false) :
    skipSpace (c :: rest) = c :: rest :=
  List.dropWhile_cons_of_neg (by rw [h]; exact Bool.false_ne_true)

theorem isDigit_ne {c : Char} (h : isDigit c = true) :
    isSpace c = false ∧ c ≠ ']' ∧ c ≠ '\x7d' := by
  simp only [isDigit, Bool.and_eq_true, decide_eq_true_eq] at h
  refine ⟨?_, ?_, ?_⟩
  · simp only [isSpace, Bool.or_eq_false_iff, decide_eq_false_iff_not]
    refine ⟨⟨⟨?_, ?_⟩, ?_⟩, ?_⟩ <;>
    · rintro rfl
      exact absurd h (by decide)
  · rintro rfl
    exact absurd h (by decide)
  · rintro rfl
    exact absurd h (by decide)

/-- A value begins with no blank and no closing bracket. -/
theorem exists_render (h : Plain j) (rest : List Char) : ∃ c cs, render j rest = c :: cs ∧
    isSpace c = false ∧ c ≠ ']' ∧ c ≠ '\x7d' := by
  cases h with
  | null => exact ⟨_, _, rfl, rfl, by decide, by decide⟩
  | bool b => cases b <;> exact ⟨_, _, rfl, rfl, by decide, by decide⟩
  | integer n =>
      rw [render, Number.chars, integer]
      split_ifs
      · exact ⟨_, _, rfl, rfl, by decide, by decide⟩
      · rcases exists_digits n.natAbs with ⟨c, ds, hds, hc⟩
        rw [hds]
        exact ⟨c, _, rfl, isDigit_ne hc⟩
  | string s => exact ⟨_, _, rfl, rfl, by decide, by decide⟩
  | array l _ => exact ⟨_, _, rfl, rfl, by decide, by decide⟩
  | object l _ => exact ⟨_, _, rfl, rfl, by decide, by decide⟩

theorem renderElements_append {l : List Json}
    (h : ∀ j ∈ l, ∀ rest, render j rest = render j [] ++ rest) (rest : List Char) :
    renderElements l rest = renderElements l [] ++ rest := by
  induction l with
  | nil => rfl
  | cons j l ih =>
      cases l with
      | nil => exact h j List.mem_cons_self rest
      | cons k l =>
          rw [renderElements, renderElements, h j List.mem_cons_self,
            h j List.mem_cons_self (',' :: renderElements (k :: l) []),
            ih (fun i hi => h i (List.mem_cons_of_mem j hi)), List.append_assoc, List.cons_append]

theorem renderMembers_append {l : List (String × Json)}
    (h : ∀ m ∈ l, ∀ rest, render m.2 rest = render m.2 [] ++ rest) (rest : List Char) :
    renderMembers (l.map (fun m => (some m.1, m.2))) rest =
      renderMembers (l.map (fun m => (some m.1, m.2))) [] ++ rest := by
  induction l with
  | nil => rfl
  | cons m l ih =>
      have ih := ih (fun i hi => h i (List.mem_cons_of_mem m hi))
      cases l with
      | nil =>
          simp only [List.map_cons, List.map_nil, renderMembers]
          rw [h m List.mem_cons_self, List.append_assoc, List.cons_append]
      | cons k l =>
          simp only [List.map_cons, renderMembers] at ih ⊢
          rw [h m List.mem_cons_self,
            h m List.mem_cons_self (',' :: renderMembers ((some k.1, k.2) ::
              l.map (fun m => (some m.1, m.2))) []),
            ih, List.append_assoc, List.cons_append, List.append_assoc, List.cons_append]

/-- What follows a value is written after it. -/
theorem render_append (h : Plain j) (rest : List Char) : render j rest = render j [] ++ rest := by
  induction h generalizing rest with
  | null => rfl
  | bool b => cases b <;> rfl
  | integer n => rw [render, render, List.append_nil]
  | string s => rw [render, render, List.append_nil]
  | array l _ ih =>
      rw [render, render, renderElements_append ih, renderElements_append ih [']'],
        List.cons_append, List.append_assoc]
      rfl
  | object l _ ih =>
      rw [ofMembers, render, render, renderMembers_append ih, renderMembers_append ih ['\x7d'],
        List.cons_append, List.append_assoc]
      rfl

/-! ## Lengths -/

theorem length_render_pos (h : Plain j) : 0 < (render j []).length := by
  rcases exists_render h [] with ⟨c, cs, heq, -⟩
  rw [heq]
  exact Nat.succ_pos _

/-- Elements are shorter than their list, and there are no more of them than characters. -/
theorem length_renderElements {l : List Json} (h : ∀ j ∈ l, Plain j) :
    l.length ≤ (renderElements l []).length ∧
      ∀ j ∈ l, (render j []).length ≤ (renderElements l []).length := by
  induction l with
  | nil => exact ⟨Nat.le_refl _, fun j hj => absurd hj List.not_mem_nil⟩
  | cons j l ih =>
      have hpos := length_render_pos (h j List.mem_cons_self)
      rcases ih (fun i hi => h i (List.mem_cons_of_mem j hi)) with ⟨hlength, hle⟩
      cases l with
      | nil =>
          refine ⟨hpos, fun i hi => ?_⟩
          rw [List.mem_singleton.1 hi]
          exact Nat.le_refl _
      | cons k l =>
          have hwhole : (renderElements (j :: k :: l) []).length =
              (render j []).length + 1 + (renderElements (k :: l) []).length := by
            rw [renderElements, render_append (h j List.mem_cons_self), List.length_append,
              List.length_cons]
            omega
          rw [hwhole, List.length_cons]
          refine ⟨by omega, fun i hi => ?_⟩
          rcases List.mem_cons.1 hi with rfl | hi
          · omega
          · have := hle i hi
            omega

/-- Members are shorter than their object, and there are no more of them than characters. -/
theorem length_renderMembers {l : List (String × Json)} (h : ∀ m ∈ l, Plain m.2) :
    l.length ≤ (renderMembers (l.map (fun m => (some m.1, m.2))) []).length ∧
      ∀ m ∈ l, (render m.2 []).length ≤
        (renderMembers (l.map (fun m => (some m.1, m.2))) []).length := by
  induction l with
  | nil => exact ⟨Nat.le_refl _, fun m hm => absurd hm List.not_mem_nil⟩
  | cons m l ih =>
      have hpos := length_render_pos (h m List.mem_cons_self)
      rcases ih (fun i hi => h i (List.mem_cons_of_mem m hi)) with ⟨hlength, hle⟩
      cases l with
      | nil =>
          simp only [List.map_cons, List.map_nil, renderMembers, List.length_append,
            List.length_cons, List.length_nil]
          refine ⟨by omega, fun i hi => ?_⟩
          rw [List.mem_singleton.1 hi]
          omega
      | cons k l =>
          have hwhole : (renderMembers ((m :: k :: l).map (fun m => (some m.1, m.2))) []).length =
              (literal m.1).length + 1 + (render m.2 []).length + 1 +
                (renderMembers ((k :: l).map (fun m => (some m.1, m.2))) []).length := by
            simp only [List.map_cons, renderMembers]
            rw [render_append (h m List.mem_cons_self), List.length_append, List.length_cons,
              List.length_append, List.length_cons, Option.getD_some]
            omega
          rw [hwhole, List.length_cons]
          refine ⟨by omega, fun i hi => ?_⟩
          rcases List.mem_cons.1 hi with rfl | hi
          · omega
          · have := hle i hi
            omega

/-! ## Values -/

/-- The elements of a list are read back, if each of them is. -/
theorem readElements_render {depth : Nat} (l : List Json) (j : Json)
    (h : ∀ k ∈ j :: l, ∀ rest, Delimited rest → readValue depth (render k rest) = some (k, rest))
    {count : Nat} (hcount : l.length < count) (rest : List Char) :
    readElements depth count (renderElements (j :: l) (']' :: rest)) = some (j :: l, rest) := by
  induction l generalizing j count with
  | nil =>
      obtain ⟨count, rfl⟩ : ∃ k, count = k + 1 := ⟨count - 1, by omega⟩
      have hj := h j List.mem_cons_self (']' :: rest) (delimited_cons _ (.inr (.inl rfl)))
      rw [readElements, renderElements, hj]
      simp only [skipSpace_cons (c := ']') rest rfl]
  | cons k l ih =>
      obtain ⟨count, rfl⟩ : ∃ k, count = k + 1 := ⟨count - 1, by omega⟩
      have hj := h j List.mem_cons_self (',' :: renderElements (k :: l) (']' :: rest))
        (delimited_cons _ (.inl rfl))
      have hlt : l.length < count := by
        rw [List.length_cons] at hcount
        omega
      have hl := ih k (fun i hi => h i (List.mem_cons_of_mem j hi)) hlt
      rw [readElements, renderElements, hj]
      simp only [skipSpace_cons (c := ',') _ rfl, hl, Option.map_some]

/-- The members of an object are read back, if the value of each is. -/
theorem readMembers_render {depth : Nat} (l : List (String × Json)) (m : String × Json)
    (h : ∀ k ∈ m :: l, ∀ rest, Delimited rest →
      readValue depth (render k.2 rest) = some (k.2, rest))
    {count : Nat} (hcount : l.length < count) (rest : List Char) :
    readMembers depth count
        (renderMembers ((m :: l).map (fun m => (some m.1, m.2))) ('\x7d' :: rest)) =
      some ((m :: l).map (fun m => (some m.1, m.2)), rest) := by
  induction l generalizing m count with
  | nil =>
      obtain ⟨count, rfl⟩ : ∃ k, count = k + 1 := ⟨count - 1, by omega⟩
      have hm := h m List.mem_cons_self ('\x7d' :: rest) (delimited_cons _ (.inr (.inr rfl)))
      simp only [List.map_cons, List.map_nil, renderMembers, Option.getD_some, literal,
        List.cons_append, List.append_assoc, List.nil_append]
      rw [readMembers]
      simp only [skipSpace_cons (c := '"') _ rfl, readString_literal,
        skipSpace_cons (c := ':') _ rfl, hm, skipSpace_cons (c := '\x7d') rest rfl]
  | cons k l ih =>
      obtain ⟨count, rfl⟩ : ∃ k, count = k + 1 := ⟨count - 1, by omega⟩
      have hm := h m List.mem_cons_self
        (',' :: renderMembers ((k :: l).map (fun m => (some m.1, m.2))) ('\x7d' :: rest))
        (delimited_cons _ (.inl rfl))
      have hlt : l.length < count := by
        rw [List.length_cons] at hcount
        omega
      have hl := ih k (fun i hi => h i (List.mem_cons_of_mem m hi)) hlt
      simp only [List.map_cons, renderMembers, Option.getD_some, literal, List.cons_append,
        List.append_assoc, List.nil_append] at hm hl ⊢
      rw [readMembers]
      simp only [skipSpace_cons (c := '"') _ rfl, readString_literal,
        skipSpace_cons (c := ':') _ rfl, hm, skipSpace_cons (c := ',') _ rfl, hl, Option.map_some]

/-- What begins with a digit or a sign is read as a number. -/
theorem readValue_of_sign {c : Char} (cs : List Char) (h : isDigit c = true ∨ c = '-')
    (depth : Nat) :
    readValue (depth + 1) (c :: cs) = (readNumber (c :: cs)).map (fun r => (.number r.1, r.2)) := by
  have hspace : isSpace c = false := by
    rcases h with h | rfl
    · exact (isDigit_ne h).1
    · rfl
  rw [readValue, skipSpace_cons cs hspace]
  split
  case h_7 => rfl
  -- All other values begin with something else.
  all_goals
    next heq =>
    rw [(List.cons.inj heq).1] at h
    exact absurd h (by decide)

/-- An array is read back, if each of its elements is. -/
theorem readValue_array {depth : Nat} {l : List Json} (hplain : ∀ j ∈ l, Plain j)
    (h : ∀ j ∈ l, ∀ rest, Delimited rest → readValue depth (render j rest) = some (j, rest))
    (rest : List Char) : readValue (depth + 1) (render (.array l) rest) = some (.array l, rest) := by
  rw [render, readValue, skipSpace_cons _ rfl]
  cases l with
  | nil => rfl
  | cons j l =>
      have hcount : l.length < (renderElements (j :: l) (']' :: rest)).length := by
        have hlength := (length_renderElements hplain).1
        rw [renderElements_append (fun j hj rest => render_append (hplain j hj) rest),
          List.length_append]
        rw [List.length_cons] at hlength
        omega
      have hread := readElements_render l j h hcount rest
      -- It does not end where it begins.
      obtain ⟨c, cs, hcs, hspace, hbracket, -⟩ : ∃ c cs,
          renderElements (j :: l) (']' :: rest) = c :: cs ∧ isSpace c = false ∧ c ≠ ']' ∧
            c ≠ '\x7d' := by
        cases l <;> exact exists_render (hplain j List.mem_cons_self) _
      rw [hcs] at hread ⊢
      simp only [skipSpace_cons cs hspace]
      split
      · next heq => exact absurd (List.cons.inj heq).1 hbracket
      · rw [hread]
        rfl

/-- An object is read back, if the value of each of its members is. -/
theorem readValue_object {depth : Nat} {l : List (String × Json)} (hplain : ∀ m ∈ l, Plain m.2)
    (h : ∀ m ∈ l, ∀ rest, Delimited rest →
      readValue depth (render m.2 rest) = some (m.2, rest))
    (rest : List Char) : readValue (depth + 1) (render (ofMembers l) rest) =
      some (ofMembers l, rest) := by
  rw [ofMembers, render, readValue, skipSpace_cons _ rfl]
  cases l with
  | nil => rfl
  | cons m l =>
      have hcount : l.length <
          (renderMembers ((m :: l).map (fun m => (some m.1, m.2))) ('\x7d' :: rest)).length := by
        have hlength := (length_renderMembers hplain).1
        rw [renderMembers_append (fun m hm rest => render_append (hplain m hm) rest),
          List.length_append]
        rw [List.length_cons] at hlength
        omega
      have hread := readMembers_render l m h hcount rest
      obtain ⟨cs, hcs⟩ : ∃ cs, renderMembers ((m :: l).map (fun m => (some m.1, m.2)))
          ('\x7d' :: rest) = '"' :: cs := by
        cases l <;> exact ⟨_, rfl⟩
      rw [hcs] at hread ⊢
      simp only [skipSpace_cons cs (show isSpace '"' = false from rfl)]
      split
      · next heq => exact absurd (List.cons.inj heq).1 (by decide)
      · rw [hread]
        rfl

/-- A value is read back from the front of a text, as long as the reader goes deep enough and a
comma, a bracket or nothing follows the value. -/
theorem readValue_render (h : Plain j) : ∀ depth, (render j []).length < depth →
    ∀ rest, Delimited rest → readValue depth (render j rest) = some (j, rest) := by
  induction h with
  | null =>
      rintro (_ | depth) hdepth rest -
      · omega
      · rw [readValue]
        rfl
  | bool b =>
      rintro (_ | depth) hdepth rest -
      · omega
      · rw [readValue]
        cases b <;> rfl
  | integer n =>
      rintro (_ | depth) hdepth rest hrest
      · omega
      · have hread := readNumber_integer n hrest
        obtain ⟨c, cs, hcs, hc⟩ : ∃ c cs, integer n = c :: cs ∧ (isDigit c = true ∨ c = '-') := by
          unfold integer
          split_ifs
          · exact ⟨_, _, rfl, .inr rfl⟩
          · rcases exists_digits n.natAbs with ⟨c, ds, hds, hc⟩
            exact ⟨c, ds, hds, .inl hc⟩
        rw [hcs, List.cons_append] at hread
        rw [render, Number.chars, hcs, List.cons_append, readValue_of_sign _ hc, hread]
        rfl
  | string s =>
      rintro (_ | depth) hdepth rest -
      · omega
      · simp only [render, Option.getD_some, literal, List.cons_append, List.append_assoc,
          List.nil_append]
        rw [readValue, skipSpace_cons _ rfl]
        simp only [readString_literal, Option.map_some]
  | array l hplain ih =>
      rintro (_ | depth) hdepth rest -
      · omega
      · refine readValue_array hplain (fun j hj rest hrest => ih j hj depth ?_ rest hrest) rest
        -- Its elements are shorter, by the brackets at least.
        have hle := (length_renderElements hplain).2 j hj
        rw [render, renderElements_append (fun j hj rest => render_append (hplain j hj) rest),
          List.length_cons, List.length_append, List.length_singleton] at hdepth
        omega
  | object l hplain ih =>
      rintro (_ | depth) hdepth rest -
      · omega
      · refine readValue_object hplain (fun m hm rest hrest => ih m hm depth ?_ rest hrest) rest
        have hle := (length_renderMembers hplain).2 m hm
        rw [ofMembers, render,
          renderMembers_append (fun m hm rest => render_append (hplain m hm) rest),
          List.length_cons, List.length_append, List.length_singleton] at hdepth
        omega

/-- A value is read back from its compact form. -/
theorem parse_text (h : Plain j) : parse j.text = some j := by
  have hread := readValue_render h ((render j []).length + 1) (Nat.lt_succ_self _) [] delimited_nil
  rw [parse, text, String.toList_ofList, hread]
  rfl

end Json

end Bourse
