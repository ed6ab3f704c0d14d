import Bourse.Proofs.Table
import Bourse.QuoteCache

/-!
# The Last Quotes That Came In

The quote cache keeps one entry for each symbol. Over any history of quotes that
came in, this is the last of its symbol. Everything that a reader may learn from the
cache is said by that history: a price is fresh when the last quote of its symbol
came in less than some time ago. Old prices do not become fresh by waiting.

## Main definitions

* `lastOf`, `lastQuote`: the last of some quotes that is of a symbol.
* `QuoteCache.Holds`: a cache into which some quotes came.

## Theorems

* `holds_enter`: one more quote comes in.
* `Holds.fresh?_eq_some`: which prices are fresh.
* `fresh?_eq_none_of_le`: what is not fresh now is not fresh later.
* `QuoteReader.cases_of_step`: what a step of a reader is.
-/

namespace Bourse

/-- The last of some quotes that is of a symbol. -/
def lastOf (came : List ReceivedQuote) (symbol : String) : Option ReceivedQuote :=
  (came.filter (fun e => e.quote.symbol = symbol)).getLast?

theorem lastOf_concat (came : List ReceivedQuote) (e : ReceivedQuote) (symbol : String) :
    lastOf (came ++ [e]) symbol = if e.quote.symbol = symbol then some e else lastOf came symbol := by
  unfold lastOf
  rw [List.filter_append]
  by_cases h : e.quote.symbol = symbol
  · rw [if_pos h, List.filter_cons_of_pos (by simp only [h, decide_true]), List.filter_nil,
      List.getLast?_concat]
  · rw [if_neg h, List.filter_cons_of_neg (by simp only [h, decide_false, Bool.false_eq_true,
      not_false_eq_true]), List.filter_nil, List.append_nil]

theorem of_lastOf {came : List ReceivedQuote} {symbol : String} {e : ReceivedQuote}
    (h : lastOf came symbol = some e) : e ∈ came ∧ e.quote.symbol = symbol := by
  have hmem := List.mem_filter.1 (List.mem_of_getLast? h)
  exact ⟨hmem.1, of_decide_eq_true hmem.2⟩

/-- The same where it does not matter when they came in. -/
def lastQuote (quotes : List Quote) (symbol : String) : Option Quote :=
  (quotes.filter (fun q => q.symbol = symbol)).getLast?

theorem lastQuote_eq (came : List ReceivedQuote) (symbol : String) :
    lastQuote (came.map (·.quote)) symbol = (lastOf came symbol).map (·.quote) := by
  rw [lastQuote, lastOf, List.filter_map, List.getLast?_map]
  rfl

namespace QuoteCache

/-- The cache has, of each symbol, the last of the quotes that came in. -/
def Holds (c : QuoteCache) (came : List ReceivedQuote) : Prop :=
  ∀ symbol, c.entries.get? symbol = lastOf came symbol

variable {c : QuoteCache} {came : List ReceivedQuote}

theorem holds_empty : empty.Holds [] := fun _ => rfl

theorem holds_enter (h : c.Holds came) (now : Nat) (q : Quote) :
    (c.enter now q).Holds (came ++ [⟨q, now⟩]) := by
  intro symbol
  rw [lastOf_concat, ← h symbol]
  refine (Table.get?_insert_eq c.entries q.symbol symbol _).trans ?_
  by_cases hs : symbol = q.symbol
  · rw [if_pos hs, if_pos hs.symm]
  · rw [if_neg hs, if_neg (fun heq => hs heq.symm)]

theorem Holds.latest?_eq (h : c.Holds came) (symbol : String) :
    c.latest? symbol = (lastOf came symbol).map (·.quote) := by
  rw [latest?, h symbol]

/-- A price is fresh when it is that of the last quote of its symbol, which came in less than
`maxAge` ago. -/
theorem Holds.fresh?_eq_some (h : c.Holds came) {now maxAge : Nat} {symbol : String} {p : Amount} :
    c.fresh? now symbol maxAge = some p ↔
      ∃ e, lastOf came symbol = some e ∧ now - e.receivedAt < maxAge ∧ e.quote.price = p := by
  unfold fresh?
  rw [h symbol]
  cases lastOf came symbol with
  | none => simp only [reduceCtorEq, false_and, exists_false]
  | some e => simp only [Option.ite_none_right_eq_some, Option.some.injEq, exists_eq_left']

theorem fresh?_eq_none_of_le {now later maxAge : Nat} {symbol : String} (hle : now ≤ later)
    (h : c.fresh? now symbol maxAge = none) : c.fresh? later symbol maxAge = none := by
  unfold fresh? at h ⊢
  cases hget : c.entries.get? symbol with
  | none => rfl
  | some e =>
      have hold : ¬ now - e.receivedAt < maxAge := by
        intro hlt
        rw [hget] at h
        exact absurd h (by simp only [if_pos hlt, reduceCtorEq, not_false_eq_true])
      exact if_neg (by omega)

end QuoteCache

namespace QuoteReader

variable {r r' : QuoteReader} {c : QuoteCache} {now : Nat} {cancelled : Bool}

/-- A step takes a fresh price, goes to wait for want of one, looks again after a notice, or ends a
wait that is called off. The request stays as it is. -/
theorem cases_of_step (h : r.step c now cancelled = some r') :
    (r'.symbol = r.symbol ∧ r'.maxAge = r.maxAge) ∧
    ((∃ seen p, r.phase = .looking seen ∧ c.fresh? now r.symbol r.maxAge = some p ∧
        r'.phase = .done (.ok p)) ∨
      (∃ seen, r.phase = .looking seen ∧ c.fresh? now r.symbol r.maxAge = none ∧
        r'.phase = .waiting seen) ∨
      (∃ seen, r.phase = .waiting seen ∧ seen ≠ c.notices ∧ r'.phase = .looking c.notices) ∨
      ∃ seen, r.phase = .waiting seen ∧ cancelled = true ∧ r'.phase = .done (.error .cancelled)) := by
  unfold step at h
  split at h
  · next seen hphase =>
    split at h
    · next p hfresh =>
      rw [← Option.some.inj h]
      exact ⟨⟨rfl, rfl⟩, Or.inl ⟨seen, p, hphase, hfresh, rfl⟩⟩
    · next hfresh =>
      rw [← Option.some.inj h]
      exact ⟨⟨rfl, rfl⟩, Or.inr (Or.inl ⟨seen, hphase, hfresh, rfl⟩)⟩
  · next seen hphase =>
    by_cases hseen : seen ≠ c.notices
    · rw [if_pos hseen] at h
      rw [← Option.some.inj h]
      exact ⟨⟨rfl, rfl⟩, Or.inr (Or.inr (Or.inl ⟨seen, hphase, hseen, rfl⟩))⟩
    · rw [if_neg hseen] at h
      by_cases hoff : cancelled = true
      · rw [if_pos hoff] at h
        rw [← Option.some.inj h]
        exact ⟨⟨rfl, rfl⟩, Or.inr (Or.inr (Or.inr ⟨seen, hphase, hoff, rfl⟩))⟩
      · rw [if_neg hoff] at h
        exact absurd h (by simp only [reduceCtorEq, not_false_eq_true])
  · exact absurd h (by simp only [reduceCtorEq, not_false_eq_true])

end QuoteReader

end Bourse
