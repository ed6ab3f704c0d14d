import Bourse.Proofs.Ingestor.Turns

/-!
# The Books of an Ingestor

What is true of an ingestor because of what has happened to it, whoever sent the ticks
and whatever other ingestors did. Its *books* are written up from its events: which ticks
it took, which quotes it put into its buffer and which of them were received, how often
it tried to connect, and whether anybody still wants it. No step reads them.

There are two kinds of facts, and every step keeps both. The books are *faithful*: the
quotes put into the buffer are those of the ticks taken, in order, and each is in exactly
one place. And they are *balanced*: an ingestor has made one connection more than it has
lost as long as it has one, and every attempt has succeeded, failed, or is not over.

## Main definitions

* `RawTick.quote?`: the quote that a tick is worth.
* `Ingestor.Books`, `Ingestor.Books.note`: what has happened, and how it is written up.
* `Ingestor.Faithful`: the quotes of an ingestor agree with the books.
* `Ingestor.InBalance`, `Ingestor.Balanced`: its counters agree with its state and the books.

## Theorems

* `RawTick.quote?_eq`: decoding gives the quote of a tick, or an error if it has none.
* `faithful_of_step`, `balanced_of_step`: every step keeps the books.
* `terminated_of_step`: an ingestor that has stopped does not start again.
-/

namespace Bourse

/-- The quote of a tick for one of some symbols whose price is an amount: of the same symbol and
time, at this price. Other ticks have none. -/
def RawTick.quote? (symbols : List String) (t : RawTick) : Option Quote :=
  if t.symbol ∈ symbols then
    match Amount.parse t.price with
    | .ok price => some ⟨t.symbol, price, t.timestamp⟩
    | .error _ => none
  else none

theorem RawTick.quote?_eq (symbols : List String) (t : RawTick) :
    t.quote? symbols = (t.decode symbols).toOption := by
  unfold quote? decode isSupported
  by_cases hmem : t.symbol ∈ symbols
  · rw [if_pos hmem, if_pos (List.contains_iff_mem.2 hmem)]
    cases Amount.parse t.price with
    | ok price => rfl
    | error e => rfl
  · rw [if_neg hmem, if_neg (fun h => hmem (List.contains_iff_mem.1 h))]
    rfl

namespace Ingestor

/-- What has happened to an ingestor. -/
structure Books where
  /-- The ticks taken, each with its connection. -/
  takings : List (Nat × RawTick)
  /-- The quotes put into the buffer. -/
  puts : List Quote
  /-- The quotes that the consumer received. -/
  receipts : List Quote
  /-- The quote in hand when the ingestor stopped for good, if there was one. -/
  givenUp : List Quote
  /-- The connections made. -/
  connections : List Nat
  /-- The connection that the ingestor had when it stopped for good, if there was one. -/
  cut : List Nat
  /-- The number of attempts to connect, the first one included. -/
  attempts : Nat
  /-- Whether the ingestor stopped for good in the middle of an attempt. -/
  abandoned : Bool
  /-- Whether the stop signal has fired or the consumer has left. -/
  parted : Bool
deriving DecidableEq

namespace Books

/-- The books before anything has happened. -/
def empty : Books := ⟨[], [], [], [], [], [], 0, false, false⟩

/-- The books after something has happened. -/
def note (b : Books) : Event → Books
  | .opened c fired =>
    { b with connections := b.connections ++ [c], attempts := b.attempts + 1, parted := fired }
  | .took c t => { b with takings := b.takings ++ [(c, t)] }
  | .put q => { b with puts := b.puts ++ [q] }
  | .tried => { b with attempts := b.attempts + 1 }
  | .connected c => { b with connections := b.connections ++ [c] }
  | .lost _ | .failed => b
  | .stopped (.streaming c) => { b with cut := b.cut ++ [c] }
  | .stopped (.sending c q) => { b with cut := b.cut ++ [c], givenUp := b.givenUp ++ [q] }
  | .stopped (.connecting _) => { b with abandoned := true }
  | .stopped _ => b
  | .received q => { b with receipts := b.receipts ++ [q] }
  | .left | .told => { b with parted := true }

/-- The ticks taken from one connection. -/
def takenFrom (b : Books) (c : Nat) : List RawTick :=
  (b.takings.filter (fun p => p.1 = c)).map (·.2)

end Books

/-- The quote that an ingestor has in hand, waiting for room. -/
def hand (w : Ingestor) : List Quote :=
  match w.phase with
  | .sending _ q => [q]
  | _ => []

variable {s : IngestorSettings} {w w' : Ingestor} {e : Event} {b b' : Books}

/-! ## The quotes -/

/-- The books are right about quotes. The quotes of the ticks taken are those put into the buffer
and then the one in hand, or the one given up at the end, which is that of the last tick; those put
into the buffer were received or are still there; and the ticks without a quote were rejected. -/
structure Faithful (s : IngestorSettings) (w : Ingestor) (b : Books) : Prop where
  quotes : b.takings.filterMap (fun p => p.2.quote? s.symbols) = b.puts ++ (w.hand ++ b.givenUp)
  last : w.hand ++ b.givenUp = [] ∨ ∃ p q, b.takings.getLast? = some p ∧
    p.2.quote? s.symbols = some q ∧ w.hand ++ b.givenUp = [q]
  ended : w.phase ≠ .terminated → b.givenUp = []
  output : b.puts = b.receipts ++ w.output
  counted : w.stats.quotes = b.puts.length
  rejected : w.stats.rejected = b.takings.countP (fun p => (p.2.quote? s.symbols).isNone)

theorem faithful_start (s : IngestorSettings) (c : Nat) (fired : Bool) :
    Faithful s (start c fired) (Books.empty.note (.opened c fired)) :=
  ⟨rfl, Or.inl rfl, fun _ => rfl, rfl, rfl, rfl⟩

/-- What an ingestor has in hand and has given up does not change where it goes on to something
else. -/
theorem Faithful.of_same (h : Faithful s w b) (htakings : b'.takings = b.takings)
    (hputs : b'.puts = b.puts) (hreceipts : b'.receipts = b.receipts)
    (hheld : w'.hand ++ b'.givenUp = w.hand ++ b.givenUp)
    (hended : w'.phase ≠ .terminated → b'.givenUp = []) (houtput : w'.output = w.output)
    (hquotes : w'.stats.quotes = w.stats.quotes)
    (hrejected : w'.stats.rejected = w.stats.rejected) : Faithful s w' b' := by
  refine ⟨?_, ?_, hended, ?_, ?_, ?_⟩
  · rw [htakings, hputs, hheld]
    exact h.quotes
  · rw [htakings, hheld]
    exact h.last
  · rw [hputs, hreceipts, houtput]
    exact h.output
  · rw [hputs, hquotes]
    exact h.counted
  · rw [htakings, hrejected]
    exact h.rejected

/-- An ingestor that goes on to something else with the same in hand leaves the books right. -/
theorem Faithful.of_going (h : Faithful s w b) (hgoing : w.phase ≠ .terminated)
    (hhand : w'.hand = w.hand) (htakings : b'.takings = b.takings) (hputs : b'.puts = b.puts)
    (hreceipts : b'.receipts = b.receipts) (hgivenUp : b'.givenUp = b.givenUp)
    (houtput : w'.output = w.output) (hquotes : w'.stats.quotes = w.stats.quotes)
    (hrejected : w'.stats.rejected = w.stats.rejected) : Faithful s w' b' :=
  h.of_same htakings hputs hreceipts (by rw [hhand, hgivenUp])
    (fun _ => hgivenUp.trans (h.ended hgoing)) houtput hquotes hrejected

/-- Every step keeps the books right about quotes. -/
theorem faithful_of_step (h : Faithful s w b) (hstep : Step s w e w') :
    Faithful s w' (b.note e) := by
  cases hstep with
  | quote c t q hphase hdecode =>
      have hquote : t.quote? s.symbols = some q := by rw [RawTick.quote?_eq, hdecode]; rfl
      have hgiven : b.givenUp = [] := h.ended (by rw [hphase]; exact Phase.noConfusion)
      have hquotes := h.quotes
      rw [hand, hphase, hgiven, List.append_nil, List.append_nil] at hquotes
      refine ⟨?_, Or.inr ⟨(c, t), q, List.getLast?_concat, hquote, ?_⟩, fun _ => hgiven, h.output,
        h.counted, ?_⟩
      · simp only [Books.note, List.filterMap_append, hquotes, hgiven, hand, List.append_nil,
          List.filterMap_cons, hquote, List.filterMap_nil]
      · simp only [Books.note, hgiven, hand, List.append_nil]
      · simp only [Books.note, List.countP_append, h.rejected, List.countP_singleton, hquote,
          Option.isNone_some, Bool.false_eq_true, if_false, Nat.add_zero]
  | reject c t e hphase hdecode =>
      have hquote : t.quote? s.symbols = none := by rw [RawTick.quote?_eq, hdecode]; rfl
      have hgiven : b.givenUp = [] := h.ended (by rw [hphase]; exact Phase.noConfusion)
      have hhand : w.hand = [] := by rw [hand, hphase]
      refine ⟨?_, Or.inl ?_, fun _ => hgiven, h.output, h.counted, ?_⟩
      · simp only [Books.note, List.filterMap_append, h.quotes, List.filterMap_cons, hquote,
          List.filterMap_nil, List.append_nil]
        rfl
      · simp only [Books.note, hgiven, List.append_nil]
        exact hhand
      · simp only [Books.note, List.countP_append, h.rejected, List.countP_singleton, hquote,
          Option.isNone_none, if_true]
  | put c q hphase hconsumed hroom =>
      have hgiven : b.givenUp = [] := h.ended (by rw [hphase]; exact Phase.noConfusion)
      have hquotes := h.quotes
      rw [hand, hphase, hgiven, List.append_nil] at hquotes
      refine ⟨?_, Or.inl ?_, fun _ => hgiven, ?_, ?_, h.rejected⟩
      · simp only [Books.note, hquotes, hgiven, hand, afterPut, List.append_nil]
      · simp only [Books.note, hgiven, hand, afterPut, List.append_nil]
      · simp only [Books.note, afterPut, h.output, List.append_assoc]
      · simp only [Books.note, afterPut, h.counted, List.length_append, List.length_singleton]
  | received q rest houtput =>
      refine ⟨h.quotes, h.last, h.ended, ?_, h.counted, h.rejected⟩
      simp only [Books.note, h.output, houtput, List.append_assoc, List.singleton_append]
  | stopped hstopping =>
      -- What was in hand is given up.
      have hgiven : b.givenUp = [] := h.ended (fun hphase => by
        rw [isStopping, hphase] at hstopping
        exact Bool.false_ne_true hstopping)
      have hheld : (b.note (.stopped w.phase)).givenUp = w.hand ++ b.givenUp := by
        rw [hand, hgiven]
        cases w.phase with
        | sending c q => simp only [Books.note, hgiven, List.nil_append, List.append_nil]
        | _ => exact hgiven
      have hrest : (b.note (.stopped w.phase)).takings = b.takings ∧
          (b.note (.stopped w.phase)).puts = b.puts ∧
          (b.note (.stopped w.phase)).receipts = b.receipts := by
        cases w.phase with
        | _ => exact ⟨rfl, rfl, rfl⟩
      exact h.of_same hrest.1 hrest.2.1 hrest.2.2 hheld (fun hp => absurd rfl hp) rfl rfl rfl
  | lost c due hphase =>
      exact h.of_going (by rw [hphase]; exact Phase.noConfusion) (by simp only [hand, hphase])
        rfl rfl rfl rfl rfl rfl rfl
  | tried due due' hphase =>
      exact h.of_going (by rw [hphase]; exact Phase.noConfusion) (by simp only [hand, hphase])
        rfl rfl rfl rfl rfl rfl rfl
  | connected due c hphase =>
      exact h.of_going (by rw [hphase]; exact Phase.noConfusion) (by simp only [hand, hphase])
        rfl rfl rfl rfl rfl rfl rfl
  | failed due due' hphase =>
      exact h.of_going (by rw [hphase]; exact Phase.noConfusion) (by simp only [hand, hphase])
        rfl rfl rfl rfl rfl rfl rfl
  | left => exact h.of_same rfl rfl rfl rfl h.ended rfl rfl rfl
  | told => exact h.of_same rfl rfl rfl rfl h.ended rfl rfl rfl

/-! ## The counters -/

/-- The counters of connections agree with the state that is shown. -/
def InBalance (w : Ingestor) : Prop :=
  match w.state with
  | .streaming => w.stats.connects = w.stats.disconnects + 1
  | .disconnected | .connecting => w.stats.connects = w.stats.disconnects
  | .terminated =>
    w.stats.disconnects ≤ w.stats.connects ∧ w.stats.connects ≤ w.stats.disconnects + 1

/-- The books are right about attempts and about who wants the ingestor. Every attempt has made a
connection or failed, but for one that is under way or was given up at the end; and the ingestor has
not stopped unless somebody stopped it. -/
structure Balanced (w : Ingestor) (b : Books) : Prop where
  counters : w.InBalance
  attempts : b.attempts = w.stats.connects + w.stats.failed +
    if w.state = .connecting ∨ b.abandoned = true then 1 else 0
  going : w.state ≠ .terminated → b.abandoned = false ∧ b.cut = []
  parted : w.isUnwanted = b.parted
  ended : w.state = .terminated → w.isUnwanted = true

theorem balanced_start (c : Nat) (fired : Bool) :
    Balanced (start c fired) (Books.empty.note (.opened c fired)) :=
  ⟨rfl, rfl, fun _ => ⟨rfl, rfl⟩, Bool.or_false _, fun h => IngestorState.noConfusion h⟩

theorem isUnwanted_of_isStopping (h : w.isStopping = true) : w.isUnwanted = true := by
  unfold isStopping at h
  split at h
  · rw [isUnwanted, h, Bool.true_or]
  · exact absurd h Bool.false_ne_true
  · exact h

/-- What an ingestor does itself leaves the signals alone and does not end it while it is wanted. -/
theorem signals_of_step (hstep : Step s w e w') (hown : e.isOwn = true) :
    w'.stopped = w.stopped ∧ w'.consumed = w.consumed ∧
      (w'.state = .terminated → w.state = .terminated ∨ w.isUnwanted = true) := by
  cases hstep with
  | stopped hstopping => exact ⟨rfl, rfl, fun _ => Or.inr (isUnwanted_of_isStopping hstopping)⟩
  | reject c t e hphase hdecode => exact ⟨rfl, rfl, Or.inl⟩
  | received q rest houtput => exact absurd hown Bool.false_ne_true
  | left => exact absurd hown Bool.false_ne_true
  | told => exact absurd hown Bool.false_ne_true
  | _ => exact ⟨rfl, rfl, fun hended => IngestorState.noConfusion hended⟩

/-- As long as an ingestor goes on, only an attempt under way has neither succeeded nor failed. -/
theorem Balanced.attempts_of_going (h : Balanced w b) (hgoing : w.state ≠ .terminated) :
    b.attempts = w.stats.connects + w.stats.failed +
      if w.state = .connecting then 1 else 0 := by
  rw [h.attempts, (h.going hgoing).1]
  simp only [Bool.false_eq_true, or_false]

/-- The books stay in balance where a step leads from one busy state to another. -/
theorem Balanced.of_going (h : Balanced w b) (hgoing : w.state ≠ .terminated)
    (hgoing' : w'.state ≠ .terminated) (hcounters : w'.InBalance)
    (hattempts : b'.attempts = w'.stats.connects + w'.stats.failed +
      if w'.state = .connecting then 1 else 0)
    (habandoned : b'.abandoned = b.abandoned) (hcut : b'.cut = b.cut)
    (hunwanted : w'.isUnwanted = w.isUnwanted) (hparted : b'.parted = b.parted) :
    Balanced w' b' := by
  rcases h.going hgoing with ⟨hnot, hnone⟩
  rw [hnot] at habandoned
  refine ⟨hcounters, ?_, fun _ => ⟨habandoned, hcut.trans hnone⟩, ?_,
    fun hended => absurd hended hgoing'⟩
  · rw [hattempts, habandoned]
    simp only [Bool.false_eq_true, or_false]
  · rw [hunwanted, hparted]
    exact h.parted

/-- Having stopped for good is in balance with one connection more than were lost, or with as many,
and with one more attempt if it was given up. -/
theorem balanced_of_ended (hstate : w.state = .terminated) (hunwanted : w.isUnwanted = true)
    (hparted : w.isUnwanted = b.parted)
    (hcounters : w.stats.connects = w.stats.disconnects + 1 ∨
      w.stats.connects = w.stats.disconnects)
    (hattempts : b.attempts = w.stats.connects + w.stats.failed + if b.abandoned then 1 else 0) :
    Balanced w b := by
  refine ⟨?_, ?_, fun hgoing => absurd hstate hgoing, hparted, fun _ => hunwanted⟩
  · rw [InBalance, hstate]
    simp only []
    omega
  · rw [hattempts, hstate]
    simp only [reduceCtorEq, false_or]

/-- An ingestor may stop in any state but the last. -/
theorem Balanced.of_stopped (h : Balanced w b) (hstopping : w.isStopping = true) :
    Balanced { w with phase := .terminated } (b.note (.stopped w.phase)) := by
  have hcounters := h.counters
  have hattempts := h.attempts_of_going
  have hgoing := h.going
  have hunwanted := isUnwanted_of_isStopping hstopping
  unfold InBalance at hcounters
  cases hphase : w.phase with
  | streaming c =>
      have hstate : w.state = .streaming := by rw [state, hphase]
      rw [hstate] at hcounters hattempts hgoing
      refine balanced_of_ended rfl hunwanted h.parted (Or.inl hcounters) ?_
      rw [show (b.note (.stopped (.streaming c))).abandoned = b.abandoned from rfl,
        (hgoing (by decide)).1]
      exact hattempts (by decide)
  | sending c q =>
      have hstate : w.state = .streaming := by rw [state, hphase]
      rw [hstate] at hcounters hattempts hgoing
      refine balanced_of_ended rfl hunwanted h.parted (Or.inl hcounters) ?_
      rw [show (b.note (.stopped (.sending c q))).abandoned = b.abandoned from rfl,
        (hgoing (by decide)).1]
      exact hattempts (by decide)
  | waiting due =>
      have hstate : w.state = .disconnected := by rw [state, hphase]
      rw [hstate] at hcounters hattempts hgoing
      refine balanced_of_ended rfl hunwanted h.parted (Or.inr hcounters) ?_
      rw [show (b.note (.stopped (.waiting due))).abandoned = b.abandoned from rfl,
        (hgoing (by decide)).1]
      exact hattempts (by decide)
  | connecting due =>
      have hstate : w.state = .connecting := by rw [state, hphase]
      rw [hstate] at hcounters hattempts
      -- The attempt that was under way is the one given up.
      exact balanced_of_ended rfl hunwanted h.parted (Or.inr hcounters) (hattempts (by decide))
  | terminated =>
      rw [isStopping, hphase] at hstopping
      exact absurd hstopping Bool.false_ne_true

/-- Every step keeps the books in balance. -/
theorem balanced_of_step (h : Balanced w b) (hstep : Step s w e w') : Balanced w' (b.note e) := by
  have hcounters := h.counters
  have hattempts := h.attempts_of_going
  unfold InBalance at hcounters
  cases hstep with
  | quote c t q hphase hdecode =>
      have hstate : w.state = .streaming := by rw [state, hphase]
      rw [hstate] at hcounters hattempts
      exact h.of_going (by rw [hstate]; decide) IngestorState.noConfusion hcounters
        (hattempts (by decide)) rfl rfl rfl rfl
  | put c q hphase hconsumed hroom =>
      have hstate : w.state = .streaming := by rw [state, hphase]
      rw [hstate] at hcounters hattempts
      exact h.of_going (by rw [hstate]; decide) IngestorState.noConfusion hcounters
        (hattempts (by decide)) rfl rfl rfl rfl
  | lost c due hphase =>
      have hstate : w.state = .streaming := by rw [state, hphase]
      rw [hstate] at hcounters hattempts
      exact h.of_going (by rw [hstate]; decide) IngestorState.noConfusion hcounters
        (hattempts (by decide)) rfl rfl rfl rfl
  | tried due due' hphase =>
      have hstate : w.state = .disconnected := by rw [state, hphase]
      rw [hstate] at hcounters hattempts
      exact h.of_going (by rw [hstate]; decide) IngestorState.noConfusion hcounters
        (congrArg (· + 1) (hattempts (by decide))) rfl rfl rfl rfl
  | connected due c hphase =>
      have hstate : w.state = .connecting := by rw [state, hphase]
      rw [hstate] at hcounters hattempts
      exact h.of_going (by rw [hstate]; decide) IngestorState.noConfusion
        (congrArg (· + 1) hcounters) ((hattempts (by decide)).trans (Nat.add_right_comm _ _ _))
        rfl rfl rfl rfl
  | failed due due' hphase =>
      have hstate : w.state = .connecting := by rw [state, hphase]
      rw [hstate] at hcounters hattempts
      exact h.of_going (by rw [hstate]; decide) IngestorState.noConfusion hcounters
        (hattempts (by decide)) rfl rfl rfl rfl
  | stopped hstopping => exact h.of_stopped hstopping
  | reject c t e hphase hdecode => exact ⟨h.counters, h.attempts, h.going, h.parted, h.ended⟩
  | received q rest houtput => exact ⟨h.counters, h.attempts, h.going, h.parted, h.ended⟩
  | left => exact ⟨h.counters, h.attempts, h.going, Bool.or_true _, fun _ => Bool.or_true _⟩
  | told => exact ⟨h.counters, h.attempts, h.going, Bool.true_or _, fun _ => Bool.true_or _⟩

/-- An ingestor that has stopped for good does not start again. -/
theorem terminated_of_step (h : w.state = .terminated) (hstep : Step s w e w') :
    w'.state = .terminated := by
  have hnot : ∀ {phase : Phase}, w.phase = phase →
      ({ w with phase } : Ingestor).state = .terminated := by
    intro phase hphase
    rw [← h, state, ← hphase]
    rfl
  cases hstep with
  | quote c t q hphase _ => exact IngestorState.noConfusion (hnot hphase)
  | put c q hphase _ _ => exact IngestorState.noConfusion (hnot hphase)
  | lost c due hphase => exact IngestorState.noConfusion (hnot hphase)
  | tried due due' hphase => exact IngestorState.noConfusion (hnot hphase)
  | connected due c hphase => exact IngestorState.noConfusion (hnot hphase)
  | failed due due' hphase => exact IngestorState.noConfusion (hnot hphase)
  | stopped _ => rfl
  | _ => exact h

end Ingestor

end Bourse
