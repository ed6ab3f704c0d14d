import Bourse.Proofs.Floor.Tasks
import Bourse.Proofs.Service.Keeper

/-!
# The Cache at Rest

When nothing can go on before somebody comes or time passes, all quotes have arrived that
are on their way to the cache. The ingestor of the line has taken all ticks that its
connection had for it and has nothing in hand; the dispatch of the line has taken all
quotes out of the buffer of the ingestor; and the cache has taken all out of the buffer of
the keeper. So the last quote that the cache has of a symbol is that of the last tick.

This is said of what came after the keeper had got its subscription. What its line had
published before has not gone to the cache; and until there is a subscription, nothing
has.

## Theorems

* `atRest_of_settled`: nothing can go on when the service has no next step.
* `latest?_of_rest`: the last quotes in the cache at rest.
* `latest?_of_unseated`: the cache before the keeper has got its subscription.
-/

namespace Bourse

/-! ## What can go on -/

namespace Market

variable {m : Market} {s : Seat} {u : Subscription} {i : Nat} {l : Line} {w : Ingestor}

/-- A quote in the buffer of a subscription can be taken to the cache. -/
theorem isSome_feed? {q : Quote} {rest : List Quote} (hu : m.subscription? s = some u)
    (hbuffer : u.buffer = q :: rest) : (m.feed? s).isSome = true := by
  rcases subscription?_eq_some hu with ⟨l, hl, hfound⟩
  have hitem : m.receive s = (.item q, (m.receive s).2) := by
    simp only [receive, hl, Bus.receive, hfound, hbuffer]
  rw [feed?, hitem]
  rfl

/-- A quote in the buffer of an ingestor can be taken to its open bus. -/
theorem isSome_dispatchAt? {q : Quote} {rest : List Quote} (hl : m.lines[i]? = some l)
    (hw : m.intake.ingestors[i]? = some w) (hdispatching : l.dispatching = true)
    (hopen : l.bus.closed = false) (houtput : w.output = q :: rest) :
    (m.dispatchAt? i).isSome = true := by
  have hitem : m.intake.receive i = (.item q, (m.intake.receive i).2) := by
    simp only [Intake.receive, hw, Ingestor.receive, houtput]
  simp only [dispatchAt?, hl, Option.bind_eq_bind, Option.bind_some, hdispatching, hopen,
    Bool.not_true, Bool.false_eq_true, if_false]
  rw [hitem]
  rfl

/-- An ingestor with a turn can take it. -/
theorem isSome_turn {branch : Ingestor.Branch} {e : Ingestor.Event} {moved : Ingestor.Moved}
    (hw : m.intake.ingestors[i]? = some w)
    (hturn : w.turn? m.intake.settings m.intake.now m.intake.feed branch = some (e, moved)) :
    (m.act? (.turn i branch)).isSome = true := by
  simp only [act?, Intake.turnAt?, hw, Option.bind_some, hturn, Option.map_some,
    Option.isSome_some]

/-- A market without a next step is one where nothing can happen by itself. -/
theorem act?_of_settled (h : m.step? = none) {a : Action} (hown : a.isOwn = true) :
    m.act? a = none := by
  simp only [step?, Option.orElse_eq_none, Option.map_eq_none_iff] at h
  rcases h with ⟨hseat, hturns, hdispatch, hfeed, hattempt, hnext⟩
  cases a with
  | nextTurn => exact hnext
  | endAttempt => exact hattempt
  | takeSeat => exact hseat
  | feed s =>
      simp only [act?, ite_eq_right_iff]
      exact List.findSome?_eq_none_iff.1 hfeed s
  | dispatch i =>
      by_cases hi : i < m.lines.length
      · exact List.findSome?_eq_none_iff.1 hdispatch i (List.mem_range.2 hi)
      · simp only [act?, dispatchAt?, List.getElem?_eq_none (Nat.le_of_not_lt hi),
          Option.bind_eq_bind, Option.bind_none]
  | turn i branch =>
      refine Option.map_eq_none_iff.2 ?_
      by_cases hi : i < m.intake.ingestors.length
      · have hboth := List.findSome?_eq_none_iff.1 hturns i (List.mem_range.2 hi)
        rw [Intake.stepAt?_eq_turnAt?, Option.or_eq_none_iff] at hboth
        cases branch with
        | stop => exact hboth.1
        | goOn => exact hboth.2
      · simp only [Intake.turnAt?, List.getElem?_eq_none (Nat.le_of_not_lt hi), Option.bind_none]
  | _ => exact absurd hown Bool.false_ne_true

end Market

/-! ## What does not go on at rest -/

namespace Diary

variable {x : Diary} {s : Seat} {u : Subscription}

/-- At rest nothing goes on around the market. -/
theorem AtRest.act? (h : x.AtRest) {a : Market.Action} (ha : (Action.market a).isOwn = true) :
    x.market.act? a = none := by
  have hnone := h (.market a) ha
  have hpermits : x.service.permits a = true := Service.permits_of_isOwn ha
  simp only [step?, hpermits, if_true, Option.map_eq_none_iff] at hnone
  exact hnone

/-- Nothing can go on when the service has no next step. -/
theorem atRest_of_settled (h : x.service.step? = none) : x.AtRest := by
  simp only [Service.step?, Option.orElse_eq_none, Option.map_eq_none_iff] at h
  rcases h with ⟨hmarket, hkeep, hheed, hready⟩
  intro a hown
  cases a with
  | market a =>
      have hnone : x.market.act? a = none := Market.act?_of_settled hmarket hown
      simp only [step?, hnone, Option.map_none, ite_self]
  | keep => exact Option.map_eq_none_iff.2 hkeep
  | heed => exact Option.map_eq_none_iff.2 hheed
  | task id =>
      have hidle := List.find?_eq_none.1 (Option.map_eq_none_iff.1 hready)
      refine Option.map_eq_none_iff.2 (Option.eq_none_iff_forall_ne_some.2 fun ledger hledger => ?_)
      rcases Option.bind_eq_some_iff.1 hledger with ⟨t, ht, hstep⟩
      rcases Option.bind_eq_some_iff.1 hstep with ⟨p, htask, -⟩
      exact hidle t (Ledger.mem_of_task? ht) (Option.isSome_iff_exists.2 ⟨p, htask⟩)
  | _ => exact absurd hown Bool.false_ne_true

/-- Nothing is in the buffer of the keeper at rest. -/
theorem Seated.buffer_of_rest (h : x.Seated s u) (hrest : x.AtRest)
    (hfeeders : x.market.feeders = [s]) : u.buffer = [] := by
  cases hbuffer : u.buffer with
  | nil => rfl
  | cons q rest =>
      have hsome := Market.isSome_feed? h.found hbuffer
      have hnone := hrest.act? (a := .feed s) rfl
      rw [Market.act?, hfeeders, if_pos (List.mem_singleton_self s)] at hnone
      rw [hnone] at hsome
      exact absurd hsome Bool.false_ne_true

/-- The ingestor of the keeper has nothing in its buffer and nothing in hand at rest, and its connection
has no tick for it. -/
theorem Kept.ingestor_of_rest (h : x.Kept) (hrest : x.AtRest) (hs : s ∈ x.held) :
    ∃ w, x.market.intake.ingestors[s.line]? = some w ∧ w.output = [] ∧ w.hand = [] ∧
      w.phase ≠ .terminated ∧
      ∀ c, w.connection? = some c → x.market.intake.feed.peek? c = none := by
  rcases h.session.live_of_mem hs with ⟨l, w, hl, hw, hlive, -⟩
  have houtput : w.output = [] := by
    cases hbuffer : w.output with
    | nil => rfl
    | cons q rest =>
        have hsome := Market.isSome_dispatchAt? hl hw hlive.dispatching hlive.isOpen hbuffer
        have hnone : x.market.dispatchAt? s.line = none := hrest.act? (a := .dispatch s.line) rfl
        rw [hnone] at hsome
        exact absurd hsome Bool.false_ne_true
  have hturn : w.turn? x.market.intake.settings x.market.intake.now x.market.intake.feed .goOn =
      none := by
    cases hmoved : w.turn? x.market.intake.settings x.market.intake.now x.market.intake.feed .goOn with
    | none => rfl
    | some p =>
        have hsome := Market.isSome_turn hw hmoved
        rw [hrest.act? rfl] at hsome
        exact absurd hsome Bool.false_ne_true
  -- There is room in the buffer, which is empty, so nothing is left in hand.
  have hnot : ∀ c q, w.phase ≠ .sending c q := by
    intro c q hphase
    have hroom := h.recorded.roomy w (List.mem_of_getElem? hw)
    have hconsumed : w.consumed = true := hlive.consumed
    simp only [Ingestor.turn?, hphase, hconsumed, houtput, List.length_nil, hroom, decide_true,
      Bool.and_self, if_true, reduceCtorEq] at hturn
  refine ⟨w, hw, houtput, ?_, h.session.going_of_mem hs hw, fun c hc => ?_⟩
  · unfold Ingestor.hand
    split
    · next c q hphase => exact absurd hphase (hnot c q)
    · rfl
  · unfold Ingestor.connection? at hc
    split at hc
    · next c' hphase =>
      cases Option.some.inj hc
      simp only [Ingestor.turn?, hphase] at hturn
      split at hturn
      · exact absurd hturn (by simp only [reduceCtorEq, not_false_eq_true])
      · next hpeek => exact hpeek
    · next c' q hphase => exact absurd hphase (hnot c' q)
    · exact absurd hc (by simp only [reduceCtorEq, not_false_eq_true])

/-- The quotes of the ticks that an ingestor took. -/
def quotesAt (x : Diary) (i : Nat) : List Quote :=
  (x.books i).takings.filterMap (fun p => p.2.quote? x.market.intake.settings.symbols)

/-- At rest the cache has the last quote of each symbol among those that the line of the keeper has
taken in and had not published when the keeper came, as long as none has found the buffer of the
keeper full. -/
theorem Kept.latest?_of_rest (h : x.Kept) (hrest : x.AtRest) (hfits : x.overrun = false)
    (hw : x.service.warmer = .feeding s) :
    ∃ later, x.quotesAt s.line = x.missed ++ later ∧
      ∀ symbol, x.market.cache.latest? symbol = lastQuote later symbol := by
  have hkeeping := h.keeping
  rw [Keeping, hw] at hkeeping
  rcases hkeeping with ⟨hfeeders, u, hu⟩
  rcases h.ingestor_of_rest hrest hu.held with ⟨w, hingestor, houtput, hhand, hgoing, -⟩
  have hfaithful := h.recorded.faithful s.line w hingestor
  have hquotes := hfaithful.quotes
  rw [hfaithful.output, houtput, hhand, hfaithful.ended hgoing, hu.flows hfits,
    hu.buffer_of_rest hrest hfeeders] at hquotes
  simp only [List.append_nil] at hquotes
  refine ⟨x.came.map ReceivedQuote.quote, hquotes, fun symbol => ?_⟩
  rw [lastQuote_eq]
  exact h.holds.latest?_eq symbol

/-- The cache is empty until the keeper has got its subscription. -/
theorem Kept.latest?_of_unseated (h : x.Kept)
    (hunseated : (∃ ticket, x.service.warmer = .asking ticket) ∨
      ∃ due, x.service.warmer = .resting due) (symbol : String) :
    x.market.cache.latest? symbol = none := by
  have hcame : x.came = [] := by
    have hkeeping := h.keeping
    unfold Keeping at hkeeping
    rcases hunseated with ⟨ticket, hw⟩ | ⟨due, hw⟩
    · rw [hw] at hkeeping
      exact hkeeping.1
    · rw [hw] at hkeeping
      exact hkeeping.1
  have hholds := h.holds
  rw [hcame] at hholds
  exact hholds.latest?_eq symbol

end Diary

end Bourse
