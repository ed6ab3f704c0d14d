import Bourse.Proofs.Service.Diary

/-!
# The Keeper and Its Subscription

What is known of a service and its past stays known, whatever happens. Most of it is about
the subscription of the keeper. It begins empty on a line whose receipts so far the keeper
has missed. From then on each quote that the line publishes goes to the end of the buffer,
unless that is full, and the cache takes quotes from the front; so nothing is lost and
nothing changes places. Nobody else has a hand in it, and since it is held, its line does
not end.

## Theorems

* `seated_of_market`: the subscription of the keeper after something has happened.
* `kept_of_step?`, `kept_of_run?`: what is known stays known.
-/

namespace Bourse

namespace Diary

variable {x x' : Diary} {a : Market.Action} {m : Market} {s : Seat} {u : Subscription}

/-! ## The subscription of the keeper -/

theorem Kept.session_act? (h : x.Kept) (hact : x.market.act? a = some m) :
    Session.Kept ⟨m, Session.heldAfter ⟨x.market, x.held⟩ m a⟩ := by
  refine Session.kept_of_step? (a := a) h.session ?_
  rw [Session.step?, hact]
  rfl

/-- The keeper does not miss anything more once it has a seat. -/
theorem missedAfter_of_seat (hs : x.service.seat? = some s) (m : Market) :
    x.missedAfter m = x.missed := by
  rw [missedAfter, hs]

/-- A quote is published to the keeper, and comes last in its buffer. -/
theorem Seated.dispatch (hkept : x.Kept) (hs : x.service.seat? = some s) (h : x.Seated s u)
    (hact : x.market.dispatchAt? s.line = some m) :
    ∃ u', (x.afterMarket (.dispatch s.line) m).Seated s u' := by
  rcases hkept.session.live_of_mem h.held with ⟨l, w, hl, hw, hlive, -⟩
  rcases Market.subscription?_dispatch hkept.session.fit.paired hkept.buses h.found hl hlive.isOpen
    (fun _ => hkept.session.going_of_mem h.held) hact with ⟨q, hq, hfound⟩
  have hjoined := hkept.session.joined_of_mem hkept.buses h.held h.found
  have hreceipts : (x.market.noted m x.books (.dispatch s.line) s.line).receipts =
      (x.books s.line).receipts ++ [q] := Market.receipts_of_published hq
  have hbuffered : l.bus.buffered s.id = u.buffer.length := by
    rcases Market.subscription?_eq_some h.found with ⟨l', hl', hu⟩
    cases Option.some.inj (hl.symm.trans hl')
    exact Bus.buffered_of_find? hu
  refine ⟨_, h.held, hfound, fun q' hq' => ?_, fun hnot => ?_⟩
  · refine hreceipts.symm ▸ List.mem_append.2 ?_
    unfold Bus.deliver at hq'
    split at hq'
    · exact (List.mem_append.1 hq').imp_left (h.published q')
    · exact Or.inl (h.published q' hq')
  · have hnot' : (x.overrun || x.overruns (.dispatch s.line)) = false := hnot
    rw [Bool.or_eq_false_iff] at hnot'
    have hroom : u.buffer.length < l.bus.capacity := by
      have hfits := hnot'.2
      simp only [overruns, hs, hl, hq, decide_true, Option.isSome_some, Bool.and_self,
        Bool.true_and, decide_eq_false_iff_not, hbuffered] at hfits
      omega
    have hdelivered : Bus.deliver l.bus.capacity q u = { u with buffer := u.buffer ++ [q] } := by
      rw [Bus.deliver, hjoined, decide_eq_true hroom]
      rfl
    calc (x.market.noted m x.books (.dispatch s.line) s.line).receipts
        = x.missed ++ (x.came.map (·.quote) ++ u.buffer) ++ [q] := by
          rw [hreceipts, h.flows hnot'.1]
      _ = x.missedAfter m ++ (x.came.map (·.quote) ++ (Bus.deliver l.bus.capacity q u).buffer) := by
          rw [missedAfter_of_seat hs, hdelivered]
          simp only [List.append_assoc]

/-- The cache takes the first quote in the buffer of the keeper. -/
theorem Seated.feed (hkept : x.Kept) (hs : x.service.seat? = some s) (h : x.Seated s u)
    (hact : x.market.feed? s = some m) :
    (∃ u', (x.afterMarket (.feed s) m).Seated s u') ∧ m.feeders = x.market.feeders ∧
      ∃ q, q ∈ u.buffer ∧ x.cameAfter (.feed s) = x.came ++ [⟨q, x.market.now⟩] ∧
        m.cache = x.market.cache.update x.market.now q := by
  have hjoined := hkept.session.joined_of_mem hkept.buses h.held h.found
  rcases Market.subscription?_feed h.found hjoined hact with
    ⟨q, rest, hbuffer, hitem, hfound, rfl⟩
  have hcame : x.cameAfter (.feed s) = x.came ++ [⟨q, x.market.now⟩] := by
    simp only [cameAfter, hitem]
  refine ⟨⟨_, ?_, hfound, fun q' hq' => ?_, fun hnot => ?_⟩,
    (Market.cache_receive x.market s).2, q, ?_, hcame, rfl⟩
  · simp only [afterMarket, Session.heldAfter, hitem, reduceCtorEq, if_false]
    exact h.held
  · refine h.published q' ?_
    rw [hbuffer]
    exact List.mem_cons_of_mem _ hq'
  · have hnot' : (x.overrun || false) = false := hnot
    rw [Bool.or_false] at hnot'
    have hflows := h.flows hnot'
    rw [hbuffer] at hflows
    simp only [afterMarket, missedAfter_of_seat hs, hcame, List.map_append, List.map_cons,
      List.map_nil, List.append_assoc, List.cons_append, List.nil_append]
    exact hflows
  · rw [hbuffer]
    exact List.mem_cons_self

/-- What is not about the subscription of the keeper leaves it alone. -/
theorem Seated.aside (hkept : x.Kept) (hs : x.service.seat? = some s) (h : x.Seated s u)
    (haside : a.isAside s = true) (hcame : x.cameAfter a = x.came)
    (hact : x.market.act? a = some m) : (x.afterMarket a m).Seated s u := by
  have hreceipts : (x.market.noted m x.books a s.line).receipts = (x.books s.line).receipts := by
    refine Market.receipts_noted ?_ ?_
    · rintro rfl
      exact absurd rfl (of_decide_eq_true haside)
    · rintro rfl
      -- Quotes are spilled only at a closed bus.
      rcases hkept.session.live_of_mem h.held with ⟨l, w, hl, -, hlive, -⟩
      rcases Market.spillAt?_eq_some hact with ⟨l', -, -, -, hl', hclosed, -⟩
      cases Option.some.inj (hl.symm.trans hl')
      exact absurd (hlive.isOpen.symm.trans hclosed) Bool.false_ne_true
  refine ⟨?_, ?_, fun q hq => ?_, fun hnot => ?_⟩
  · have hne : ∀ t, t ≠ s → s ∈ x.held.filter (fun t' => t' ≠ t) := by
      intro t ht
      exact List.mem_filter.2 ⟨h.held, decide_eq_true (Ne.symm ht)⟩
    cases a with
    | nextTurn => exact List.mem_append_left _ h.held
    | endAttempt => exact List.mem_append_left _ h.held
    | takeSeat => exact List.mem_append_left _ h.held
    | leave t => exact hne t (of_decide_eq_true haside)
    | feed t =>
        simp only [afterMarket, Session.heldAfter]
        split
        · exact hne t (of_decide_eq_true haside)
        · exact h.held
    | _ => exact h.held
  · exact Market.subscription?_act? hkept.session.fit.paired hkept.buses h.found haside hact
  · exact hreceipts.symm ▸ h.published q hq
  · have hnot' : (x.overrun || x.overruns a) = false := hnot
    rw [Bool.or_eq_false_iff] at hnot'
    simp only [afterMarket, hreceipts, missedAfter_of_seat hs, hcame]
    exact h.flows hnot'.1

/-- The cache takes quotes only of the keeper. -/
theorem Kept.warmer_of_feed (h : x.Kept) (hact : x.market.act? (.feed s) = some m) :
    x.service.warmer = .feeding s ∧ x.market.feed? s = some m := by
  simp only [Market.act?] at hact
  split at hact
  · next hmem => exact ⟨h.keeping.eq_of_mem_feeders hmem, hact⟩
  · exact absurd hact (by simp only [reduceCtorEq, not_false_eq_true])

/-- The subscription of the keeper after something has happened. -/
theorem seated_of_market (hkept : x.Kept) (hs : x.service.seat? = some s) (h : x.Seated s u)
    (hpermits : x.service.permits a = true) (hact : x.market.act? a = some m) :
    ∃ u', (x.afterMarket a m).Seated s u' := by
  by_cases haside : a.isAside s = true
  · have hcame : x.cameAfter a = x.came := by
      cases a with
      | feed t =>
          have hfeeding := (hkept.warmer_of_feed hact).1
          rw [seat?_of_feeding hfeeding] at hs
          exact absurd (Option.some.inj hs) (of_decide_eq_true haside)
      | _ => rfl
    exact ⟨u, h.aside hkept hs haside hcame hact⟩
  · cases a with
    | leave t =>
        have ht : t = s := of_not_not (fun hne => haside (decide_eq_true hne))
        have hnot : x.service.seat? ≠ some t := of_decide_eq_true hpermits
        rw [ht] at hnot
        exact absurd hs hnot
    | receive t =>
        have ht : t = s := of_not_not (fun hne => haside (decide_eq_true hne))
        have hnot : x.service.seat? ≠ some t := of_decide_eq_true hpermits
        rw [ht] at hnot
        exact absurd hs hnot
    | feed t =>
        have ht : t = s := of_not_not (fun hne => haside (decide_eq_true hne))
        subst ht
        exact (h.feed hkept hs (hkept.warmer_of_feed hact).2).1
    | dispatch i =>
        have hi : i = s.line := of_not_not (fun hne => haside (decide_eq_true hne))
        subst hi
        exact h.dispatch hkept hs hact
    | _ => exact absurd rfl haside

/-- The subscription of the keeper when it begins. -/
theorem Kept.seated_of_answer (h : x.Kept) {ticket : Nat}
    (hasking : x.service.warmer = .asking ticket) (hcame : x.came = [])
    (hnone : x.market.grant? ticket = none) (hs : m.grant? ticket = some (.seated s))
    (hact : x.market.act? a = some m) : ∃ u', (x.afterMarket a m).Seated s u' := by
  rcases h.session.seat_of_act? h.buses hact hnone hs with ⟨hanswering, hheld, hfound⟩
  have hreceipts : (x.market.noted m x.books a s.line).receipts = (x.books s.line).receipts := by
    refine Market.receipts_noted ?_ ?_
    · rintro rfl
      exact Bool.false_ne_true hanswering
    · rintro rfl
      exact Bool.false_ne_true hanswering
  have hnow : x.cameAfter a = [] := by
    cases a with
    | feed t => exact absurd hanswering Bool.false_ne_true
    | _ => exact hcame
  have hmissed : x.missedAfter m = (x.books s.line).receipts := by
    have hbefore : x.service.seat? = none := by
      rw [seat?_of_asking hasking, hnone]
      rfl
    have hafter : (x.service.setMarket m).seat? = some s := by
      unfold Service.seat?
      rw [show (x.service.setMarket m).warmer = .asking ticket from hasking]
      exact congrArg (fun g => Option.bind g Grant.seat?) hs
    rw [missedAfter, hbefore, hafter]
  refine ⟨_, hheld, hfound, fun q hq => absurd hq List.not_mem_nil, fun _ => ?_⟩
  simp only [afterMarket, hreceipts, hmissed, hnow, List.map_nil, List.append_nil]

/-! ## The market -/

/-- The cache and what goes to it, after something has happened. -/
theorem Kept.cache_of_market (h : x.Kept) (hpermits : x.service.permits a = true)
    (hact : x.market.act? a = some m) : m.feeders = x.market.feeders ∧
      m.cache.Holds (x.cameAfter a) ∧
      (x.cameAfter a = x.came ∨ ∃ s u q, x.Seated s u ∧ q ∈ u.buffer ∧
        x.cameAfter a = x.came ++ [⟨q, x.market.now⟩]) := by
  by_cases hcaching : a.isCaching = true
  · cases a with
    | addFeeder t => exact absurd hpermits Bool.false_ne_true
    | feed s =>
        rcases h.warmer_of_feed hact with ⟨hfeeding, hfeed⟩
        have hs := seat?_of_feeding hfeeding
        rcases h.keeping.seated hs with ⟨u, hu⟩
        rcases hu.feed h hs hfeed with ⟨-, hfeeders, q, hq, hcame, hcache⟩
        refine ⟨hfeeders, ?_, Or.inr ⟨s, u, q, hu, hq, hcame⟩⟩
        rw [hcache, hcame]
        exact QuoteCache.holds_enter h.holds x.market.now q
    | _ => exact absurd hcaching Bool.false_ne_true
  · rw [Bool.not_eq_true] at hcaching
    rcases Market.cache_act? h.session.fit.paired hcaching hact with ⟨hcache, hfeeders⟩
    have hcame : x.cameAfter a = x.came := by
      cases a with
      | feed s => exact absurd hcaching.symm Bool.false_ne_true
      | _ => rfl
    rw [hcache, hcame]
    exact ⟨hfeeders, h.holds, Or.inl rfl⟩

/-- A quote that is in the buffer of the keeper was decoded from a tick. -/
theorem Kept.taken_of_seated (h : x.Kept) (hu : x.Seated s u) {q : Quote} (hq : q ∈ u.buffer) :
    ∃ p ∈ (x.books s.line).takings, p.2.quote? x.market.intake.settings.symbols = some q := by
  rcases h.session.live_of_mem hu.held with ⟨-, w, -, hw, -⟩
  have hfaithful := h.recorded.faithful s.line w hw
  have hquotes : q ∈ (x.books s.line).takings.filterMap
      (fun p => p.2.quote? x.market.intake.settings.symbols) := by
    rw [hfaithful.quotes, hfaithful.output]
    exact List.mem_append_left _ (List.mem_append_left _ (hu.published q hq))
  exact List.mem_filterMap.1 hquotes

/-- The keeper after something has happened around the market. -/
theorem Kept.keeping_of_market (h : x.Kept) (hpermits : x.service.permits a = true)
    (hact : x.market.act? a = some m) : (x.afterMarket a m).Keeping := by
  rcases h.cache_of_market hpermits hact with ⟨hfeeders, -, hcame⟩
  have hkeeping := h.keeping
  unfold Keeping at hkeeping ⊢
  have hwarmer : (x.afterMarket a m).service.warmer = x.service.warmer := rfl
  rw [hwarmer]
  -- Only a keeper that feeds the cache lets something come in.
  have hnothing : x.market.feeders = [] → x.cameAfter a = x.came := by
    intro hnobody
    cases a with
    | feed t =>
        simp only [Market.act?, hnobody, List.not_mem_nil, if_false, reduceCtorEq] at hact
    | _ => rfl
  cases hw : x.service.warmer with
  | asking ticket =>
      rw [hw] at hkeeping
      rcases hkeeping with ⟨hempty, hnobody, hseated⟩
      refine ⟨(hnothing hnobody).trans hempty, hfeeders.trans hnobody, fun s hs => ?_⟩
      cases hg : x.market.grant? ticket with
      | none =>
          cases hg' : m.grant? ticket with
          | none =>
              rw [show (x.afterMarket a m).market.grant? ticket = none from hg'] at hs
              exact absurd hs (by simp only [Option.bind_none, reduceCtorEq, not_false_eq_true])
          | some g =>
              rw [show (x.afterMarket a m).market.grant? ticket = some g from hg'] at hs
              cases g with
              | seated t =>
                  cases Option.some.inj hs
                  exact h.seated_of_answer hw hempty hg hg' hact
              | _ => exact absurd hs (by simp only [Option.bind_some, Grant.seat?, reduceCtorEq,
                  not_false_eq_true])
      | some g =>
          have hg' := h.session.grant?_act? h.buses hact hg
          rw [show (x.afterMarket a m).market.grant? ticket = some g from hg', ← hg] at hs
          rcases hseated s hs with ⟨u, hu⟩
          exact seated_of_market h ((seat?_of_asking hw).trans hs) hu hpermits hact
  | feeding s =>
      rw [hw] at hkeeping
      rcases hkeeping.2 with ⟨u, hu⟩
      exact ⟨hfeeders.trans hkeeping.1,
        seated_of_market h (seat?_of_feeding hw) hu hpermits hact⟩
  | resting due =>
      rw [hw] at hkeeping
      exact ⟨(hnothing hkeeping.2).trans hkeeping.1, hfeeders.trans hkeeping.2⟩
  | stopped =>
      rw [hw] at hkeeping
      exact hfeeders.trans hkeeping

/-- What is known stays known when something happens around the market. -/
theorem Kept.of_market (h : x.Kept) (hpermits : x.service.permits a = true)
    (hact : x.market.act? a = some m) : (x.afterMarket a m).Kept := by
  have hmoves := Market.moves_act? h.session.fit.paired hact
  rcases h.cache_of_market hpermits hact with ⟨-, hholds, hcame⟩
  refine ⟨h.session_act? hact, h.recorded.of_moves hmoves,
    Market.buses_act? h.session.fit.paired h.buses hact, hmoves.settings ▸ h.symbols, hholds,
    fun e he => ?_, fun e he => ?_, h.keeping_of_market hpermits hact⟩
  · have hnow : x.market.now ≤ m.now := hmoves.now
    rcases hcame with hsame | ⟨s, u, q, -, -, hcame⟩
    · exact Nat.le_trans (h.past e (hsame ▸ he)) hnow
    · have hmem : e ∈ x.cameAfter a := he
      rw [hcame] at hmem
      rcases List.mem_append.1 hmem with hold | hnew
      · exact Nat.le_trans (h.past e hold) hnow
      · cases List.mem_singleton.1 hnew
        exact hnow
  · have hsettings : m.intake.settings = x.market.intake.settings := hmoves.settings
    have hstay : ∀ i, ∀ p ∈ (x.books i).takings, p ∈ (x.market.noted m x.books a i).takings :=
      fun i _ hp => (Market.takings_noted x.market m x.books a i).subset hp
    have hold : ∀ e ∈ x.came, ∃ i, ∃ p ∈ (x.market.noted m x.books a i).takings,
        p.2.quote? m.intake.settings.symbols = some e.quote := by
      intro e he
      rcases h.origin e he with ⟨i, p, hp, hquote⟩
      exact ⟨i, p, hstay i p hp, hsettings ▸ hquote⟩
    rcases hcame with hsame | ⟨s, u, q, hu, hq, hcame⟩
    · exact hold e (hsame ▸ he)
    · have hmem : e ∈ x.cameAfter a := he
      rw [hcame] at hmem
      rcases List.mem_append.1 hmem with hbefore | hnew
      · exact hold e hbefore
      · cases List.mem_singleton.1 hnew
        rcases h.taken_of_seated hu hq with ⟨p, hp, hquote⟩
        exact ⟨s.line, p, hstay s.line p hp, hsettings ▸ hquote⟩

/-! ## The keeper -/

/-- What is known stays known where the keeper leaves the lines and the intake alone. -/
theorem Kept.of_keeper (h : x.Kept) {service : Service} {m : Market}
    (hmarket : service.market = m) (hconfig : service.config = x.service.config)
    (hsession : Session.Kept ⟨m, x.held⟩) (hintake : m.intake = x.market.intake)
    (hlines : m.lines = x.market.lines) (hcache : m.cache = x.market.cache)
    (hkeeping : ({ x with service } : Diary).Keeping) : ({ x with service } : Diary).Kept := by
  have hmarket' : ({ x with service } : Diary).market = m := hmarket
  refine ⟨hmarket'.symm ▸ hsession, ?_, ?_, ?_, ?_, ?_, ?_, hkeeping⟩
  · rw [hmarket', hintake]
    exact h.recorded
  · rw [hmarket', hlines]
    exact h.buses
  · rw [hmarket', hintake, show ({ x with service } : Diary).service.config = _ from hconfig]
    exact h.symbols
  · rw [hmarket', hcache]
    exact h.holds
  · rw [hmarket', Market.now, hintake]
    exact h.past
  · rw [hmarket', hintake]
    exact h.origin

/-- What is known does not depend on the ledger and on the stop signal. -/
theorem Kept.of_same (h : x.Kept) {service : Service} (hmarket : service.market = x.market)
    (hwarmer : service.warmer = x.service.warmer) (hconfig : service.config = x.service.config) :
    ({ x with service } : Diary).Kept := by
  refine h.of_keeper hmarket hconfig h.session rfl rfl rfl ?_
  have hmarket' : ({ x with service } : Diary).market = x.market := hmarket
  have hseated : ∀ {s u}, x.Seated s u → ({ x with service } : Diary).Seated s u :=
    fun hu => ⟨hu.held, hmarket'.symm ▸ hu.found, hu.published, hu.flows⟩
  have hkeeping := h.keeping
  unfold Keeping at hkeeping ⊢
  rw [hmarket', show ({ x with service } : Diary).service.warmer = _ from hwarmer]
  cases hw : x.service.warmer with
  | asking ticket =>
      rw [hw] at hkeeping
      refine ⟨hkeeping.1, hkeeping.2.1, fun s hs => ?_⟩
      rcases hkeeping.2.2 s hs with ⟨u, hu⟩
      exact ⟨u, hseated hu⟩
  | feeding s =>
      rw [hw] at hkeeping
      rcases hkeeping.2 with ⟨u, hu⟩
      exact ⟨hkeeping.1, u, hseated hu⟩
  | resting due =>
      rw [hw] at hkeeping
      exact hkeeping
  | stopped =>
      rw [hw] at hkeeping
      exact hkeeping

/-- The keeper gets its subscription. -/
theorem Kept.seated (h : x.Kept) {ticket : Nat} (hw : x.service.warmer = .asking ticket)
    (hanswer : x.market.grant? ticket = some (.seated s)) :
    (x.afterKeep (.feeding s) (x.market.addFeeder s)).Kept := by
  have hkeeping := h.keeping
  rw [Keeping, hw] at hkeeping
  rcases hkeeping with ⟨-, hnobody, hseated⟩
  have hs : (x.market.grant? ticket).bind Grant.seat? = some s :=
    congrArg (fun g => Option.bind g Grant.seat?) hanswer
  rcases hseated s hs with ⟨u, hu⟩
  rw [afterKeep, heldAfterKeep, hw]
  refine h.of_keeper rfl rfl (h.session_act? (a := .addFeeder s) rfl) rfl rfl rfl
    ⟨?_, u, hu.held, hu.found, hu.published, hu.flows⟩
  exact congrArg (· ++ [s]) hnobody

/-- The keeper stops, and gives its subscription up. -/
theorem Kept.leaves (h : x.Kept) (hw : x.service.warmer = .feeding s)
    (htold : x.service.stopped = true) :
    (x.afterKeep .stopped (x.market.removeFeeder s)).Kept := by
  have hkeeping := h.keeping
  rw [Keeping, hw] at hkeeping
  have hsame := Market.undisturbed_removeFeeder x.market s
  rcases Market.cache_removeFeeder x.market s with ⟨hcache, hfeeders⟩
  have hnobody : (x.market.removeFeeder s).feeders = [] := by
    rw [hfeeders, hkeeping.1, List.filter_cons_of_neg (by simp only [ne_eq, not_true_eq_false,
      decide_false, Bool.false_eq_true, not_false_eq_true]), List.filter_nil]
  rw [afterKeep, heldAfterKeep, hw]
  simp only [htold, if_true]
  refine ⟨h.session.removeFeeder s, h.recorded.of_undisturbed hsame,
    ((Market.changesBus_removeFeeder x.market s).grows
      (fun l _ => Bus.altered_drop l.bus s.id)).buses h.buses,
    (congrArg _ hsame.settings).trans h.symbols, ?_, fun e he => ?_, fun e he => ?_, hnobody⟩
  · exact (congrArg (fun c => QuoteCache.Holds c x.came) hcache).mpr h.holds
  · exact Nat.le_trans (h.past e he) hsame.now
  · rcases h.origin e he with ⟨i, p, hp, hquote⟩
    exact ⟨i, p, hp, hsame.settings.symm ▸ hquote⟩

/-- The keeper asks for another subscription, which it has not got yet. -/
theorem Kept.asks (h : x.Kept) {due : Nat} (hw : x.service.warmer = .resting due) :
    (x.afterKeep (.asking x.market.requests) x.market.request.2).Kept := by
  have hkeeping := h.keeping
  rw [Keeping, hw] at hkeeping
  rw [afterKeep, heldAfterKeep, hw]
  refine h.of_keeper rfl rfl (h.session_act? (a := .request) rfl) rfl rfl rfl
    ⟨hkeeping.1, hkeeping.2, fun s hs => ?_⟩
  have hnone : x.market.grant? x.market.requests = none :=
    h.session.queued.unanswered _ (Or.inr (Nat.le_refl _))
  exact absurd ((congrArg (fun g => Option.bind g Grant.seat?) hnone).symm.trans hs)
    (by simp only [Option.bind_none, reduceCtorEq, not_false_eq_true])

theorem Kept.of_keep (h : x.Kept) {w₀ w : Warmer} (hw : x.service.warmer = w₀)
    (hkeep : Warmer.Steps x.service.config.quotes.resubscribeBackoffMs x.service.stopped x.market
      w₀ w m) : (x.afterKeep w m).Kept := by
  have hkeeping := h.keeping
  rw [Keeping, hw] at hkeeping
  cases hkeep with
  | seated hanswer => exact h.seated hw hanswer
  | leaves htold => exact h.leaves hw htold
  | asks hdue => exact h.asks hw
  | lost hgone =>
      -- The subscription is held, so it goes on.
      rw [hkeeping.1] at hgone
      exact absurd (List.mem_singleton_self _) hgone
  | failed hanswer =>
      rw [afterKeep, heldAfterKeep, hw]
      exact h.of_keeper rfl rfl h.session rfl rfl rfl ⟨hkeeping.1, hkeeping.2.1⟩
  | crashed hanswer =>
      rw [afterKeep, heldAfterKeep, hw]
      exact h.of_keeper rfl rfl h.session rfl rfl rfl hkeeping.2.1
  | stops htold =>
      rw [afterKeep, heldAfterKeep, hw]
      exact h.of_keeper rfl rfl h.session rfl rfl rfl hkeeping.2

/-! ## Runs -/

/-- What is known stays known, whatever happens. -/
theorem kept_of_step? {a : Action} (h : x.Kept) (hstep : x.step? a = some x') : x'.Kept := by
  cases steps_of_step? hstep with
  | market hpermits hact => exact h.of_market hpermits hact
  | keep hkeep => exact h.of_keep rfl hkeep
  | _ => exact h.of_same rfl rfl rfl

/-- Time does not go back. -/
theorem Kept.now_le (h : x.Kept) {a : Action} (hstep : x.step? a = some x') :
    x.market.now ≤ x'.market.now := by
  cases steps_of_step? hstep with
  | market hpermits hact => exact (Market.moves_act? h.session.fit.paired hact).now
  | @keep w m hkeep =>
      generalize x.service.warmer = before at hkeep
      cases hkeep with
      | leaves htold => exact (Market.undisturbed_removeFeeder x.market _).now
      | _ => exact Nat.le_refl _
  | _ => exact Nat.le_refl _

theorem kept_opened (config : Config) (buffer delay failures : Nat) (time : Timestamp) :
    (opened config buffer delay failures time).Kept := by
  have hsession := Session.kept_opened (Service.ingestorSettings config) buffer delay failures
    config.quotes.busCapacity
  refine ⟨Session.kept_of_step? (a := .request) hsession rfl, ⟨fun i w hw => ?_, fun _ _ => rfl,
    fun w hw => absurd hw List.not_mem_nil⟩, fun l hl => absurd hl List.not_mem_nil, rfl,
    QuoteCache.holds_empty, fun e he => absurd he List.not_mem_nil,
    fun e he => absurd he List.not_mem_nil, rfl, rfl, fun s hs => ?_⟩
  · exact absurd hw.symm (Option.some_ne_none w)
  · exact absurd hs.symm (Option.some_ne_none s)

/-- Whatever has happened, what is known of a service and its past is true. -/
theorem kept_of_run? {config : Config} {buffer delay failures : Nat} {time : Timestamp}
    {actions : List Action}
    (h : (opened config buffer delay failures time).run? actions = some x) : x.Kept :=
  run_induction (fun _ x => x.Kept) (kept_opened config buffer delay failures time)
    (fun _ _ _ _ _ h hstep => kept_of_step? h hstep) h

end Diary

end Bourse
