import Bourse.Proofs.Service.Guests

/-!
# The Buffer of a Guest

A guest of a service has a subscription, and it is not that of the keeper. As long as the
guest neither reads it nor gives it up, it stays, whatever else happens. Its buffer gains
a quote when its line publishes one, unless it is full; and it begins with nothing in it,
when the request of the guest is answered.

## Main definitions

* `Diary.Onward`: a subscription goes on, and its line may have published a quote.
* `Diary.setMarket`: the diary after somebody has read a subscription.

## Theorems

* `onward_of_step?`: what a step of a service does to the subscription of a guest.
* `seated_of_step?`: how the subscription of a guest begins.
* `step?_receive`: a guest reads its subscription.
-/

namespace Bourse

namespace Diary

variable {x x' : Diary} {s : Seat} {u : Subscription} {ticket : Nat} {guests : List Nat}

/-- The line of a subscription has published a quote or none, which came into the buffer or not. -/
structure Onward (x x' : Diary) (s : Seat) (u u' : Subscription) (published : List Quote) : Prop where
  held : s ∈ x'.held
  found : x'.market.subscription? s = some u'
  receipts : (x'.books s.line).receipts = (x.books s.line).receipts ++ published
  buffer : u'.buffer = u.buffer ∨ u'.buffer = u.buffer ++ published

/-- What happens around the market to the subscription of a guest. -/
theorem Hosts.onward_of_market (h : x.Hosts guests) (hguest : ticket ∈ guests)
    (hs : x.market.grant? ticket = some (.seated s)) (hheld : s ∈ x.held)
    (hu : x.market.subscription? s = some u) {a : Market.Action} {m : Market}
    (hactive : Action.leavesAlone (.market a) s = true) (hact : x.market.act? a = some m) :
    ∃ u' published, x.Onward (x.afterMarket a m) s u u' published := by
  have hkept := h.kept
  -- The keeper's subscription is another one.
  have hfeed : ∀ t, a = .feed t → t ≠ s := by
    rintro t rfl rfl
    have hfeeding := (hkept.warmer_of_feed hact).1
    exact h.seat?_ne hguest hs (seat?_of_feeding hfeeding)
  have hstays : s ∈ Session.heldAfter ⟨x.market, x.held⟩ m a := by
    have hne : ∀ t, t ≠ s → s ∈ x.held.filter (fun t' => t' ≠ t) :=
      fun t ht => List.mem_filter.2 ⟨hheld, decide_eq_true (Ne.symm ht)⟩
    cases a with
    | nextTurn => exact List.mem_append_left _ hheld
    | endAttempt => exact List.mem_append_left _ hheld
    | takeSeat => exact List.mem_append_left _ hheld
    | leave t => exact hne t (of_decide_eq_true hactive)
    | feed t =>
        rw [Session.heldAfter]
        split
        · exact hne t (hfeed t rfl)
        · exact hheld
    | _ => exact hheld
  rcases hkept.session.live_of_mem hheld with ⟨l, w, hl, -, hlive, -⟩
  by_cases hdispatch : a = .dispatch s.line
  · subst hdispatch
    rcases Market.subscription?_dispatch hkept.session.fit.paired hkept.buses hu hl hlive.isOpen
      (fun _ => hkept.session.going_of_mem hheld) hact with ⟨q, hq, hfound⟩
    refine ⟨_, [q], hstays, hfound, Market.receipts_of_published hq, ?_⟩
    unfold Bus.deliver
    split
    · exact Or.inr rfl
    · exact Or.inl rfl
  · have haside : a.isAside s = true := by
      cases a with
      | leave t => exact hactive
      | receive t => exact hactive
      | feed t => exact decide_eq_true (hfeed t rfl)
      | dispatch i => exact decide_eq_true (fun hi => hdispatch (hi ▸ rfl))
      | _ => rfl
    have hspill : a ≠ .spill s.line := by
      rintro rfl
      -- Quotes are spilled only at a closed bus.
      rcases Market.spillAt?_eq_some hact with ⟨l', -, -, -, hl', hclosed, -⟩
      cases Option.some.inj (hl.symm.trans hl')
      exact absurd (hlive.isOpen.symm.trans hclosed) Bool.false_ne_true
    exact ⟨u, [], hstays,
      Market.subscription?_act? hkept.session.fit.paired hkept.buses hu haside hact,
      (Market.receipts_noted hdispatch hspill).trans (List.append_nil _).symm, Or.inl rfl⟩

/-- The keeper has nothing to do with the subscription of a guest. -/
theorem Hosts.onward_of_keep (h : x.Hosts guests) (hguest : ticket ∈ guests)
    (hs : x.market.grant? ticket = some (.seated s)) (hheld : s ∈ x.held)
    (hu : x.market.subscription? s = some u) {backoff : Nat} {w : Warmer} {m : Market}
    (hkeep : Warmer.Steps backoff x.service.stopped x.market x.service.warmer w m) :
    x.Onward (x.afterKeep w m) s u u [] := by
  have hne : ∀ t, x.service.warmer = .feeding t → t ≠ s := by
    rintro t ht rfl
    exact h.seat?_ne hguest hs (seat?_of_feeding ht)
  have hstays : s ∈ x.heldAfterKeep := by
    unfold heldAfterKeep
    split
    · next t ht =>
      split
      · exact List.mem_filter.2 ⟨hheld, decide_eq_true (Ne.symm (hne t ht))⟩
      · exact hheld
    · exact hheld
  refine ⟨hstays, ?_, (List.append_nil _).symm, Or.inl rfl⟩
  generalize hw : x.service.warmer = before at hkeep
  cases hkeep with
  | @leaves t htold =>
      refine (Market.changesBus_removeFeeder x.market t).subscription? hu (fun l hl hline hfound => ?_)
        (fun _ => rfl)
      refine Bus.find?_drop (h.kept.buses l (List.mem_of_getElem? hl)) hfound (fun hid => ?_)
      refine hne t hw ?_
      cases t
      cases s
      cases hline
      cases hid
      rfl
  | _ => exact hu

/-- What a step of a service does to the subscription of a guest. -/
theorem Hosts.onward_of_step? (h : x.Hosts guests) (hguest : ticket ∈ guests)
    (hs : x.market.grant? ticket = some (.seated s)) (hheld : s ∈ x.held)
    (hu : x.market.subscription? s = some u) {a : Action} (hactive : a.leavesAlone s = true)
    (hstep : x.step? a = some x') : ∃ u' published, x.Onward x' s u u' published := by
  cases steps_of_step? hstep with
  | market _ hact => exact h.onward_of_market hguest hs hheld hu hactive hact
  | keep hkeep => exact ⟨u, [], h.onward_of_keep hguest hs hheld hu hkeep⟩
  | _ => exact ⟨u, [], hheld, hu, (List.append_nil _).symm, Or.inl rfl⟩

/-- The subscription of a guest begins held and with nothing in its buffer. -/
theorem Hosts.seated_of_step? (h : x.Hosts guests) (hnone : x.market.grant? ticket = none)
    {a : Action} (hstep : x.step? a = some x') (hs : x'.market.grant? ticket = some (.seated s)) :
    s ∈ x'.held ∧ x'.market.subscription? s = some ⟨s.id, [], true⟩ ∧
      (x'.books s.line).receipts = (x.books s.line).receipts := by
  cases steps_of_step? hstep with
  | market _ hact =>
      rcases h.kept.session.seat_of_act? h.kept.buses hact hnone hs with
        ⟨hanswering, hheld, hfound⟩
      refine ⟨hheld, hfound, Market.receipts_noted ?_ ?_⟩
      · rintro rfl
        exact Bool.false_ne_true hanswering
      · rintro rfl
        exact Bool.false_ne_true hanswering
  | @keep w m hkeep =>
      have hgrant : m.grant? = x.market.grant? := congrArg Table.get? (grows_of_keep hkeep).2.1
      exact absurd (hnone.symm.trans ((congrFun hgrant ticket).symm.trans hs))
        (Option.some_ne_none _).symm
  | _ => exact absurd (hnone.symm.trans hs) (Option.some_ne_none _).symm

/-- A look at a subscription changes the market, and nothing else of a diary. -/
def setMarket (x : Diary) (m : Market) : Diary := { x with service := x.service.setMarket m }

theorem step?_receive (hs : x.service.seat? ≠ some s) :
    x.step? (.market (.receive s)) = some (x.setMarket (x.market.receive s).2) := by
  have hpermits : x.service.permits (.receive s) = true := decide_eq_true hs
  have hseat : (x.service.setMarket (x.market.receive s).2).seat? = x.service.seat? := by
    rcases Market.sameDesk_receive x.market s with ⟨lines, intake, cache, feeders, heq⟩
    rw [heq]
    rfl
  have hmissed : x.missedAfter (x.market.receive s).2 = x.missed := by
    unfold missedAfter
    rw [hseat]
    cases x.service.seat? with
    | none => rfl
    | some t => rfl
  rw [step?_market hpermits rfl, afterMarket, hmissed]
  simp only [cameAfter, overruns, Bool.or_false]
  rfl

end Diary

end Bourse
