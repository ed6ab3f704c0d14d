import Bourse.Proofs.Ledger.Steps
import Bourse.Proofs.Service.Keeper

/-!
# Guests of a Service

The subscription of the keeper is its own: in a diary nobody else reads it or gives it up.
So whoever wants to do that with a subscription has to know that it is not the keeper's. This
can be told from the request that it came of. No two requests are answered with the same
seat, so who made another request than the keeper has another subscription, and that stays so
whatever happens.

## Main definitions

* `Warmer.Asked`: the request of the keeper.
* `Market.Guest`: a request of somebody else.
* `Diary.Hosts`: what is known of a service with guests.

## Theorems

* `Hosts.seat?_ne`: a guest has another subscription than the keeper.
* `Hosts.request`: who asks for a subscription becomes a guest.
* `hosts_of_step?`: guests stay guests.
* `hosts_of_run?`: a service has no guests before somebody comes.
-/

namespace Bourse

/-- The keeper made a request: it waits for the answer, or has the subscription that was the answer. -/
def Warmer.Asked (w : Warmer) (m : Market) (ticket : Nat) : Prop :=
  match w with
  | .asking t => t = ticket
  | .feeding s => m.grant? ticket = some (.seated s)
  | _ => False

/-- Somebody else than the keeper made a request. -/
structure Market.Guest (m : Market) (w : Warmer) (ticket : Nat) : Prop where
  made : ticket < m.requests
  other : ¬ w.Asked m ticket

/-! ## The settings of a ledger -/

namespace Ledger

theorem trading_finish (l : Ledger) (t : Task) (outcome : Option Outcome) :
    (l.finish t outcome).trading = l.trading := by
  unfold finish
  simp only []
  split
  · rfl
  · rfl

theorem trading_stepAt? {l l' : Ledger} {env : Surroundings} {id : Nat}
    (h : l.stepAt? env id = some l') : l'.trading = l.trading := by
  rcases Option.bind_eq_some_iff.1 h with ⟨t, -, hstep⟩
  rcases Option.bind_eq_some_iff.1 hstep with ⟨⟨stepped, shared⟩, -, htask⟩
  cases stepped with
  | ended outcome =>
      rw [← Option.some.inj htask]
      exact trading_finish _ t outcome
  | _ =>
      rw [← Option.some.inj htask]
      rfl

theorem trading_heed? {l l' : Ledger} {id : Nat} (h : l.heed? id = some l') :
    l'.trading = l.trading := by
  rcases heed?_eq_some h with ⟨t, -, -, rfl⟩
  exact trading_finish l t (some .job)

theorem trading_moveBack (l : Ledger) (id : Nat) : (l.moveBack id).trading = l.trading := by
  unfold moveBack
  split
  · rfl
  · rfl

end Ledger

namespace Diary

variable {x x' : Diary} {m m' : Market} {w w' : Warmer} {s : Seat} {guests : List Nat} {ticket : Nat}

/-- What is known of a service with guests, by their requests. -/
structure Hosts (x : Diary) (guests : List Nat) : Prop where
  kept : x.Kept
  apart : x.market.Apart
  made : ∀ ticket, x.service.warmer = .asking ticket → ticket < x.market.requests
  answered : ∀ s, x.service.warmer = .feeding s → ∃ ticket, x.market.grant? ticket = some (.seated s)
  guests : ∀ ticket ∈ guests, x.market.Guest x.service.warmer ticket
  /-- The ledger trades as the service is configured. -/
  settings : x.service.ledger.trading = x.service.config.trading

/-- The subscription of a guest is not that of the keeper. -/
theorem Hosts.seat?_ne (h : x.Hosts guests) (hguest : ticket ∈ guests)
    (hs : x.market.grant? ticket = some (.seated s)) : x.service.seat? ≠ some s := by
  intro hseat
  have hother := (h.guests ticket hguest).other
  unfold Service.seat? at hseat
  unfold Warmer.Asked at hother
  cases hw : x.service.warmer with
  | asking t =>
      rw [hw] at hseat hother
      rcases Option.bind_eq_some_iff.1 hseat with ⟨g, hg, hgrant⟩
      cases g with
      | seated s' =>
          cases Option.some.inj hgrant
          exact hother (h.apart.apart t ticket s hg hs)
      | _ => exact absurd hgrant (by simp only [Grant.seat?, reduceCtorEq, not_false_eq_true])
  | feeding s' =>
      rw [hw] at hseat hother
      cases Option.some.inj hseat
      exact hother hs
  | _ =>
      rw [hw] at hseat
      exact absurd hseat (by simp only [reduceCtorEq, not_false_eq_true])

/-! ## The market -/

/-- Who asks for a subscription becomes a guest. -/
theorem Hosts.guest_of_request (h : x.Hosts guests) :
    x.market.request.2.Guest x.service.warmer x.market.requests := by
  refine ⟨Nat.lt_succ_self _, fun hasked => ?_⟩
  unfold Warmer.Asked at hasked
  cases hw : x.service.warmer with
  | asking t =>
      rw [hw] at hasked
      have hlt := h.made t hw
      rw [hasked] at hlt
      exact absurd hlt (Nat.lt_irrefl _)
  | feeding s =>
      rw [hw] at hasked
      have hnone : x.market.grant? x.market.requests = none :=
        h.kept.session.queued.unanswered _ (Or.inr (Nat.le_refl _))
      exact absurd (hnone.symm.trans hasked) (Option.some_ne_none _).symm
  | _ =>
      rw [hw] at hasked
      exact hasked

/-- A guest stays one when something happens around the market. -/
theorem Hosts.guest_of_market (h : x.Hosts guests) {a : Market.Action}
    (hact : x.market.act? a = some m) (hguest : x.market.Guest x.service.warmer ticket) :
    m.Guest x.service.warmer ticket := by
  have hmade := Market.requests_act? h.kept.session.fit.paired hact
  refine ⟨Nat.lt_of_lt_of_le hguest.made hmade, fun hasked => hguest.other ?_⟩
  unfold Warmer.Asked at hasked ⊢
  cases hw : x.service.warmer with
  | feeding s =>
      rw [hw] at hasked
      -- The keeper has had this seat before, so the request is the one it was the answer to.
      rcases h.answered s hw with ⟨t, ht⟩
      have hapart := h.kept.session.apart_act? h.kept.buses h.apart hact
      have ht' := h.kept.session.grant?_act? h.kept.buses hact ht
      rw [← hapart.apart t ticket s ht' hasked]
      exact ht
  | _ =>
      rw [hw] at hasked
      exact hasked

theorem Hosts.of_market (h : x.Hosts guests) {a : Market.Action}
    (hpermits : x.service.permits a = true) (hact : x.market.act? a = some m) :
    (x.afterMarket a m).Hosts guests := by
  have hmade := Market.requests_act? h.kept.session.fit.paired hact
  refine ⟨h.kept.of_market hpermits hact, h.kept.session.apart_act? h.kept.buses h.apart hact,
    fun t ht => Nat.lt_of_lt_of_le (h.made t ht) hmade, fun s hs => ?_,
    fun t ht => h.guest_of_market hact (h.guests t ht), h.settings⟩
  rcases h.answered s hs with ⟨t, ht⟩
  exact ⟨t, h.kept.session.grant?_act? h.kept.buses hact ht⟩

theorem Hosts.request (h : x.Hosts guests) :
    (x.afterMarket .request x.market.request.2).Hosts (x.market.requests :: guests) := by
  have hafter := h.of_market (a := .request) rfl rfl
  refine ⟨hafter.kept, hafter.apart, hafter.made, hafter.answered, fun t ht => ?_, hafter.settings⟩
  rcases List.mem_cons.1 ht with rfl | hold
  · exact h.guest_of_request
  · exact hafter.guests t hold

/-! ## The keeper -/

/-- The keeper leaves the answers as they are, and of the lines at most its own subscription. -/
theorem grows_of_keep {backoff : Nat} {stop : Bool} (hkeep : Warmer.Steps backoff stop m w w' m') :
    m.Grows m' ∧ m'.grants = m.grants ∧ m.requests ≤ m'.requests := by
  cases hkeep with
  | @leaves s htold =>
      rcases Market.sameDesk_removeFeeder m s with ⟨_, _, _, _, hdesk⟩
      refine ⟨(Market.changesBus_removeFeeder m s).grows (fun l _ => Bus.altered_drop l.bus s.id),
        ?_, ?_⟩
      · rw [hdesk]
      · rw [hdesk]
  | asks hdue => exact ⟨Market.grows_of_lines rfl, rfl, Nat.le_succ _⟩
  | _ => exact ⟨Market.grows_of_lines rfl, rfl, Nat.le_refl _⟩

theorem Hosts.of_keep (h : x.Hosts guests) (hw : x.service.warmer = w)
    (hkeep : Warmer.Steps x.service.config.quotes.resubscribeBackoffMs x.service.stopped x.market
      w w' m) : (x.afterKeep w' m).Hosts guests := by
  rcases grows_of_keep hkeep with ⟨hgrows, hgrants, hmade⟩
  have hkept := h.kept.of_keep hw hkeep
  have hapart := h.apart.of_grows hgrows hgrants
  have hguests := h.guests
  rw [hw] at hguests
  cases hkeep with
  | @seated t s hanswer =>
      -- The answer was that to the request of the keeper, and to no other.
      refine ⟨hkept, hapart, fun _ hasking => Warmer.noConfusion hasking, fun s' hs' => ?_,
        fun ticket hguest => ⟨(hguests ticket hguest).made, fun hasked => ?_⟩, h.settings⟩
      · cases Warmer.feeding.inj hs'
        exact ⟨t, hanswer⟩
      · exact (hguests ticket hguest).other (h.apart.apart t ticket s hanswer hasked)
  | asks hdue =>
      refine ⟨hkept, hapart, fun ticket hasking => ?_, fun _ hs => Warmer.noConfusion hs,
        fun ticket hguest => ?_, h.settings⟩
      · rw [← Warmer.asking.inj hasking]
        exact Nat.lt_succ_self _
      · have hbefore := (hguests ticket hguest).made
        exact ⟨Nat.lt_of_lt_of_le hbefore hmade, fun hasked => Nat.ne_of_gt hbefore hasked⟩
  | _ =>
      exact ⟨hkept, hapart, fun _ hasking => Warmer.noConfusion hasking,
        fun _ hs => Warmer.noConfusion hs,
        fun ticket hguest => ⟨Nat.lt_of_lt_of_le (hguests ticket hguest).made hmade, id⟩, h.settings⟩

/-! ## Steps -/

/-- Guests stay guests, whatever happens. -/
theorem hosts_of_step? {a : Action} (h : x.Hosts guests) (hstep : x.step? a = some x') :
    x'.Hosts guests := by
  have hkept := kept_of_step? h.kept hstep
  cases steps_of_step? hstep with
  | market hpermits hact => exact h.of_market hpermits hact
  | keep hkeep => exact h.of_keep rfl hkeep
  | task htask =>
      exact ⟨hkept, h.apart, h.made, h.answered, h.guests,
        (Ledger.trading_stepAt? htask).trans h.settings⟩
  | moveBack id =>
      exact ⟨hkept, h.apart, h.made, h.answered, h.guests,
        (Ledger.trading_moveBack _ id).trans h.settings⟩
  | heed htold hheed =>
      exact ⟨hkept, h.apart, h.made, h.answered, h.guests,
        (Ledger.trading_heed? hheed).trans h.settings⟩
  | _ => exact ⟨hkept, h.apart, h.made, h.answered, h.guests, h.settings⟩

/-- Answers stay, whatever happens. -/
theorem grant?_of_step? {a : Action} {g : Grant} (h : x.Kept) (hstep : x.step? a = some x')
    (hg : x.market.grant? ticket = some g) : x'.market.grant? ticket = some g := by
  cases steps_of_step? hstep with
  | market hpermits hact => exact h.session.grant?_act? h.buses hact hg
  | @keep w m hkeep =>
      have hgrant : m.grant? = x.market.grant? := congrArg Table.get? (grows_of_keep hkeep).2.1
      exact (congrFun hgrant ticket).trans hg
  | _ => exact hg

/-- A service that has just been started has no guests. -/
theorem hosts_opened (config : Config) (buffer delay failures : Nat) (time : Timestamp) :
    (opened config buffer delay failures time).Hosts [] := by
  refine ⟨kept_opened config buffer delay failures time, ⟨fun _ _ hs => ?_, fun _ _ _ hs => ?_⟩,
    fun ticket hasking => ?_, fun _ hs => Warmer.noConfusion hs,
    fun _ hguest => absurd hguest List.not_mem_nil, rfl⟩
  · exact absurd hs.symm (Option.some_ne_none _)
  · exact absurd hs.symm (Option.some_ne_none _)
  · rw [← Warmer.asking.inj hasking]
    exact Nat.lt_succ_self 0

theorem hosts_of_run? {config : Config} {buffer delay failures : Nat} {time : Timestamp}
    {actions : List Action} (hrun : (opened config buffer delay failures time).run? actions = some x) :
    x.Hosts [] ∧ x.service.config = config :=
  run_induction (fun _ x => x.Hosts [] ∧ x.service.config = config)
    ⟨hosts_opened config buffer delay failures time, rfl⟩
    (fun _ _ _ _ _ h hstep =>
      ⟨hosts_of_step? h.1 hstep, (config_of_step? hstep).trans h.2⟩) hrun

end Diary

end Bourse
