import Bourse.Market.Watch
import Bourse.Proofs.Intake.Clients
import Bourse.Proofs.Market.Sharing

/-!
# Sessions of Clients

Everything that watchers do to the market, and all that happens while they wait, is a run
of a session. The market of the watchers takes its steps in a fixed order and settles
before the clock moves on; a session may do so as well. So what is true after every run
of every session is true of every market that somebody watches.

## Main definitions

* `Market.Reaches`: where that which can happen leads from a market.
* `Exchange.Action`, `Exchange.act`: what watchers can do, and the feed meanwhile.

## Theorems

* `exists_act?`: a step of the market is something that can happen by itself.
* `exists_run_of_reaches`: where that leads, a run leads.
* `reaches_settle`, `reaches_await`, `reaches_subscribe`: what the market does by itself.
* `exists_run_of_exchange`: whatever watchers do, there is a run that leads there.
-/

namespace Bourse

/-- Whether something happens to a market without anybody from outside. -/
def Market.Action.isOwn : Market.Action → Bool
  | .nextTurn | .endAttempt | .takeSeat | .feed _ | .dispatch _ | .turn .. => true
  | _ => false

namespace Market

variable {m m' : Market} {i : Nat}

/-! ## Steps -/

/-- A step of the market is something that can happen by itself. -/
theorem exists_act? (h : m.step? = some m') :
    ∃ a : Action, a.isOwn = true ∧ m.act? a = some m' := by
  simp only [step?, Option.orElse_eq_some] at h
  rcases h with hseat | ⟨-, hturn | ⟨-, hdispatch | ⟨-, hfeed | ⟨-, hend | ⟨-, hnext⟩⟩⟩⟩⟩
  · exact ⟨.takeSeat, rfl, hseat⟩
  · rcases Option.map_eq_some_iff.1 hturn with ⟨intake, hstep, rfl⟩
    rcases Intake.exists_turnAt? hstep with ⟨i, branch, hi⟩
    exact ⟨.turn i branch, rfl, congrArg (Option.map _) hi⟩
  · rcases List.exists_of_findSome?_eq_some hdispatch with ⟨i, -, hi⟩
    exact ⟨.dispatch i, rfl, hi⟩
  · rcases List.exists_of_findSome?_eq_some hfeed with ⟨s, hs, hfed⟩
    exact ⟨.feed s, rfl, (if_pos hs).trans hfed⟩
  · exact ⟨.endAttempt, rfl, hend⟩
  · exact ⟨.nextTurn, rfl, hnext⟩

/-- What everything that happens by itself keeps is kept while the market settles. -/
theorem settle_induction (P : Market → Prop)
    (hact : ∀ m m' (a : Action), P m → a.isOwn = true → m.act? a = some m' → P m') (hm : P m) :
    P m.settle := by
  suffices hrun : ∀ fuel m, P m → P (run fuel m) from hrun m.enough m hm
  intro fuel
  induction fuel with
  | zero => exact fun m hm => hm
  | succ fuel ih =>
      intro m hm
      rw [run]
      split
      · next m' hstep =>
        rcases exists_act? hstep with ⟨a, hown, ha⟩
        exact ih m' (hact m m' a hm hown ha)
      · exact hm

/-! ## The clock -/

theorem now_changeBus (m : Market) (i : Nat) (f : Bus → Bus) : (m.changeBus i f).now = m.now := by
  unfold changeBus
  simp only []
  split
  · rfl
  · rfl

theorem now_receive (m : Market) (s : Seat) : (m.receive s).2.now = m.now := by
  unfold receive
  split
  · rfl
  · rfl

theorem now_nextTurn? (h : m.nextTurn? = some m') : m'.now = m.now :=
  congrArg Intake.now (intake_of_nextTurn? h)

theorem now_endAttempt? (h : m.endAttempt? = some m') : m'.now = m.now := by
  rcases attempt_of_endAttempt? h with ⟨a, hattempt, hline, hdue⟩
  rw [endAttempt?_eq hattempt hline hdue] at h
  rw [← Option.some.inj h]
  rcases Chronicle.cases_of_attempt m.intake false with ⟨-, hr⟩ | ⟨r, feed, hr, hnot, -⟩
  · rw [hr]
    rfl
  · rw [hr]
    cases r with
    | opened i => exact absurd rfl (hnot i)
    | _ => rfl

theorem now_takeSeat? (h : m.takeSeat? = some m') : m'.now = m.now := by
  rcases cases_of_takeSeat? h with ⟨a, i, -, -, ⟨l, bus, -, -, rfl⟩ | rfl | ⟨e, rfl⟩⟩
  · rfl
  · rfl
  · rfl

theorem now_feed? {s : Seat} (h : m.feed? s = some m') : m'.now = m.now := by
  rcases cases_of_feed? h with ⟨q, -, rfl⟩ | ⟨-, rfl⟩
  · exact now_receive m s
  · exact (now_changeBus _ _ _).trans (now_receive m s)

theorem now_dispatchAt? (h : m.dispatchAt? i = some m') : m'.now = m.now := by
  simp only [dispatchAt?, Option.bind_eq_bind] at h
  rcases Option.bind_eq_some_iff.1 h with ⟨l, -, h⟩
  split at h
  · exact absurd h (by simp only [reduceCtorEq, not_false_eq_true])
  · split at h
    · rw [← Option.some.inj h]
      rfl
    · split at h
      · next q intake hitem =>
        rcases Chronicle.receive_eq_item hitem with ⟨w, rest, -, -, rfl⟩
        rw [← Option.some.inj h]
        exact now_changeBus _ _ _
      · rw [← Option.some.inj h]
        exact now_changeBus m i _
      · exact absurd h (by simp only [reduceCtorEq, not_false_eq_true])

/-- Nothing that happens by itself moves the clock. -/
theorem now_act? {a : Action} (hown : a.isOwn = true) (h : m.act? a = some m') :
    m'.now = m.now := by
  cases a with
  | nextTurn => exact now_nextTurn? h
  | endAttempt => exact now_endAttempt? h
  | takeSeat => exact now_takeSeat? h
  | feed s =>
      simp only [act?] at h
      split at h
      · exact now_feed? h
      · exact absurd h (by simp only [reduceCtorEq, not_false_eq_true])
  | dispatch i => exact now_dispatchAt? h
  | turn i branch =>
      rcases Option.map_eq_some_iff.1 h with ⟨intake, hturn, rfl⟩
      rcases Intake.turnAt?_eq_some hturn with ⟨w, e, moved, -, -, rfl⟩
      rfl
  | _ => exact absurd hown Bool.false_ne_true

theorem lawful_virtual : virtual.Lawful :=
  ⟨fun m => settle_induction (fun m' => m'.now = m.now)
      (fun _ _ _ hnow hown h => (now_act? hown h).trans hnow) rfl,
    fun _ _ => rfl⟩

/-! ## Where sessions can go -/

/-- Some things can happen that lead from the one market to the other. -/
abbrev Reaches : Market → Market → Prop :=
  Relation.ReflTransGen (fun m m' => ∃ a, m.act? a = some m')

theorem exists_run_of_reaches (h : m.Reaches m') {x : Session} (hx : x.market = m) :
    ∃ actions x', x.run? actions = some x' ∧ x'.market = m' := by
  induction h using Relation.ReflTransGen.head_induction_on generalizing x with
  | refl => exact ⟨[], x, rfl, hx⟩
  | @head m m₁ hstep _ ih =>
      rcases hstep with ⟨a, ha⟩
      subst hx
      have hfirst : x.step? a = some ⟨m₁, x.heldAfter m₁ a⟩ := by rw [Session.step?, ha]; rfl
      rcases ih (x := ⟨m₁, x.heldAfter m₁ a⟩) rfl with ⟨rest, x₂, hrest, hx₂⟩
      exact ⟨a :: rest, x₂, by rw [Session.run?, hfirst]; exact hrest, hx₂⟩

theorem reaches_of_act? (a : Action) (h : m.act? a = some m') : m.Reaches m' := .single ⟨a, h⟩

theorem reaches_settle (m : Market) : m.Reaches m.settle :=
  settle_induction m.Reaches (fun _ _ _ h _ hact => h.trans (reaches_of_act? _ hact)) .refl

theorem reaches_moved {t : Nat} (h : m.now ≤ t) : m.Reaches (m.moved t) := by
  refine reaches_of_act? (.wait (t - m.now)) ?_
  rw [act?, Nat.add_sub_cancel' h]

/-- Whatever is waited for, and however long. -/
theorem reaches_await (done : Market → Bool) (ms : Nat) (m : Market) :
    m.Reaches (virtual.await done ms m) :=
  Virtual.await_induction lawful_virtual m.Reaches (fun m' h => h.trans (reaches_settle m'))
    (fun _ _ hle h => h.trans (reaches_moved hle)) done ms (.refl)

theorem reaches_subscribe (m : Market) : m.Reaches m.subscribe.2 :=
  (reaches_of_act? (.request) rfl).trans (reaches_await _ _ m.request.2)

theorem reaches_ask (m : Market) (symbol : String) (maxAge timeout : Nat) :
    m.Reaches (m.ask symbol maxAge timeout).2 := reaches_await _ timeout m

theorem reaches_leave (m : Market) (s : Seat) : m.Reaches (m.leave s) :=
  reaches_of_act? (.leave s) rfl

theorem reaches_receive (m : Market) (s : Seat) : m.Reaches (m.receive s).2 :=
  reaches_of_act? (.receive s) rfl

end Market

/-! ## What watchers do -/

theorem Watch.seat_offer (w : Watch) (now : Nat) (q : Quote) :
    (w.offer now q).2.seat = w.seat := by
  unfold offer
  split
  · split
    · rfl
    · rfl
  · rfl

/-- Looking for a quote that passes reads the subscription of the watch and does nothing else. -/
theorem Watch.next_induction {seat : Seat} (P : Market → Prop)
    (hread : ∀ m, P m → P (m.receive seat).2) (fuel : Nat) {w : Watch} {m : Market}
    (hw : w.seat = seat) (hm : P m) :
    (w.next fuel m).2.1.seat = seat ∧ P (w.next fuel m).2.2 := by
  induction fuel generalizing w m with
  | zero => exact ⟨hw, hm⟩
  | succ fuel ih =>
      have hafter := hread m hm
      rw [next]
      split
      · exact ⟨hw, hm⟩
      rw [hw]
      cases hreceive : m.receive seat with
      | mk r m' =>
          rw [hreceive] at hafter
          cases r with
          | item q =>
              have hseat := (w.seat_offer m'.now q).trans hw
              simp only []
              split
              · next hoffer =>
                rw [hoffer] at hseat
                exact ⟨hseat, hafter⟩
              · next hoffer =>
                rw [hoffer] at hseat
                exact ih hseat hafter
          | _ => exact ⟨hw, hafter⟩

/-- Taking the quotes of a watch reads its subscription, and the watch has the same one after it. -/
theorem Exchange.drain?_induction {x x' : Exchange} {name : String} {limit : Option Nat} {w : Watch}
    {d : Drained Quote} (P : Market → Prop) (hw : x.watches.get? name = some w)
    (hread : ∀ m, P m → P (m.receive w.seat).2) (hx : P x.market)
    (h : x.drain? name limit = some (d, x')) :
    P x'.market ∧ ∃ w', w'.seat = w.seat ∧ x'.watches = x.watches.insert name w' := by
  simp only [drain?, hw, Option.bind_eq_bind, Option.bind_some, Option.some.injEq,
    Prod.mk.injEq] at h
  rcases h with ⟨-, rfl⟩
  have hdrained := drain_induction (fun p : Watch × Market => p.1.seat = w.seat ∧ P p.2)
    (fun p hp => Watch.next_induction P hread (w.buffered x.market + 1) hp.1 hp.2)
    (w.buffered x.market + 1) limit (s := (w, x.market)) ⟨rfl, hx⟩
  exact ⟨hdrained.2, _, hdrained.1, rfl⟩

/-- What watchers can do, and the feed meanwhile. -/
inductive Exchange.Action where
  | watch (name : String) (w : Seat → Watch)
  | feedCache
  | drop (name : String)
  | drain (name : String) (limit : Option Nat)
  /-- Somebody asks for a price. -/
  | ask (symbol : String) (maxAge timeout : Nat)
  | settle
  | wait (ms : Nat)
  | tend (t : StagedFeed.Tending)

namespace Exchange

/-- The exchange after something has been done. -/
def act (x : Exchange) : Action → Exchange
  | .watch name w => (x.watch name w).2
  | .feedCache => x.feedCache.2
  | .drop name => (x.drop name).2
  | .drain name limit => ((x.drain? name limit).map (·.2)).getD x
  | .ask symbol maxAge timeout => { x with market := (x.market.ask symbol maxAge timeout).2 }
  | .settle => x.settle
  | .wait ms => x.wait ms
  | .tend t =>
    { x with market := { x.market with
      intake := { x.market.intake with feed := x.market.intake.feed.tend t } } }

def after (x : Exchange) (actions : List Action) : Exchange := actions.foldl act x

theorem reaches_drop (x : Exchange) (name : String) : x.market.Reaches (x.drop name).2.market := by
  unfold drop
  split
  · exact .refl
  · exact Market.reaches_leave _ _

theorem reaches_watch (x : Exchange) (name : String) (w : Seat → Watch) :
    x.market.Reaches (x.watch name w).2.market := by
  have hsubscribe := Market.reaches_subscribe x.market
  unfold watch
  cases hanswer : x.market.subscribe with
  | mk g m =>
      rw [hanswer] at hsubscribe
      simp only []
      split
      · exact hsubscribe.trans (reaches_drop { x with market := m } name)
      · exact hsubscribe

theorem reaches_feedCache (x : Exchange) : x.market.Reaches x.feedCache.2.market := by
  have hsubscribe := Market.reaches_subscribe x.market
  unfold feedCache
  cases hanswer : x.market.subscribe with
  | mk g m =>
      rw [hanswer] at hsubscribe
      simp only []
      split
      · next seat => exact hsubscribe.trans (Market.reaches_of_act? (.addFeeder seat) rfl)
      · exact hsubscribe

theorem reaches_drain (x : Exchange) (name : String) (limit : Option Nat) :
    x.market.Reaches (x.act (.drain name limit)).market := by
  rw [act]
  cases hdrain : x.drain? name limit with
  | none => exact .refl
  | some p =>
      cases hw : x.watches.get? name with
      | none =>
          rw [drain?, hw] at hdrain
          exact absurd hdrain.symm (Option.some_ne_none p)
      | some w =>
          exact (drain?_induction x.market.Reaches hw
            (fun m h => h.trans (Market.reaches_receive m w.seat)) .refl hdrain).1

theorem reaches_act (x : Exchange) (a : Action) : x.market.Reaches (x.act a).market := by
  cases a with
  | watch name w => exact reaches_watch x name w
  | feedCache => exact reaches_feedCache x
  | drop name => exact reaches_drop x name
  | drain name limit => exact reaches_drain x name limit
  | ask symbol maxAge timeout => exact Market.reaches_ask x.market symbol maxAge timeout
  | settle => exact Market.reaches_settle x.market
  | wait ms => exact Market.reaches_await _ ms x.market
  | tend t => exact Market.reaches_of_act? (.tend t) rfl

/-- Whatever watchers do, there is a run that leads to the same market. -/
theorem exists_run_of_exchange (settings : IngestorSettings)
    (buffer delay failures capacity : Nat) (done : List Action) : ∃ actions x,
      (Session.opened settings buffer delay failures capacity).run? actions = some x ∧
      x.market = ((create (.create settings (.create buffer delay failures) capacity)).after
        done).market := by
  suffices hafter : ∀ x : Exchange, x.market.Reaches (x.after done).market from
    Market.exists_run_of_reaches
      (hafter (create (.create settings (.create buffer delay failures) capacity))) rfl
  induction done with
  | nil => exact fun x => .refl
  | cons a rest ih => exact fun x => (reaches_act x a).trans (ih (x.act a))

end Exchange

end Bourse
