import Bourse.Proofs.Floor.Tasks
import Bourse.Proofs.Service.Guests

/-!
# Callers of a Service

Everything that callers do to a service, and all that goes on while they wait, is a run of
a diary. The service takes its steps in a fixed order and settles before the clock moves on;
a diary may do so as well. And a watch is on a subscription that a request of its own was
answered with, so reading and leaving it is nothing that a diary does not permit. So what is
true after every run of every diary is true of every service that somebody calls.

The one thing that a diary does not tell is which watches are on the list.

## Main definitions

* `Service.Action`, `Service.act`: what callers can do, and the feed meanwhile.
* `Service.Goes`: one step of a diary leads from a service to another one.
* `Diary.TellsOf`: a diary tells of a service.
* `Diary.Leads`: some things can happen that lead from a diary to a service.

## Theorems

* `lawful_virtual`: the clock of a service is moved from outside only.
* `await_of_goes`: what is kept by all that goes on is kept while somebody waits.
* `Leads.perform`, `Leads.watch`: what it does for callers.
* `exists_run_of_service`: whatever callers do, there is a run that leads there.
-/

namespace Bourse

namespace Service

variable {s s' : Service}

/-! ## The clock -/

/-- What steps of the service keep is kept while it settles. -/
theorem settle_induction (P : Service → Prop) (hstep : ∀ s s', P s → s.step? = some s' → P s')
    (hs : P s) : P s.settle := by
  suffices hrun : ∀ fuel s, P s → P (run fuel s) from hrun s.enough s hs
  intro fuel
  induction fuel with
  | zero => exact fun s hs => hs
  | succ fuel ih =>
      intro s hs
      rw [run]
      split
      · next s' hnext => exact ih s' (hstep s s' hs hnext)
      · exact hs

/-- What the next step of a service can be. -/
theorem cases_of_step? (h : s.step? = some s') :
    (∃ m, s.market.step? = some m ∧ s' = s.setMarket m) ∨
    (∃ warmer m, s.warmer.step? s.config.quotes.resubscribeBackoffMs s.stopped s.market =
      some (warmer, m) ∧ s' = { s.setMarket m with warmer }) ∨
    s.heed? = some s' ∨
    ∃ id, s' = { s with ledger := Ledger.runTask s.surroundings id s.ledger.enough s.ledger } := by
  simp only [step?, Option.orElse_eq_some] at h
  rcases h with hmarket | ⟨-, hkeep | ⟨-, hheed | ⟨-, htask⟩⟩⟩
  · rcases Option.map_eq_some_iff.1 hmarket with ⟨m, hm, rfl⟩
    exact Or.inl ⟨m, hm, rfl⟩
  · rcases Option.map_eq_some_iff.1 hkeep with ⟨⟨warmer, m⟩, hm, rfl⟩
    exact Or.inr (Or.inl ⟨warmer, m, hm, rfl⟩)
  · exact Or.inr (Or.inr (Or.inl hheed))
  · rcases Option.map_eq_some_iff.1 htask with ⟨id, -, rfl⟩
    exact Or.inr (Or.inr (Or.inr ⟨id, rfl⟩))

/-- The job heeds the stop signal, and only the ledger changes. -/
theorem heed?_eq_some (h : s.heed? = some s') : s.stopped = true ∧
    ∃ ledger, s.ledger.heed? s.job = some ledger ∧ s' = { s with ledger } := by
  unfold heed? at h
  split_ifs at h with htold
  rcases Option.map_eq_some_iff.1 h with ⟨ledger, hheed, rfl⟩
  exact ⟨htold, ledger, hheed, rfl⟩

/-- The keeper does not move the clock. -/
theorem now_of_keep {backoff : Nat} {stop : Bool} {m m' : Market} {w w' : Warmer}
    (h : Warmer.Steps backoff stop m w w' m') : m'.now = m.now := by
  cases h with
  | leaves htold => exact Market.now_changeBus _ _ _
  | _ => rfl

/-- Nothing that happens by itself moves the clock. -/
theorem now_step? (h : s.step? = some s') : s'.now = s.now := by
  rcases cases_of_step? h with ⟨m, hm, rfl⟩ | ⟨warmer, m, hkeep, rfl⟩ | hheed | ⟨id, rfl⟩
  · rcases Market.exists_act? hm with ⟨a, hown, ha⟩
    exact Market.now_act? hown ha
  · exact now_of_keep (Warmer.steps_of_step? hkeep)
  · rcases heed?_eq_some hheed with ⟨-, ledger, -, rfl⟩
    rfl
  · rfl

theorem lawful_virtual : virtual.Lawful :=
  ⟨fun s => settle_induction (fun s' => s'.now = s.now)
      (fun _ _ hnow hstep => (now_step? hstep).trans hnow) rfl,
    fun _ _ => rfl⟩

/-! ## What callers do -/

/-- What callers can do, and the feed meanwhile. -/
inductive Action where
  | authenticate (token : String)
  | portfolio (user : String)
  | trade (user : String) (request : TradeRequest)
  | history (user : String)
  | snapshots (user : String)
  | watch (name symbol : String)
  | poll (name : String)
  | drop (name : String)
  | settle
  | wait (ms : Nat)
  /-- Somebody sets the time of day. -/
  | clock (time : Timestamp)
  | shutdown
  | tend (t : StagedFeed.Tending)

/-- The service after something has been done. -/
def act (s : Service) : Action → Service
  | .authenticate token => (s.authenticate token).2
  | .portfolio user => (s.portfolio user).2
  | .trade user request => (s.trade user request).2
  | .history user => (s.history user).2
  | .snapshots user => (s.snapshots user).2
  | .watch name symbol => (s.watch name symbol).2
  | .poll name => ((s.poll? name).map (·.2)).getD s
  | .drop name => (s.drop name).2
  | .settle => s.settle
  | .wait ms => s.wait ms
  | .clock time => s.setTime time
  | .shutdown => s.shutdown
  | .tend t => s.setMarket { s.market with
      intake := { s.market.intake with feed := s.market.intake.feed.tend t } }

def after (s : Service) (actions : List Action) : Service := actions.foldl act s

/-- The service with another list of watches. -/
def withWatches (s : Service) (watches : Table String Watch) : Service :=
  { s with exchange := { s.exchange with watches } }

/-! ## What goes on by itself -/

/-- One step of a diary leads from a service to another one, and leaves all subscriptions to their
holders. -/
def Goes (s s' : Service) : Prop :=
  ∀ (y : Diary) watches, s = y.service.withWatches watches →
    ∃ a y', (∀ t, a.leavesAlone t = true) ∧ y.step? a = some y' ∧
      s' = y'.service.withWatches watches

/-- Something happens around the market. -/
theorem goes_market {a : Market.Action} {m : Market}
    (hleaves : ∀ t, Diary.Action.leavesAlone (.market a) t = true)
    (hpermits : s.permits a = true) (hact : s.market.act? a = some m) : s.Goes (s.setMarket m) := by
  rintro y watches rfl
  exact ⟨.market a, y.afterMarket a m, hleaves, Diary.step?_market hpermits hact, rfl⟩

/-- The keeper takes a step. -/
theorem goes_keep {warmer : Warmer} {m : Market}
    (hkeep : s.warmer.step? s.config.quotes.resubscribeBackoffMs s.stopped s.market =
      some (warmer, m)) : s.Goes { s.setMarket m with warmer } := by
  rintro y watches rfl
  exact ⟨.keep, y.afterKeep warmer m, fun _ => rfl, congrArg (Option.map _) hkeep, rfl⟩

/-- A task takes a step. -/
theorem goes_task {id : Nat} {ledger : Ledger}
    (htask : s.ledger.stepAt? s.surroundings id = some ledger) : s.Goes { s with ledger } := by
  rintro y watches rfl
  exact ⟨.task id, y.setLedger ledger, fun _ => rfl, congrArg (Option.map _) htask, rfl⟩

theorem goes_moveBack (s : Service) (id : Nat) :
    s.Goes { s with ledger := s.ledger.moveBack id } := by
  rintro y watches rfl
  exact ⟨.moveBack id, _, fun _ => rfl, rfl, rfl⟩

/-- Somebody comes with an errand. -/
theorem goes_enter (s : Service) (e : Errand) :
    s.Goes { s with ledger := (s.ledger.spawn (e.operation s.config.trading)).2 } := by
  rintro y watches rfl
  exact ⟨.enter e, _, fun _ => rfl, rfl, rfl⟩

/-- The stop signal fires. -/
theorem goes_stop (s : Service) : s.Goes { s with stopped := true } := by
  rintro y watches rfl
  exact ⟨.stop, _, fun _ => rfl, rfl, rfl⟩

/-- The job heeds it. -/
theorem goes_heed (hheed : s.heed? = some s') : s.Goes s' := by
  rintro y watches rfl
  rcases heed?_eq_some hheed with ⟨htold, ledger, hledger, rfl⟩
  refine ⟨.heed, y.setLedger ledger, fun _ => rfl, Option.map_eq_some_iff.2 ⟨_, ?_, rfl⟩, rfl⟩
  rw [heed?, if_pos (show y.service.stopped = true from htold),
    show y.service.ledger.heed? y.service.job = some ledger from hledger]
  rfl

/-- Somebody sets the time of day. -/
theorem goes_clock (s : Service) (time : Timestamp) : s.Goes (s.setTime time) := by
  rintro y watches rfl
  exact ⟨.clock time, _, fun _ => rfl, rfl, rfl⟩

theorem leavesAlone_of_isOwn {a : Market.Action} (h : a.isOwn = true) (t : Seat) :
    Diary.Action.leavesAlone (.market a) t = true := by
  cases a with
  | leave t' => exact absurd h Bool.false_ne_true
  | receive t' => exact absurd h Bool.false_ne_true
  | _ => rfl

section Induction

variable (P : Service → Prop) (hgoes : ∀ s s', P s → s.Goes s' → P s')

include hgoes

/-- What is kept by all that goes on is kept by the next step of a service. -/
theorem step?_induction (hs : P s) (hstep : s.step? = some s') : P s' := by
  rcases cases_of_step? hstep with ⟨m, hm, rfl⟩ | ⟨warmer, m, hkeep, rfl⟩ | hheed | ⟨id, rfl⟩
  · rcases Market.exists_act? hm with ⟨a, hown, ha⟩
    exact hgoes _ _ hs (goes_market (leavesAlone_of_isOwn hown) (permits_of_isOwn hown) ha)
  · exact hgoes _ _ hs (goes_keep hkeep)
  · exact hgoes _ _ hs (goes_heed hheed)
  · exact Ledger.runTask_induction (fun ledger => P { s with ledger })
      (fun l _ hl htask => hgoes { s with ledger := l } _ hl (goes_task htask))
      (fun l hl => hgoes { s with ledger := l } _ hl (goes_moveBack _ id)) _ hs

theorem settle_of_goes (hs : P s) : P s.settle :=
  settle_induction P (fun _ _ hs hstep => step?_induction P hgoes hs hstep) hs

/-- Whatever is waited for, and however long. -/
theorem await_of_goes (done : Service → Bool) (ms : Nat) (hs : P s) :
    P (virtual.await done ms s) := by
  refine Virtual.await_induction lawful_virtual P (fun _ hs => settle_of_goes P hgoes hs)
    (fun t s hle hs => hgoes _ _ hs ?_) done ms hs
  refine goes_market (a := .wait (t - s.now)) (fun _ => rfl) rfl ?_
  have hnow : s.market.now + (t - s.now) = t := Nat.add_sub_cancel' hle
  rw [Market.act?, hnow]

end Induction

end Service

namespace Diary

variable {x x' y y' : Diary} {guests : List Nat} {s s' : Service} {a : Action}

/-- A diary tells of a service. The watches on its list are those of guests. -/
structure TellsOf (x : Diary) (guests : List Nat) (s : Service) : Prop where
  hosts : x.Hosts guests
  same : ∃ watches, s = x.service.withWatches watches
  watches : ∀ name w, s.exchange.watches.get? name = some w →
    ∃ ticket ∈ guests, s.market.grant? ticket = some (.seated w.seat)

/-- Some things can happen that lead from a diary to a service. -/
def Leads (x : Diary) (guests : List Nat) (s : Service) : Prop :=
  ∃ y, Relation.ReflTransGen (fun x y => ∃ a, x.step? a = some y) x y ∧ y.TellsOf guests s

/-- A diary tells of the service after a step of it. -/
theorem TellsOf.step {watches : Table String Watch}
    (h : y.TellsOf guests (y.service.withWatches watches)) (hstep : y.step? a = some y') :
    y'.TellsOf guests (y'.service.withWatches watches) := by
  refine ⟨hosts_of_step? h.hosts hstep, ⟨watches, rfl⟩, fun name w hw => ?_⟩
  rcases h.watches name w hw with ⟨ticket, hguest, hs⟩
  exact ⟨ticket, hguest, grant?_of_step? h.hosts.kept hstep hs⟩

/-- What goes on leads on. -/
theorem Leads.goes (h : x.Leads guests s) (hgoes : s.Goes s') : x.Leads guests s' := by
  rcases h with ⟨y, hreach, htells⟩
  rcases htells.same with ⟨watches, rfl⟩
  rcases hgoes y watches rfl with ⟨a, y', -, hy', rfl⟩
  exact ⟨y', hreach.tail ⟨a, hy'⟩, htells.step hy'⟩

/-! ## Steps -/

/-- Something happens around the market, be it that somebody reads or gives up a subscription. -/
theorem Leads.market {a : Market.Action} {m : Market} (h : x.Leads guests s)
    (hpermits : s.permits a = true) (hact : s.market.act? a = some m) :
    x.Leads guests (s.setMarket m) := by
  rcases h with ⟨y, hreach, htells⟩
  rcases htells.same with ⟨watches, rfl⟩
  have hstep : y.step? (.market a) = some (y.afterMarket a m) := step?_market hpermits hact
  exact ⟨y.afterMarket a m, hreach.tail ⟨_, hstep⟩, htells.step hstep⟩

/-- Somebody asks for a subscription, and is a guest from now on. -/
theorem Leads.request (h : x.Leads guests s) :
    x.Leads (s.market.requests :: guests) (s.setMarket s.market.request.2) := by
  rcases h with ⟨y, hreach, htells⟩
  rcases htells.same with ⟨watches, rfl⟩
  refine ⟨_, hreach.tail ⟨.market .request, rfl⟩, htells.hosts.request, ⟨watches, rfl⟩,
    fun name w hw => ?_⟩
  rcases htells.watches name w hw with ⟨ticket, hguest, hs⟩
  exact ⟨ticket, List.mem_cons_of_mem _ hguest, hs⟩

/-- The list of watches changes. -/
theorem Leads.withWatches {watches : Table String Watch} (h : x.Leads guests s)
    (hwatches : ∀ name w, watches.get? name = some w →
      ∃ ticket ∈ guests, s.market.grant? ticket = some (.seated w.seat)) :
    x.Leads guests (s.withWatches watches) := by
  rcases h with ⟨y, hreach, htells⟩
  rcases htells.same with ⟨before, rfl⟩
  exact ⟨y, hreach, htells.hosts, ⟨watches, rfl⟩, hwatches⟩

theorem Leads.watches (h : x.Leads guests s) {name : String} {w : Watch}
    (hw : s.exchange.watches.get? name = some w) :
    ∃ ticket ∈ guests, s.market.grant? ticket = some (.seated w.seat) := by
  rcases h with ⟨y, -, htells⟩
  exact htells.watches name w hw

/-- The subscription of a guest is not that of the keeper. -/
theorem Leads.seat?_ne (h : x.Leads guests s) {ticket : Nat} {t : Seat} (hguest : ticket ∈ guests)
    (ht : s.market.grant? ticket = some (.seated t)) : s.seat? ≠ some t := by
  rcases h with ⟨y, -, htells⟩
  rcases htells.same with ⟨watches, rfl⟩
  exact htells.hosts.seat?_ne hguest ht

theorem Leads.settings (h : x.Leads guests s) : s.ledger.trading = s.config.trading := by
  rcases h with ⟨y, -, htells⟩
  rcases htells.same with ⟨watches, rfl⟩
  exact htells.hosts.settings

theorem Leads.settle (h : x.Leads guests s) : x.Leads guests s.settle :=
  Service.settle_of_goes (x.Leads guests) (fun _ _ h hgoes => h.goes hgoes) h

/-- Whatever is waited for, and however long. -/
theorem Leads.await (h : x.Leads guests s) (done : Service → Bool) (ms : Nat) :
    x.Leads guests (Service.virtual.await done ms s) :=
  Service.await_of_goes (x.Leads guests) (fun _ _ h hgoes => h.goes hgoes) done ms h

/-! ## What callers do -/

theorem Leads.perform (h : x.Leads guests s) (e : Errand) :
    x.Leads guests (s.perform (e.operation s.config.trading)).2 :=
  (h.goes (Service.goes_enter s e)).await _ _

theorem Leads.authenticate (h : x.Leads guests s) (token : String) :
    x.Leads guests (s.authenticate token).2 := by
  unfold Service.authenticate
  split
  · exact h
  · next identity hidentity =>
    have hperform := h.perform (.account identity)
    rw [← h.settings] at hperform
    split
    · next heq => exact congrArg Prod.snd heq ▸ hperform
    · next heq => exact congrArg Prod.snd heq ▸ hperform

theorem Leads.portfolio (h : x.Leads guests s) (user : String) :
    x.Leads guests (s.portfolio user).2 := by
  have hperform := h.perform (.portfolio user)
  unfold Service.portfolio
  split
  · next heq => exact congrArg Prod.snd heq ▸ hperform
  · next heq => exact congrArg Prod.snd heq ▸ hperform

theorem Leads.history (h : x.Leads guests s) (user : String) :
    x.Leads guests (s.history user).2 := by
  have hperform := h.perform (.history user)
  unfold Service.history
  split
  · next heq => exact congrArg Prod.snd heq ▸ hperform
  · next heq => exact congrArg Prod.snd heq ▸ hperform

theorem Leads.snapshots (h : x.Leads guests s) (user : String) :
    x.Leads guests (s.snapshots user).2 := by
  have hperform := h.perform (.snapshots user)
  unfold Service.snapshots
  split
  · next heq => exact congrArg Prod.snd heq ▸ hperform
  · next heq => exact congrArg Prod.snd heq ▸ hperform

theorem Leads.trade (h : x.Leads guests s) (user : String) (r : TradeRequest) :
    x.Leads guests (s.trade user r).2 := by
  have hperform := h.perform (.trade s.now user { r with symbol := normalizedSymbol r.symbol }
    s.ledger.trading.alwaysPrunes)
  rw [← h.settings] at hperform
  unfold Service.trade
  simp only []
  split
  · next heq => exact congrArg Prod.snd heq ▸ hperform
  · next heq => exact congrArg Prod.snd heq ▸ hperform

/-- A watch is given up, with its subscription. -/
theorem Leads.drop (h : x.Leads guests s) (name : String) : x.Leads guests (s.drop name).2 := by
  unfold Service.drop Exchange.drop
  cases hw : s.exchange.watches.get? name with
  | none => exact h
  | some w =>
      rcases h.watches hw with ⟨ticket, hguest, hs⟩
      have hleft := h.market (a := .leave w.seat) (decide_eq_true (h.seat?_ne hguest hs)) rfl
      refine hleft.withWatches fun name' w' hw' => ?_
      exact hleft.watches (Table.get?_filter_eq_some.1 hw').1

/-- A guest has a subscription, and a watch of it goes on the list. -/
theorem Leads.insert (h : x.Leads guests s) (name : String) {w : Watch} {ticket : Nat}
    (hguest : ticket ∈ guests) (hs : s.market.grant? ticket = some (.seated w.seat)) :
    x.Leads guests (s.withWatches (s.exchange.watches.insert name w)) := by
  refine h.withWatches fun name' w' hw' => ?_
  rw [Table.get?_insert_eq] at hw'
  split at hw'
  · cases Option.some.inj hw'
    exact ⟨ticket, hguest, hs⟩
  · exact h.watches hw'

theorem Leads.place (h : x.Leads guests s) (name : String) {w : Watch} {ticket : Nat}
    (hguest : ticket ∈ guests) (hs : s.market.grant? ticket = some (.seated w.seat)) :
    x.Leads guests { s with exchange := s.exchange.place name w } := by
  refine (h.drop name).insert name hguest ?_
  -- Whoever had the name gives up a subscription, which is no answer taken back.
  unfold Service.drop Exchange.drop
  cases s.exchange.watches.get? name with
  | none => exact hs
  | some w' =>
      rcases Market.sameDesk_leave s.market w'.seat with ⟨_, _, _, _, hdesk⟩
      have hgrant : (s.market.leave w'.seat).grant? ticket = s.market.grant? ticket := by rw [hdesk]; rfl
      exact hgrant.trans hs

theorem Leads.watch (h : x.Leads guests s) (name symbol : String) :
    ∃ guests, x.Leads guests (s.watch name symbol).2 := by
  unfold Service.watch
  simp only []
  split
  · refine ⟨s.market.requests :: guests, ?_⟩
    have hawaited := h.request.await
      (fun s' => (s'.market.grant? s.market.requests).isSome) s.market.request.2.longestTurn
    split
    · next seat hs => exact hawaited.place name List.mem_cons_self hs
    · exact hawaited
    · exact hawaited
  · exact ⟨guests, h⟩

theorem Leads.poll (h : x.Leads guests s) (name : String) :
    x.Leads guests (s.act (.poll name)) := by
  rw [Service.act, Service.poll?]
  cases hdrain : s.exchange.drain? name none with
  | none => exact h
  | some p =>
      cases hw : s.exchange.watches.get? name with
      | none =>
          rw [Exchange.drain?, hw] at hdrain
          exact absurd hdrain.symm (Option.some_ne_none p)
      | some w =>
          -- The subscription that is read is that of a guest.
          have hread : ∀ m, x.Leads guests (s.setMarket m) →
              x.Leads guests (s.setMarket (m.receive w.seat).2) := by
            intro m hm
            rcases hm.watches hw with ⟨ticket, hguest, hs⟩
            exact hm.market (a := .receive w.seat) (decide_eq_true (hm.seat?_ne hguest hs)) rfl
          rcases Exchange.drain?_induction (fun m => x.Leads guests (s.setMarket m)) hw hread h hdrain
            with ⟨hafter, w', hseat, hwatches⟩
          rcases hafter.watches hw with ⟨ticket, hguest, hs⟩
          have hinsert := hafter.insert name (w := w') hguest (hseat ▸ hs)
          rw [show (s.setMarket p.2.market).exchange.watches.insert name w' = p.2.watches from
            hwatches.symm] at hinsert
          exact hinsert

/-- Whatever is done, it can be what happens to a diary. -/
theorem Leads.act (h : x.Leads guests s) (a : Service.Action) :
    ∃ guests, x.Leads guests (s.act a) := by
  cases a with
  | authenticate token => exact ⟨guests, h.authenticate token⟩
  | portfolio user => exact ⟨guests, h.portfolio user⟩
  | trade user request => exact ⟨guests, h.trade user request⟩
  | history user => exact ⟨guests, h.history user⟩
  | snapshots user => exact ⟨guests, h.snapshots user⟩
  | watch name symbol => exact h.watch name symbol
  | poll name => exact ⟨guests, h.poll name⟩
  | drop name => exact ⟨guests, h.drop name⟩
  | settle => exact ⟨guests, h.settle⟩
  | wait ms => exact ⟨guests, h.await _ ms⟩
  | clock time => exact ⟨guests, h.goes (Service.goes_clock s time)⟩
  | shutdown => exact ⟨guests, (h.goes (Service.goes_stop s)).await _ _⟩
  | tend t => exact ⟨guests, h.market (a := .tend t) rfl rfl⟩

/-- Whatever callers do, a diary leads there. -/
theorem leads_after (config : Config) (buffer delay failures : Nat) (time : Timestamp)
    (done : List Service.Action) : ∃ guests, (opened config buffer delay failures time).Leads guests
      ((Service.start config (.create buffer delay failures) time).after done) := by
  have hfirst : (opened config buffer delay failures time).Leads []
      (Service.start config (.create buffer delay failures) time) :=
    ⟨_, .refl, hosts_opened config buffer delay failures time, ⟨.empty, rfl⟩,
      fun name w hw => absurd hw.symm (Option.some_ne_none w)⟩
  have hafter : ∀ guests s, (opened config buffer delay failures time).Leads guests s →
      ∃ guests, (opened config buffer delay failures time).Leads guests (s.after done) := by
    induction done with
    | nil => exact fun guests s hs => ⟨guests, hs⟩
    | cons a rest ih =>
        intro guests s hs
        rcases hs.act a with ⟨guests', hs'⟩
        exact ih guests' _ hs'
  exact hafter [] _ hfirst

/-- Whatever callers do, there is a run that leads to the same service, but for the list of
watches. -/
theorem exists_run_of_service (config : Config) (buffer delay failures : Nat) (time : Timestamp)
    (done : List Service.Action) : ∃ actions x watches,
      (opened config buffer delay failures time).run? actions = some x ∧
      (Service.start config (.create buffer delay failures) time).after done =
        x.service.withWatches watches := by
  rcases leads_after config buffer delay failures time done with ⟨guests, x, hreach, htells⟩
  rcases exists_run_of_reaches hreach with ⟨actions, hrun⟩
  rcases htells.same with ⟨watches, hsame⟩
  exact ⟨actions, x, watches, hrun, hsame⟩

end Diary

end Bourse
