import Bourse.Proofs.Service.Viewing

/-!
# The Streams of a Service

Who asks a service for the prices of a symbol is turned down when the symbol is none of
those that the service trades in; nothing else happens then. Otherwise the service asks for
a subscription, waits for the answer, and puts a stream on its list. All that goes on
meanwhile can happen in a viewing, and the stream on the list is the one of the viewing.

## Main definitions

* `Service.TurnsDown`: somebody is told that a request is not valid.
* `Service.Seats`: the market gives a seat to somebody who asks.
* `Viewing.Leads`: some things can happen that lead from a viewing to a service.
* `Viewing.Viewed`: the stream on the list of a service is that of a viewing.

## Theorems

* `turnsDown_iff`, `watch_of_turnsDown`: who is turned down, and that nothing else happens.
* `watching_iff`: who gets a stream.
* `exists_run_of_watch`: the stream of a service is that of a viewing.
* `watches_are_proper`: what watchers see is right, whatever callers have done before.
-/

namespace Bourse

/-! ## Who is turned down -/

namespace Service

variable {s : Service} {name text : String}

/-- Whether somebody is told that a request is not valid. -/
def TurnsDown (s : Service) (name text : String) : Prop :=
  ∃ why, (s.watch name text).1 = .refused (.validation why)

theorem watch_of_unsupported
    (h : normalizedSymbol text ∉ s.config.trading.supportedSymbols) :
    s.watch name text = (.refused (.validation ("only supported tickers are " ++
      Text.quotedList s.config.trading.supportedSymbols)), s) := by
  have hnot : isSupported s.config.trading.supportedSymbols (normalizedSymbol text) = false := by
    rw [isSupported, List.contains_eq_mem]
    exact decide_eq_false h
  rw [watch]
  simp only [hnot, Bool.false_eq_true, if_false]

/-- The answer to the request of a watcher is awaited. -/
def awaited (s : Service) : Service :=
  virtual.await (fun s' => (s'.market.grant? s.market.requests).isSome)
    s.market.request.2.longestTurn (s.setMarket s.market.request.2)

theorem watch_of_supported
    (h : normalizedSymbol text ∈ s.config.trading.supportedSymbols) :
    s.watch name text =
      (match s.awaited.market.grant? s.market.requests with
      | some (.seated seat) => (.watching, { s.awaited with
          exchange := s.awaited.exchange.place name
            (.ofSymbol (normalizedSymbol text) s.config.quotes.watchMaxRateMs
              (some (s.awaited.now + s.config.quotes.session)) seat) })
      | some (.failed e) => (.refused (.ofFeed e), s.awaited)
      | _ => (.crashed, s.awaited)) := by
  have hyes : isSupported s.config.trading.supportedSymbols (normalizedSymbol text) = true := by
    rw [isSupported, List.contains_eq_mem]
    exact decide_eq_true h
  rw [watch]
  simp only [hyes, if_true]
  rfl

/-- Whether the market gives a seat to somebody who asks for one now. -/
def Seats (s : Service) : Prop :=
  ∃ seat, s.awaited.market.grant? s.market.requests = some (.seated seat)

/-- Who asks for a symbol that the service trades in gets a stream with a seat, and only then. -/
theorem watching_iff (h : normalizedSymbol text ∈ s.config.trading.supportedSymbols) :
    (s.watch name text).1 = .watching ↔ s.Seats := by
  rw [watch_of_supported h, Seats]
  cases s.awaited.market.grant? s.market.requests with
  | none => simp only [reduceCtorEq, exists_false]
  | some g =>
      cases g with
      | seated seat => exact iff_of_true rfl ⟨seat, rfl⟩
      | _ => simp only [Option.some.injEq, reduceCtorEq, exists_false]

/-- Who asks for a symbol that the service does not trade in is turned down, and nobody else. -/
theorem turnsDown_iff :
    s.TurnsDown name text ↔ normalizedSymbol text ∉ s.config.trading.supportedSymbols := by
  constructor
  · rintro ⟨why, hwhy⟩ hmem
    rw [watch_of_supported hmem] at hwhy
    cases hgrant : s.awaited.market.grant? s.market.requests with
    | none =>
        rw [hgrant] at hwhy
        exact absurd hwhy (by simp only [reduceCtorEq, not_false_eq_true])
    | some g =>
        rw [hgrant] at hwhy
        cases g with
        | _ => exact absurd hwhy (by simp only [ServiceError.ofFeed, reduceCtorEq,
            Watched.refused.injEq, not_false_eq_true])
  · intro hnot
    rw [TurnsDown, watch_of_unsupported hnot]
    exact ⟨_, rfl⟩

/-- Nothing else happens then. -/
theorem watch_of_turnsDown (h : s.TurnsDown name text) : (s.watch name text).2 = s := by
  rw [watch_of_unsupported (turnsDown_iff.1 h)]

end Service

/-! ## Who gets a stream -/

namespace Viewing

variable {x : Diary} {v v' : Viewing} {s s' : Service} {guests : List Nat} {name text : String}

/-- Some things can happen that lead from a viewing without a stream to a service. -/
structure LeadsBy (v v' : Viewing) (guests : List Nat) (s : Service) : Prop where
  reach : Relation.ReflTransGen (fun v v' => ∃ a, v.step? a = some v') v v'
  watch : v'.watch = none
  ticket : v'.ticket = v.ticket
  symbol : v'.symbol = v.symbol
  config : v'.diary.service.config = v.diary.service.config
  tells : v'.diary.TellsOf guests s

def Leads (v : Viewing) (guests : List Nat) (s : Service) : Prop := ∃ v', v.LeadsBy v' guests s

/-- What goes on leads on. -/
theorem Leads.goes (h : v.Leads guests s) (hgoes : s.Goes s') : v.Leads guests s' := by
  rcases h with ⟨v', h⟩
  rcases h.tells with ⟨-, ⟨watches, rfl⟩, -⟩
  rcases hgoes v'.diary watches rfl with ⟨a, y', hleaves, hy', rfl⟩
  have hall : v'.seat?.all a.leavesAlone = true := by
    cases v'.seat? with
    | none => rfl
    | some t => exact hleaves t
  have hstep : v'.step? (.other a) =
      some { v' with diary := y', missed := v'.missedAfter y' } := by
    rw [Viewing.step?, if_pos hall, hy']
    rfl
  exact ⟨_, h.reach.tail ⟨_, hstep⟩, h.watch, h.ticket, h.symbol,
    (Diary.config_of_step? hy').trans h.config, h.tells.step hy'⟩

/-- Whoever asks a service is a watcher that asks its diary. -/
theorem leads_asked (h : x.TellsOf guests s) (text : String) :
    (asked x text).Leads guests s.awaited := by
  have hasked : (asked x text).Leads guests (s.setMarket s.market.request.2) := by
    rcases h.same with ⟨watches, rfl⟩
    exact ⟨asked x text, .refl, rfl, rfl, rfl, rfl, h.step (Diary.step?_market (a := .request) rfl rfl)⟩
  exact Service.await_of_goes ((asked x text).Leads guests) (fun _ _ h hgoes => h.goes hgoes) _ _
    hasked

/-- A stream goes on the list of a service, and the one that had its name is given up. -/
theorem LeadsBy.place {seat : Seat} (h : v.LeadsBy v' guests s) (hs : v'.seat? = some seat)
    (hother : v'.ticket ∉ guests) (name : String) : ∃ v'',
      Relation.ReflTransGen (fun v v' => ∃ a, v.step? a = some v') v v'' ∧
      v''.watch = some (v'.stream seat) ∧
      { s with exchange := s.exchange.place name (v'.stream seat) } =
        v''.diary.service.withWatches (s.exchange.place name (v'.stream seat)).watches := by
  have hbegin : v'.step? .begin = some { v' with watch := some (v'.stream seat), began := v'.now } := by
    rw [Viewing.step?, h.watch, hs]
  have hreach := h.reach.tail ⟨_, hbegin⟩
  have hwatches := h.tells.watches
  rcases h.tells.same with ⟨watches, rfl⟩
  rw [Exchange.place, Exchange.drop]
  cases hold : (v'.diary.service.withWatches watches).exchange.watches.get? name with
  | none => exact ⟨_, hreach, rfl, rfl⟩
  | some w =>
      -- The subscription that is given up is that of another guest.
      rcases hwatches name w hold with ⟨ticket, hguest, hw⟩
      have hkeeper := h.tells.hosts.seat?_ne hguest hw
      have hown : w.seat ≠ seat := by
        intro heq
        have hsame := h.tells.hosts.apart.apart ticket v'.ticket seat (heq ▸ hw) (grant?_of_seat? hs)
        exact hother (hsame ▸ hguest)
      have hleave : ({ v' with watch := some (v'.stream seat), began := v'.now } : Viewing).step?
          (.other (.market (.leave w.seat))) = some { v' with
            diary := v'.diary.afterMarket (.leave w.seat) (v'.market.leave w.seat)
            watch := some (v'.stream seat)
            began := v'.now
            missed := v'.missedAfter
              (v'.diary.afterMarket (.leave w.seat) (v'.market.leave w.seat)) } := by
        have hall : v'.seat?.all (Diary.Action.leavesAlone (.market (.leave w.seat))) = true := by
          rw [hs]
          exact decide_eq_true hown
        have hpermits : v'.diary.service.permits (.leave w.seat) = true := decide_eq_true hkeeper
        rw [Viewing.step?]
        exact (if_pos hall).trans (congrArg (Option.map _) (Diary.step?_market hpermits rfl))
      exact ⟨_, hreach.tail ⟨_, hleave⟩, rfl, rfl⟩

/-- The stream that a service puts on its list is that of a viewing. -/
theorem exists_run_of_watch (h : x.TellsOf guests s)
    (hwatching : (s.watch name text).1 = .watching) : ∃ actions v,
      (asked x text).run? actions = some v ∧ v.watch ≠ none ∧
      (s.watch name text).2.exchange.watches.get? name = v.watch ∧
      (s.watch name text).2 =
        v.diary.service.withWatches (s.watch name text).2.exchange.watches := by
  have hsupported : normalizedSymbol text ∈ s.config.trading.supportedSymbols := by
    by_contra hnot
    rw [Service.watch_of_unsupported hnot] at hwatching
    exact absurd hwatching (by simp only [reduceCtorEq, not_false_eq_true])
  have hsame : s.config = x.service.config ∧ s.market.requests = x.market.requests := by
    rcases h.same with ⟨watches, rfl⟩
    exact ⟨rfl, rfl⟩
  rw [Service.watch_of_supported hsupported] at hwatching ⊢
  have hlead := leads_asked h text
  generalize s.awaited = awaited at hwatching hlead ⊢
  rcases hlead with ⟨v, hlead⟩
  have hnow : awaited.now = v.now ∧ awaited.market = v.market := by
    rcases hlead.tells.same with ⟨watches, rfl⟩
    exact ⟨rfl, rfl⟩
  rw [hsame.1, hsame.2, hnow.1, hnow.2] at hwatching ⊢
  cases hgrant : v.market.grant? x.market.requests with
  | none =>
      rw [hgrant] at hwatching
      exact absurd hwatching (by simp only [reduceCtorEq, not_false_eq_true])
  | some g =>
      cases g with
      | seated seat =>
          have hs : v.seat? = some seat := by
            rw [seat?, hlead.ticket]
            exact congrArg (fun o => Option.bind o Grant.seat?) hgrant
          have hother : v.ticket ∉ guests := by
            intro hguest
            have hmade := (h.hosts.guests v.ticket hguest).made
            rw [hlead.ticket] at hmade
            exact Nat.lt_irrefl _ hmade
          have hstream : Watch.ofSymbol (normalizedSymbol text)
              x.service.config.quotes.watchMaxRateMs
              (some (v.now + x.service.config.quotes.session)) seat = v.stream seat := by
            have hconfig : v.diary.service.config = x.service.config := hlead.config
            rw [stream, hconfig, hlead.symbol, asked]
          rcases hlead.place hs hother name with ⟨v', hreach, hwatch, hsame⟩
          obtain ⟨actions, hrun⟩ : ∃ actions, (asked x text).run? actions = some v' :=
            exists_run_of_reaches hreach
          dsimp only
          rw [hstream]
          refine ⟨actions, v', hrun, ?_, ?_, hsame⟩
          · rw [hwatch]
            exact Option.some_ne_none _
          · rw [hwatch]
            exact Table.get?_insert_self _ _ _
      | _ =>
          rw [hgrant] at hwatching
          exact absurd hwatching (by simp only [reduceCtorEq, not_false_eq_true])

/-! ## All watches -/

/-- The stream on the list of a service is that of a viewing, which has happened to the diary of the
service. -/
def Viewed (start : Diary) (s : Service) (name text : String) : Prop :=
  ∃ past x actions v, start.run? past = some x ∧ (∃ watches, s = x.service.withWatches watches) ∧
    (asked x text).run? actions = some v ∧ v.watch ≠ none ∧
    (s.watch name text).2.exchange.watches.get? name = v.watch ∧
    (s.watch name text).2 = v.diary.service.withWatches (s.watch name text).2.exchange.watches

/-- Whoever asks a service for the prices of a symbol, whatever callers have done to it before: those
who ask for a symbol that it does not trade in are turned down, with nothing else done, and of the
others all those get a stream to whom the market gives a seat. The stream is one of a viewing. What is
seen in a viewing is right, in whatever order all things
happen. And a stream has ended when its bus has closed and its buffer is empty. -/
theorem watches_are_proper (config : Config) (buffer delay failures : Nat) (time : Timestamp)
    (text : String) :
    (∀ calls name,
      let s := (Service.start config (.create buffer delay failures) time).after calls
      (s.TurnsDown name text ↔ normalizedSymbol text ∉ config.trading.supportedSymbols) ∧
      (s.TurnsDown name text → (s.watch name text).2 = s) ∧
      (normalizedSymbol text ∈ config.trading.supportedSymbols →
        ((s.watch name text).1 = .watching ↔ s.Seats)) ∧
      ((s.watch name text).1 = .watching →
        Viewed (.opened config buffer delay failures time) s name text)) ∧
    (∀ past x, (Diary.opened config buffer delay failures time).run? past = some x →
      ∀ actions v, (asked x text).run? actions = some v → v.Proper config) ∧
    ∀ (m m' : Market) (w : Watch) (l : Line) (u : Subscription), m.Paired →
      (∀ l ∈ m.lines, l.bus.Sound) → m.lines[w.seat.line]? = some l → l.bus.closed = true →
      m.subscription? w.seat = some u → u.buffer = [] → Market.Keeps w.seat m m' →
      ∀ w' : Watch, w'.seat = w.seat → ∀ fuel, (w'.next (fuel + 1) m').1 = .ended := by
  refine ⟨fun calls name => ?_, fun past x hrun actions v hv => ?_,
    fun m m' w l u hpaired hbuses hl hclosed hu hempty hkeeps w' hw' fuel => ?_⟩
  · rcases Diary.leads_after config buffer delay failures time calls with ⟨guests, x, hreach, htells⟩
    obtain ⟨past, hpast⟩ : ∃ past,
        (Diary.opened config buffer delay failures time).run? past = some x :=
      exists_run_of_reaches hreach
    intro s
    have hconfig : s.config = config := by
      rcases htells.same with ⟨watches, hsame⟩
      exact (congrArg Service.config hsame).trans (Diary.hosts_of_run? hpast).2
    refine ⟨hconfig ▸ Service.turnsDown_iff, Service.watch_of_turnsDown,
      fun hsupported => Service.watching_iff (hconfig.symm ▸ hsupported), fun hwatching => ?_⟩
    rcases exists_run_of_watch htells hwatching with ⟨actions, v, hrun, hstream, hwatch, hservice⟩
    exact ⟨past, x, actions, v, hpast, htells.same, hrun, hstream, hwatch, hservice⟩
  · rcases Diary.hosts_of_run? hrun with ⟨hhosts, hconfig⟩
    have hkept := kept_asked hhosts text
    rw [hconfig] at hkept
    exact (kept_of_run? hkept hv).proper
  · have hdrained := Market.drained_of_closed hbuses hl hclosed hu hempty
    refine Watch.next_of_drained ?_ fuel
    rw [hw']
    exact Market.drained_of_keeps hpaired hbuses hdrained hkeeps

/-- The keeper has a subscription, and somebody else gets one and a stream. Three ticks come in, two
of them of the symbol, and the watcher looks twice; after a while there is one more tick and one more
look, and the last look is when the time of the watch is over. -/
def looking : List Action :=
  [.other (.market .nextTurn), .begin] ++
    [.market (.tend .accept), .market (.tend (.send 0 ⟨"ETH", "2000", ⟨0, 0⟩⟩)),
      .market (.tend (.send 0 ⟨"BTC", "30000", ⟨0, 0⟩⟩)),
      .market (.tend (.send 0 ⟨"BTC", "30100", ⟨0, 0⟩⟩)), .market (.turn 0 .goOn),
      .market (.turn 0 .goOn), .market (.turn 0 .goOn), .market (.turn 0 .goOn),
      .market (.turn 0 .goOn), .market (.turn 0 .goOn), .market (.dispatch 0),
      .market (.dispatch 0), .market (.dispatch 0)].map .other ++
    [.look, .look] ++
    [.market (.wait 100), .market (.tend (.send 0 ⟨"BTC", "31000", ⟨0, 0⟩⟩)),
      .market (.turn 0 .goOn), .market (.turn 0 .goOn), .market (.dispatch 0)].map .other ++
    [.look, .other (.market (.wait 900000)), .look]

/-- A service where the keeper has had its turn. -/
def settled : Service := (Service.start .standard (.create 64 0 0) ⟨0, 0⟩).after [.settle]

/-- Whoever asks it gets a seat at once. -/
theorem seats_settled : settled.Seats := by
  refine ⟨⟨0, 1⟩, ?_⟩
  rw [Service.awaited, Virtual.await_of_done _ rfl]
  rfl

/-- Of two who ask the service one is turned down. The other one gets a stream; the second price comes
too early for it, and the tick of another symbol takes nothing away from the first. -/
theorem watches_are_proper_looking :
    settled.TurnsDown "desk" "XRP" ∧ (settled.watch "desk" " BTC-USD").1 = .watching ∧
    Viewed (.opened .standard 64 0 0 ⟨0, 0⟩) settled "desk" " BTC-USD" ∧ ∃ x v,
      (Diary.opened .standard 64 0 0 ⟨0, 0⟩).run?
        [.market .nextTurn, .market .endAttempt, .market .takeSeat, .keep] = some x ∧
      (asked x " BTC-USD").run? looking = some v ∧
      v.sent = [(0, ⟨⟨0, 0⟩, .ofUnits 30000⟩), (100, ⟨⟨0, 0⟩, .ofUnits 31000⟩)] ∧
      v.published.map (·.symbol) = ["ETH", "BTC", "BTC", "BTC"] ∧
      v.Proper .standard ∧ v.look?.map (·.1) = some .ended := by
  have hdown := (watches_are_proper .standard 64 0 0 ⟨0, 0⟩ "XRP").1 [.settle] "desk"
  have hup := (watches_are_proper .standard 64 0 0 ⟨0, 0⟩ " BTC-USD").1 [.settle] "desk"
  have hwatching : (settled.watch "desk" " BTC-USD").1 = .watching :=
    (hup.2.2.1 (by decide)).2 seats_settled
  obtain ⟨x, v, hrun, hlooking, hsent, hpublished, hlook⟩ : ∃ x v,
      (Diary.opened .standard 64 0 0 ⟨0, 0⟩).run?
        [.market .nextTurn, .market .endAttempt, .market .takeSeat, .keep] = some x ∧
      (asked x " BTC-USD").run? looking = some v ∧
      v.sent = [(0, ⟨⟨0, 0⟩, .ofUnits 30000⟩), (100, ⟨⟨0, 0⟩, .ofUnits 31000⟩)] ∧
      v.published.map (·.symbol) = ["ETH", "BTC", "BTC", "BTC"] ∧
      v.look?.map (·.1) = some .ended :=
    ⟨_, _, rfl, rfl, rfl, rfl, rfl⟩
  exact ⟨hdown.1.2 (by decide), hwatching, hup.2.2.2 hwatching, x, v, hrun, hlooking, hsent, hpublished,
    (watches_are_proper .standard 64 0 0 ⟨0, 0⟩ " BTC-USD").2.1 _ x hrun _ v hlooking, hlook⟩

end Viewing

end Bourse
