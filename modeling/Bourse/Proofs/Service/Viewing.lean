import Bourse.Proofs.Market.Watching
import Bourse.Proofs.Service.Buffers
import Bourse.Proofs.Service.Callers

/-!
# Viewings of a Service

Somebody asks for the prices of a symbol. Once the request has been answered with a seat,
quotes are published to it; some time later the watcher gets a stream, and looks at it as
often and as late as it likes. Meanwhile anything can happen to the service, but for one
thing: the subscription of the watcher is its own.

A viewing is a diary and what one watcher has seen: the quotes that were taken out of its
buffer and those that the stream gave, each with the time. No step reads these.

What was taken and what is in the buffer are quotes that were published, in their order. And
since quotes are taken from the front and offered to the throttle as they are taken, the
stream has given what a throttle lets pass of the quotes of its symbol.

## Main definitions

* `Viewing`: a diary and what a watcher has seen.
* `Viewing.look?`: one look at the stream.
* `Viewing.Action`, `Viewing.step?`, `Viewing.run?`: what can happen, and the viewing after it.
* `Viewing.Kept`: what is known of a viewing.
* `Viewing.Over`: the time of the watch is over.
* `Viewing.Proper`: what a watcher sees is right.

## Theorems

* `Kept.of_look`: what a look finds.
* `kept_of_step?`, `kept_of_run?`: what is known of a viewing stays known.
* `Over.of_run?`: nothing is given any more when the time is over.
* `Kept.proper`: what a watcher sees is right.
-/

namespace Bourse

/-- A diary and what one watcher has seen. -/
structure Viewing where
  diary : Diary
  /-- The request of the watcher. -/
  ticket : Nat
  symbol : String
  /-- What the line of the watcher had published when the watcher got its seat there. -/
  missed : List Quote
  /-- The stream, from when on the watcher has it. -/
  watch : Option Watch
  /-- When the watcher got the stream. -/
  began : Nat
  /-- The quotes taken out of the buffer, each with the time. -/
  taken : List (Nat × Quote)
  /-- The quotes that the stream gave, each with the time. -/
  given : List (Nat × Quote)

/-- What can happen to a service and to a watcher. -/
inductive Viewing.Action where
  | other (a : Diary.Action)
  /-- The watcher gets its stream. -/
  | begin
  /-- The watcher looks at its stream. -/
  | look

namespace Viewing

variable {v v' : Viewing} {s : Seat} {u : Subscription} {w : Watch} {config : Config}

/-- Somebody asks a service for the prices of a symbol. -/
def asked (x : Diary) (text : String) : Viewing :=
  { diary := x.afterMarket .request x.market.request.2
    ticket := x.market.requests
    symbol := normalizedSymbol text
    missed := []
    watch := none
    began := 0
    taken := []
    given := [] }

/-- The market of the service. -/
def market (v : Viewing) : Market := v.diary.market

/-- The running time. -/
def now (v : Viewing) : Nat := v.market.now

/-- The seat of the watcher, from the answer to its request on. -/
def seat? (v : Viewing) : Option Seat := (v.market.grant? v.ticket).bind Grant.seat?

/-- What its line had published before, if it is now that the watcher gets a seat. -/
def missedAfter (v : Viewing) (x : Diary) : List Quote :=
  match v.seat?, (x.market.grant? v.ticket).bind Grant.seat? with
  | none, some s => (v.diary.books s.line).receipts
  | _, _ => v.missed

/-- The stream of the watcher, on a seat. -/
def stream (v : Viewing) (s : Seat) : Watch :=
  .ofSymbol v.symbol v.diary.service.config.quotes.watchMaxRateMs
    (some (v.now + v.diary.service.config.quotes.session)) s

/-- One look at the stream: what is found, and the viewing after it. -/
def look? (v : Viewing) : Option (Received Quote × Viewing) :=
  v.watch.map (fun w =>
    let (r, w', m) := w.next (w.buffered v.market + 1) v.market
    let before := v.market.inFrontOf w.seat
    let seen := before.take (before.length - (m.inFrontOf w.seat).length)
    (r, { v with
      diary := v.diary.setMarket m
      watch := some w'
      taken := v.taken ++ Watch.timed v.now seen
      given := v.given ++ Watch.timed v.now r.toList }))

/-- The viewing after one action, where it can be taken. -/
def step? (v : Viewing) : Action → Option Viewing
  | .other a =>
    if v.seat?.all a.leavesAlone then
      (v.diary.step? a).map (fun x => { v with diary := x, missed := v.missedAfter x })
    else none
  | .begin =>
    match v.watch, v.seat? with
    | none, some s => some { v with watch := some (v.stream s), began := v.now }
    | _, _ => none
  | .look => v.look?.map (·.2)

/-- The viewing after some actions, where all of them can be taken. -/
def run? (v : Viewing) (actions : List Action) : Option Viewing := actions.foldlM step? v

/-- The quotes that the line of the watcher has published since the watcher got its seat there. -/
def published (v : Viewing) : List Quote :=
  match v.seat? with
  | some s => (v.diary.books s.line).receipts.drop v.missed.length
  | none => []

/-! ## What is known -/

/-- What is known of a watcher with a seat. What was taken out of the buffer and what is in it was
published, in this order, since the watcher got its seat. -/
structure Seated (v : Viewing) (s : Seat) (u : Subscription) : Prop where
  held : s ∈ v.diary.held
  found : v.market.subscription? s = some u
  missed : v.missed <+: (v.diary.books s.line).receipts
  comes : (v.taken.map (·.2) ++ u.buffer).Sublist
    ((v.diary.books s.line).receipts.drop v.missed.length)

/-- What is known of a stream. Its throttle has been offered what was taken of the symbol, and the
stream has given what passed. -/
structure Streaming (config : Config) (v : Viewing) (s : Seat) (w : Watch) : Prop where
  seat : w.seat = s
  symbol : w.symbol = some v.symbol
  throttle : w.throttle = some
    ((Throttle.fresh config.quotes.watchMaxRateMs).after (Watch.own v.symbol v.taken))
  ends : w.ends = some (v.began + config.quotes.session)
  passes : v.given =
    (Throttle.fresh config.quotes.watchMaxRateMs).pass (Watch.own v.symbol v.taken)
  timely : ∀ e ∈ v.given, e.1 < v.began + config.quotes.session

/-- What is known of a viewing. -/
structure Kept (config : Config) (v : Viewing) : Prop where
  hosts : v.diary.Hosts [v.ticket]
  settings : v.diary.service.config = config
  seated : ∀ s, v.seat? = some s → ∃ u, v.Seated s u
  unwatched : v.watch = none → v.taken = [] ∧ v.given = []
  streaming : ∀ w, v.watch = some w → ∃ s, v.seat? = some s ∧ v.Streaming config s w

theorem grant?_of_seat? (hs : v.seat? = some s) :
    v.market.grant? v.ticket = some (.seated s) := by
  rcases Option.bind_eq_some_iff.1 hs with ⟨g, hg, hseat⟩
  cases g with
  | seated t =>
      cases Option.some.inj hseat
      exact hg
  | _ => exact absurd hseat (by simp only [Grant.seat?, reduceCtorEq, not_false_eq_true])

/-- What is known of the subscription of the watcher stays known when something else happens. -/
theorem Kept.seated_of_other (h : v.Kept config) {a : Diary.Action} {x : Diary}
    (hleft : v.seat?.all a.leavesAlone = true) (hstep : v.diary.step? a = some x)
    (hs : (x.market.grant? v.ticket).bind Grant.seat? = some s) :
    ∃ u, ({ v with diary := x, missed := v.missedAfter x } : Viewing).Seated s u := by
  have hgrant : x.market.grant? v.ticket = some (.seated s) :=
    grant?_of_seat? (v := { v with diary := x }) hs
  cases hbefore : v.seat? with
  | none =>
      have hmissed : v.missedAfter x = (v.diary.books s.line).receipts := by
        rw [missedAfter, hbefore, hs]
      -- The answer is new, since an old one would have been the same.
      have hnone : v.diary.market.grant? v.ticket = none := by
        cases hg : v.diary.market.grant? v.ticket with
        | none => rfl
        | some g =>
            have hstays := Diary.grant?_of_step? h.hosts.kept hstep hg
            have hseat : v.seat? = g.seat? := congrArg (fun o => Option.bind o Grant.seat?) hg
            cases Option.some.inj (hstays.symm.trans hgrant)
            exact absurd (hbefore.symm.trans hseat).symm (Option.some_ne_none s)
      rcases h.hosts.seated_of_step? hnone hstep hgrant with ⟨hheld, hfound, hreceipts⟩
      have hempty : v.taken = [] := by
        cases hw : v.watch with
        | none => exact (h.unwatched hw).1
        | some w =>
            rcases h.streaming w hw with ⟨s', hs', -⟩
            exact absurd (hbefore.symm.trans hs').symm (Option.some_ne_none s')
      refine ⟨_, hheld, hfound, ?_, ?_⟩
      · rw [hmissed, hreceipts]
      · rw [hempty]
        exact List.nil_sublist _
  | some s' =>
      have hstays := Diary.grant?_of_step? h.hosts.kept hstep (grant?_of_seat? hbefore)
      cases Option.some.inj (hgrant.symm.trans hstays)
      have hmissed : v.missedAfter x = v.missed := by
        rw [missedAfter, hbefore]
      rcases h.seated s hbefore with ⟨u, hu⟩
      rw [hbefore] at hleft
      rcases h.hosts.onward_of_step? List.mem_cons_self (grant?_of_seat? hbefore) hu.held hu.found
        hleft hstep with ⟨u', published, honward⟩
      refine ⟨u', honward.held, honward.found, ?_, ?_⟩
      · rw [hmissed, honward.receipts]
        exact hu.missed.trans (List.prefix_append _ _)
      · rw [hmissed, honward.receipts, List.drop_append_of_le_length hu.missed.length_le]
        rcases honward.buffer with hsame | hmore
        · rw [hsame]
          exact hu.comes.trans (List.sublist_append_left _ _)
        · rw [hmore, ← List.append_assoc]
          exact hu.comes.append_right _

theorem Kept.of_other (h : v.Kept config) {a : Diary.Action} {x : Diary}
    (hleft : v.seat?.all a.leavesAlone = true) (hstep : v.diary.step? a = some x) :
    ({ v with diary := x, missed := v.missedAfter x } : Viewing).Kept config := by
  refine ⟨Diary.hosts_of_step? h.hosts hstep, (Diary.config_of_step? hstep).trans h.settings,
    fun s hs => h.seated_of_other hleft hstep hs, h.unwatched, fun w hw => ?_⟩
  rcases h.streaming w hw with ⟨s, hs, hstreaming⟩
  have hstays := Diary.grant?_of_step? h.hosts.kept hstep (grant?_of_seat? hs)
  exact ⟨s, congrArg (fun o => Option.bind o Grant.seat?) hstays, hstreaming.seat,
    hstreaming.symbol, hstreaming.throttle, hstreaming.ends, hstreaming.passes, hstreaming.timely⟩

theorem Kept.of_begin (h : v.Kept config) (hnone : v.watch = none) (hs : v.seat? = some s) :
    ({ v with watch := some (v.stream s), began := v.now } : Viewing).Kept config := by
  rcases h.unwatched hnone with ⟨htaken, hgiven⟩
  refine ⟨h.hosts, h.settings, fun s' hs' => ?_, fun hw => absurd hw (Option.some_ne_none _),
    fun w hw => ⟨s, hs, ?_⟩⟩
  · rcases h.seated s' hs' with ⟨u, hu⟩
    exact ⟨u, hu.held, hu.found, hu.missed, hu.comes⟩
  cases Option.some.inj hw
  rw [stream, h.settings]
  refine ⟨rfl, rfl, ?_, rfl, ?_, ?_⟩
  · rw [htaken]
    rfl
  · rw [htaken, hgiven]
    rfl
  · rw [hgiven]
    exact fun e he => absurd he List.not_mem_nil

/-! ## Looks -/

/-- Reading the subscription of the watcher changes the market, and nothing that is known. -/
theorem Kept.next (h : v.Kept config) (hs : v.seat? = some s) (hw : w.seat = s) (fuel : Nat) :
    (v.diary.setMarket (w.next fuel v.market).2.2).Hosts [v.ticket] ∧
      (w.next fuel v.market).2.2.grant? = v.market.grant? := by
  refine (Watch.next_induction
    (fun m => (v.diary.setMarket m).Hosts [v.ticket] ∧ m.grant? = v.market.grant?)
    (fun m hm => ?_) fuel hw ⟨h.hosts, rfl⟩).2
  have hgrant : (v.diary.setMarket m).market.grant? v.ticket = some (.seated s) :=
    (congrFun hm.2 v.ticket).trans (grant?_of_seat? hs)
  refine ⟨Diary.hosts_of_step? hm.1
    (Diary.step?_receive (hm.1.seat?_ne List.mem_cons_self hgrant)), ?_⟩
  rcases Market.sameDesk_receive m s with ⟨_, _, _, _, hdesk⟩
  rw [← hm.2, hdesk]
  rfl

/-- The quotes in front of the watcher. -/
def inFront (v : Viewing) : List Quote :=
  match v.seat? with
  | some s => v.market.inFrontOf s
  | none => []

theorem inFront_of_seated (hs : v.seat? = some s) (hu : v.market.subscription? s = some u) :
    v.inFront = u.buffer := by
  rw [inFront, hs]
  exact Market.inFrontOf_of_subscription? hu

/-- What a look at a stream has to find. Nothing any more when the time of the watch is over; before
that the first quote of the symbol, if all that were given are old enough. -/
def answer (config : Config) (v : Viewing) : Received Quote :=
  if v.began + config.quotes.session ≤ v.now then .ended
  else if ∀ e ∈ v.given, e.1 + config.quotes.watchMaxRateMs ≤ v.now then
    ((v.inFront.find? (fun q => q.symbol = v.symbol)).map .item).getD .pending
  else .pending

/-- What a look finds and what it does. When it finds nothing, all quotes that were there are gone. -/
structure Looks (config : Config) (v : Viewing) (r : Received Quote) (v' : Viewing) : Prop where
  answer : r = v.answer config
  given : v'.given = v.given ++ Watch.timed v.now r.toList
  all : r = .pending → v'.inFront = []

/-- What is given at a look is given before the time of the watch is over. -/
theorem lt_of_answer {e : Nat × Quote}
    (he : e ∈ Watch.timed v.now (v.answer config).toList) : e.1 < v.began + config.quotes.session := by
  rcases List.mem_map.1 he with ⟨q, hq, rfl⟩
  unfold answer at hq
  split at hq
  · exact absurd hq List.not_mem_nil
  · next hover => exact Nat.lt_of_not_le hover

/-- What a look at a stream does. -/
theorem look?_eq_some {r : Received Quote} (h : v.look? = some (r, v')) : ∃ w w' m seen,
    v.watch = some w ∧ w.next (w.buffered v.market + 1) v.market = (r, w', m) ∧
      seen = (v.market.inFrontOf w.seat).take
        ((v.market.inFrontOf w.seat).length - (m.inFrontOf w.seat).length) ∧
      v' = { v with
        diary := v.diary.setMarket m
        watch := some w'
        taken := v.taken ++ Watch.timed v.now seen
        given := v.given ++ Watch.timed v.now r.toList } := by
  rcases Option.map_eq_some_iff.1 h with ⟨w, hw, heq⟩
  dsimp only at heq
  rcases hnext : w.next (w.buffered v.market + 1) v.market with ⟨r', w', m⟩
  rw [hnext] at heq
  cases heq
  exact ⟨w, w', m, _, hw, hnext, rfl, rfl⟩

/-- What the watch of a stream finds is what it has to find: its throttle is open when all quotes that
were given are old enough. -/
theorem Streaming.answer_eq (h : v.Streaming config s w) (hs : v.seat? = some s)
    (hu : v.market.subscription? s = some u) :
    (if w.isOver v.market.now then .ended else
      if ((Throttle.fresh config.quotes.watchMaxRateMs).after
          (Watch.own v.symbol v.taken)).isOpen v.market.now then
        ((u.buffer.find? (fun q => q.symbol = v.symbol)).map .item).getD .pending
      else .pending) = v.answer config := by
  have hover : w.isOver v.market.now = decide (v.began + config.quotes.session ≤ v.now) := by
    rw [Watch.isOver, h.ends]
    rfl
  have hopen := Throttle.isOpen_after (Throttle.fresh config.quotes.watchMaxRateMs)
    (Watch.own v.symbol v.taken) v.now
  rw [← h.passes] at hopen
  rw [answer, hover, inFront_of_seated hs hu]
  simp only [decide_eq_true_eq]
  congr 1
  exact if_congr (hopen.trans ⟨fun h => h.2, fun h => ⟨rfl, h⟩⟩) rfl rfl

/-- What is known of a stream is known of it after a look: what was taken now has been offered to the
throttle as well. -/
theorem Streaming.looked (h : v.Streaming config s w) {seen : List Quote} {x : Diary}
    (hpass : ((Throttle.fresh config.quotes.watchMaxRateMs).after (Watch.own v.symbol v.taken)).pass
      (Watch.own v.symbol (Watch.timed v.now seen)) =
        Watch.timed v.now (v.answer config).toList) (watch : Option Watch) :
    ({ v with
      diary := x
      watch
      taken := v.taken ++ Watch.timed v.now seen
      given := v.given ++ Watch.timed v.now (v.answer config).toList } : Viewing).Streaming config s
      { w with throttle := some (((Throttle.fresh config.quotes.watchMaxRateMs).after
        (Watch.own v.symbol v.taken)).after (Watch.own v.symbol (Watch.timed v.now seen))) } := by
  have howned : Watch.own v.symbol (v.taken ++ Watch.timed v.now seen) =
      Watch.own v.symbol v.taken ++ Watch.own v.symbol (Watch.timed v.now seen) :=
    List.filter_append ..
  refine ⟨h.seat, h.symbol, congrArg some ?_, h.ends, ?_, fun e he => ?_⟩
  · exact (Throttle.after_append _ _ _).symm.trans (congrArg (Throttle.after _) howned.symm)
  · have hpasses : v.given ++ Watch.timed v.now (v.answer config).toList =
        (Throttle.fresh config.quotes.watchMaxRateMs).pass
          (Watch.own v.symbol (v.taken ++ Watch.timed v.now seen)) := by
      rw [howned, Throttle.pass_append, ← h.passes, hpass]
    exact hpasses
  · rcases List.mem_append.1 he with hold | hnew
    · exact h.timely e hold
    · exact lt_of_answer (v := v) hnew

/-- The subscription of the watcher after a look. -/
theorem Seated.looked (h : v.Seated s u) {seen rest : List Quote} {m : Market}
    (hsplit : u.buffer = seen ++ rest) (hleft : m.subscription? s = some { u with buffer := rest })
    (watch : Option Watch) (given : List (Nat × Quote)) :
    ({ v with
      diary := v.diary.setMarket m
      watch
      taken := v.taken ++ Watch.timed v.now seen
      given } : Viewing).Seated s { u with buffer := rest } := by
  refine ⟨h.held, hleft, h.missed, ?_⟩
  have hcomes := h.comes
  rw [hsplit, ← List.append_assoc] at hcomes
  have hseen : (Watch.timed v.now seen).map (·.2) = seen := by
    rw [Watch.timed, List.map_map]
    exact List.map_id seen
  rw [List.map_append, hseen]
  exact hcomes

/-- One look at a stream. What is known stays known, and what is found is what has to be found. -/
theorem Kept.of_look (h : v.Kept config) {r : Received Quote} (hlook : v.look? = some (r, v')) :
    v'.Kept config ∧ v.Looks config r v' := by
  rcases look?_eq_some hlook with ⟨w, w', m, taken, hw, hnext, htaken, rfl⟩
  rcases h.streaming w hw with ⟨s, hs, hstreaming⟩
  rcases h.seated s hs with ⟨u, hu⟩
  have hseat := hstreaming.seat
  have hjoined := h.hosts.kept.session.joined_of_mem h.hosts.kept.buses hu.held hu.found
  have hfound : v.market.subscription? w.seat = some u := hseat ▸ hu.found
  rcases h.next hs hseat (w.buffered v.market + 1) with ⟨hhosts, hgrant⟩
  rcases Watch.next_spec hstreaming.symbol hstreaming.throttle hfound hjoined with
    ⟨seen, rest, hsplit, hafter, hleft, hpass, hfinds, hall⟩
  rw [hnext] at hhosts hgrant hafter hleft hpass hfinds hall
  dsimp only at hhosts hgrant hafter hleft hpass hfinds hall
  rw [Market.inFrontOf_of_subscription? hfound, Market.inFrontOf_of_subscription? hleft, hsplit,
    List.length_append, Nat.add_sub_cancel, List.take_left' rfl] at htaken
  rw [hstreaming.answer_eq hs hu.found] at hfinds
  have hstill : (m.grant? v.ticket).bind Grant.seat? = some s := by
    rw [hgrant]
    exact hs
  rw [hseat] at hleft
  subst taken w' r
  refine ⟨⟨hhosts, h.settings, fun s' hs' => ?_, fun hnone => absurd hnone (Option.some_ne_none _),
    fun w' hw' => ⟨s, hstill, ?_⟩⟩, rfl, rfl, fun hpending => ?_⟩
  · cases Option.some.inj (hstill.symm.trans hs')
    exact ⟨_, hu.looked hsplit hleft _ _⟩
  · cases Option.some.inj hw'
    exact hstreaming.looked hpass _
  · exact Eq.trans (inFront_of_seated hstill hleft) (hall hpending)

/-! ## Runs -/

theorem kept_asked {x : Diary} (h : x.Hosts []) (text : String) :
    (asked x text).Kept x.service.config := by
  have hnone : (asked x text).seat? = none :=
    congrArg (fun o => Option.bind o Grant.seat?)
      (h.kept.session.queued.unanswered _ (Or.inr (Nat.le_refl _)))
  exact ⟨h.request, rfl, fun s hs => absurd (hnone.symm.trans hs).symm (Option.some_ne_none s),
    fun _ => ⟨rfl, rfl⟩, fun w hw => absurd hw.symm (Option.some_ne_none w)⟩

/-- What a step can be. -/
theorem cases_of_step? {a : Action} (hstep : v.step? a = some v') :
    (∃ b x, v.seat?.all b.leavesAlone = true ∧ v.diary.step? b = some x ∧
      v' = { v with diary := x, missed := v.missedAfter x }) ∨
    (∃ s, v.watch = none ∧ v.seat? = some s ∧
      v' = { v with watch := some (v.stream s), began := v.now }) ∨
    ∃ r, v.look? = some (r, v') := by
  cases a with
  | other b =>
      simp only [step?] at hstep
      split at hstep
      · next hleft =>
        rcases Option.map_eq_some_iff.1 hstep with ⟨x, hx, rfl⟩
        exact Or.inl ⟨b, x, hleft, hx, rfl⟩
      · exact absurd hstep (by simp only [reduceCtorEq, not_false_eq_true])
  | begin =>
      simp only [step?] at hstep
      split at hstep
      · next s hnone hs =>
        cases Option.some.inj hstep
        exact Or.inr (Or.inl ⟨s, hnone, hs, rfl⟩)
      · exact absurd hstep (by simp only [reduceCtorEq, not_false_eq_true])
  | look =>
      rcases Option.map_eq_some_iff.1 hstep with ⟨⟨r, v''⟩, hlook, rfl⟩
      exact Or.inr (Or.inr ⟨r, hlook⟩)

/-- What is known stays known, whatever happens. -/
theorem kept_of_step? {a : Action} (h : v.Kept config) (hstep : v.step? a = some v') :
    v'.Kept config := by
  rcases cases_of_step? hstep with ⟨b, x, hleft, hx, rfl⟩ | ⟨s, hnone, hs, rfl⟩ | ⟨r, hlook⟩
  · exact h.of_other hleft hx
  · exact h.of_begin hnone hs
  · exact (h.of_look hlook).1

theorem kept_of_run? {actions : List Action} (h : v.Kept config) (hrun : v.run? actions = some v') :
    v'.Kept config :=
  run_induction (fun _ v => v.Kept config) h (fun _ _ _ _ _ h hstep => kept_of_step? h hstep) hrun

/-! ## The end of a stream -/

/-- The clock does not go back. -/
theorem now_of_step? {a : Action} (h : v.Kept config) (hstep : v.step? a = some v') :
    v.now ≤ v'.now := by
  rcases cases_of_step? hstep with ⟨b, x, -, hx, rfl⟩ | ⟨s, -, -, rfl⟩ | ⟨r, hlook⟩
  · have hkept := h.hosts.kept
    cases Diary.steps_of_step? hx with
    | market _ hact => exact (Market.moves_act? hkept.session.fit.paired hact).now
    | keep hkeep => exact Nat.le_of_eq (Service.now_of_keep hkeep).symm
    | _ => exact Nat.le_refl _
  · exact Nat.le_refl _
  · rcases look?_eq_some hlook with ⟨w, w', m, seen, -, hnext, -, rfl⟩
    have hsame := (Watch.next_induction (fun m => m.now = v.now)
      (fun m hm => (Market.now_receive m w.seat).trans hm) (w.buffered v.market + 1)
      (w := w) rfl rfl).2
    rw [hnext] at hsame
    exact Nat.le_of_eq hsame.symm

/-- The time of the watch is over. -/
structure Over (config : Config) (v : Viewing) : Prop where
  watch : v.watch ≠ none
  late : v.began + config.quotes.session ≤ v.now

/-- Nothing is found any more. -/
theorem Over.answer (h : v.Over config) : v.answer config = .ended := if_pos h.late

theorem Over.of_step? {a : Action} (h : v.Over config) (hkept : v.Kept config)
    (hstep : v.step? a = some v') : v'.Over config ∧ v'.given = v.given := by
  have hnow := now_of_step? hkept hstep
  rcases cases_of_step? hstep with ⟨b, x, -, -, rfl⟩ | ⟨s, hnone, -, rfl⟩ | ⟨r, hlook⟩
  · exact ⟨⟨h.watch, Nat.le_trans h.late hnow⟩, rfl⟩
  · exact absurd hnone h.watch
  · have hlooks := (hkept.of_look hlook).2
    have hgiven := hlooks.given
    rw [hlooks.answer, h.answer] at hgiven
    have hgiven := hgiven.trans (List.append_nil _)
    rcases look?_eq_some hlook with ⟨w, w', m, seen, -, -, -, rfl⟩
    exact ⟨⟨Option.some_ne_none w', Nat.le_trans h.late hnow⟩, hgiven⟩

/-- Nothing is given when the time of the watch is over, whatever happens. -/
theorem Over.of_run? {actions : List Action} (h : v.Over config) (hkept : v.Kept config)
    (hrun : v.run? actions = some v') : v'.Over config ∧ v'.given = v.given := by
  have hall := run_induction
    (fun _ v' => v'.Kept config ∧ v'.Over config ∧ v'.given = v.given) ⟨hkept, h, rfl⟩
    (fun _ _ _ _ _ ih hstep => by
      rcases ih.2.1.of_step? ih.1 hstep with ⟨hover, hgiven⟩
      exact ⟨kept_of_step? ih.1 hstep, hover, hgiven.trans ih.2.2⟩) hrun
  exact hall.2

/-! ## What a watcher sees -/

/-- What the watcher was sent, each with the time. -/
def sent (v : Viewing) : List (Nat × PricePoint) := v.given.map (fun e => (e.1, .ofQuote e.2))

/-- What a watcher sees is right. -/
structure Proper (config : Config) (v : Viewing) : Prop where
  /-- The prices are those of different quotes of the symbol, published since the watcher got its
  seat, in their order. -/
  prices : ∃ quotes : List Quote, v.sent.map (·.2) = quotes.map .ofQuote ∧ quotes.Sublist v.published ∧
    ∀ q ∈ quotes, q.symbol = v.symbol
  spaced : v.sent.Pairwise (fun a b => a.1 + config.quotes.watchMaxRateMs ≤ b.1)
  timely : ∀ e ∈ v.sent, e.1 < v.began + config.quotes.session
  /-- Of the quotes of the symbol that were taken the stream has given as many as the rate allows.
  Quotes of other symbols make no difference. -/
  limited : v.given =
    (Throttle.fresh config.quotes.watchMaxRateMs).pass (Watch.own v.symbol v.taken)
  looks : ∀ r v', v.look? = some (r, v') → v.Looks config r v'
  settled : v.Over config → ∀ actions v', v.run? actions = some v' → v'.sent = v.sent ∧
    ∀ r v'', v'.look? = some (r, v'') → r = .ended

theorem Kept.limited (h : v.Kept config) : v.given =
    (Throttle.fresh config.quotes.watchMaxRateMs).pass (Watch.own v.symbol v.taken) := by
  cases hw : v.watch with
  | none =>
      rcases h.unwatched hw with ⟨htaken, hgiven⟩
      rw [htaken, hgiven]
      rfl
  | some w =>
      rcases h.streaming w hw with ⟨s, -, hstreaming⟩
      exact hstreaming.passes

/-- What was taken was published. -/
theorem Kept.published (h : v.Kept config) : (v.taken.map (·.2)).Sublist v.published := by
  cases hw : v.watch with
  | none =>
      rw [(h.unwatched hw).1]
      exact List.nil_sublist _
  | some w =>
      rcases h.streaming w hw with ⟨s, hs, -⟩
      rcases h.seated s hs with ⟨u, hu⟩
      rw [Viewing.published, hs]
      exact (List.sublist_append_left _ _).trans hu.comes

theorem Kept.timely (h : v.Kept config) : ∀ e ∈ v.given, e.1 < v.began + config.quotes.session := by
  cases hw : v.watch with
  | none =>
      rw [(h.unwatched hw).2]
      exact fun e he => absurd he List.not_mem_nil
  | some w =>
      rcases h.streaming w hw with ⟨s, -, hstreaming⟩
      exact hstreaming.timely

theorem Kept.proper (h : v.Kept config) : v.Proper config := by
  have hown : v.given.Sublist (Watch.own v.symbol v.taken) := by
    rw [h.limited]
    exact Throttle.pass_sublist _ _
  refine ⟨⟨v.given.map (·.2), ?_, ?_, fun q hq => ?_⟩, ?_, fun e he => ?_, h.limited,
    fun r v' hlook => (h.of_look hlook).2, fun hover actions v' hrun => ?_⟩
  · rw [sent, List.map_map, List.map_map]
    rfl
  · exact ((hown.trans List.filter_sublist).map _).trans h.published
  · rcases List.mem_map.1 hq with ⟨e, he, rfl⟩
    exact of_decide_eq_true (List.mem_filter.1 (hown.subset he)).2
  · rw [sent, List.pairwise_map, h.limited]
    exact Throttle.pass_spaced (Throttle.fresh config.quotes.watchMaxRateMs) _
  · rcases List.mem_map.1 he with ⟨e', he', rfl⟩
    exact h.timely e' he'
  · rcases hover.of_run? h hrun with ⟨hlater, hgiven⟩
    refine ⟨by rw [sent, hgiven, sent], fun r v'' hlook => ?_⟩
    rw [((kept_of_run? h hrun).of_look hlook).2.answer, hlater.answer]

end Viewing

end Bourse
