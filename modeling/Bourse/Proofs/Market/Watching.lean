import Bourse.Proofs.Market.Clients
import Bourse.Proofs.Market.Seats
import Bourse.Proofs.Throttle.Passing

/-!
# What a Watch Lets Through

A watch looks at its buffer from the front. What it takes out does not come back: quotes of
other symbols are passed over, and quotes of its own that come too early are dropped. So one
look takes the first quote of the symbol if the rate allows one now, and all quotes if it
does not. Over many looks, what has passed is what a throttle lets pass of the quotes of the
symbol, each at the time it was taken, and quotes of other symbols make no difference.

A stream is at its end when its time is over, or when its bus has closed and its buffer is
empty. Neither is undone by anything that happens around the market.

## Main definitions

* `Watch.scan`: what is found in a buffer, and what is left of it.
* `Watch.Takes`: what one look takes and finds.
* `Market.Drained`: the bus of a subscription has closed and nothing is in its buffer.
* `Market.Keeps`: what can happen while a subscription is kept.

## Theorems

* `takes_of_scan`: one look at a buffer.
* `next_of_over`, `next_of_found`, `next_of_drained`: one look at the market.
* `drained_act?`, `drained_of_keeps`: what is drained stays drained.
-/

namespace Bourse

/-- What is found at a look, if anything. -/
def Received.toList {α : Type} : Received α → List α
  | item a => [a]
  | _ => []

/-! ## One look at a buffer -/

namespace Watch

variable {w : Watch} {m : Market} {u : Subscription} {t : Throttle} {symbol : String}

/-- What a watch finds in a buffer at a time, the watch after it, and what is left of the buffer. -/
def scan (now : Nat) : Watch → List Quote → Option Quote × Watch × List Quote
  | w, [] => (none, w, [])
  | w, q :: rest =>
    match w.offer now q with
    | (true, w) => (some q, w, rest)
    | (false, w) => scan now w rest

/-- The quotes of a symbol among those of a list with their times. -/
def own (symbol : String) (l : List (Nat × Quote)) : List (Nat × Quote) :=
  l.filter (fun e => e.2.symbol = symbol)

/-- Quotes and the time at which they are taken. -/
def timed (now : Nat) (l : List Quote) : List (Nat × Quote) := l.map (fun q => (now, q))

theorem own_timed_cons_own {now : Nat} {q : Quote} (hq : q.symbol = symbol) (l : List Quote) :
    own symbol (timed now (q :: l)) = (now, q) :: own symbol (timed now l) :=
  List.filter_cons_of_pos (decide_eq_true hq)

theorem own_timed_cons_other {now : Nat} {q : Quote} (hq : q.symbol ≠ symbol) (l : List Quote) :
    own symbol (timed now (q :: l)) = own symbol (timed now l) :=
  List.filter_cons_of_neg (Bool.not_eq_true _ ▸ decide_eq_false hq)

/-- A quote of another symbol leaves the watch as it is. -/
theorem offer_of_other {now : Nat} {q : Quote} (hsymbol : w.symbol = some symbol)
    (hq : q.symbol ≠ symbol) : w.offer now q = (false, w) := by
  have hnot : w.wants q = false := by
    rw [wants, hsymbol]
    exact decide_eq_false hq
  rw [offer, hnot]
  rfl

/-- One of the symbol is left to the throttle. -/
theorem offer_of_own {now : Nat} {q : Quote} (hsymbol : w.symbol = some symbol)
    (ht : w.throttle = some t) (hq : q.symbol = symbol) :
    w.offer now q = ((t.offer now).1, { w with throttle := some (t.offer now).2 }) := by
  have hwants : w.wants q = true := by
    rw [wants, hsymbol]
    exact decide_eq_true hq
  rw [offer, if_pos hwants, ht]

/-- What one look at a buffer takes from it, and what it finds. -/
structure Takes (w : Watch) (now : Nat) (symbol : String) (t : Throttle) (buffer seen : List Quote)
    (found : Option Quote) (w' : Watch) (rest : List Quote) : Prop where
  split : buffer = seen ++ rest
  watch : w' = { w with throttle := some (t.after (own symbol (timed now seen))) }
  passes : t.pass (own symbol (timed now seen)) = timed now found.toList
  first : found = if t.isOpen now then buffer.find? (fun q => q.symbol = symbol) else none
  all : found = none → rest = []

/-- One look at a buffer takes quotes from the front: up to the first one of the symbol if the
throttle is open, and all of them if it is not or there is none. What is taken is what the
throttle is offered at that time, without the quotes of other symbols. -/
theorem takes_of_scan (now : Nat) (hsymbol : w.symbol = some symbol) (ht : w.throttle = some t)
    (buffer : List Quote) : ∃ seen, w.Takes now symbol t buffer seen (w.scan now buffer).1
      (w.scan now buffer).2.1 (w.scan now buffer).2.2 := by
  induction buffer generalizing w t with
  | nil =>
      refine ⟨[], rfl, ?_, rfl, ?_, fun _ => rfl⟩
      · have hsame : w = { w with throttle := some t } := by rw [← ht]
        exact hsame
      · rw [scan, List.find?_nil, ite_self]
  | cons q rest ih =>
      rw [scan]
      by_cases hq : q.symbol = symbol
      · have hfind : (q :: rest).find? (fun q => q.symbol = symbol) = some q :=
          List.find?_cons_of_pos (decide_eq_true hq)
        rw [offer_of_own hsymbol ht hq]
        cases hopen : t.isOpen now with
        | true =>
            -- The quote passes, and the look is over.
            have hpasses : t.offer now = (true, (t.offer now).2) := by
              rw [Throttle.offer, if_pos hopen]
            rw [hpasses]
            refine ⟨[q], rfl, ?_, ?_, ?_, fun h => absurd h (Option.some_ne_none q)⟩
            · rw [own_timed_cons_own hq]
              rfl
            · rw [own_timed_cons_own hq, Throttle.pass, if_pos hopen]
              rfl
            · rw [hopen, if_pos rfl, hfind]
        | false =>
            have hstays : t.offer now = (false, t) := by
              rw [Throttle.offer, hopen, if_neg Bool.false_ne_true]
            rw [hstays]
            rcases ih (w := { w with throttle := some t }) hsymbol rfl with ⟨seen, h⟩
            refine ⟨q :: seen, congrArg (q :: ·) h.split, ?_, ?_, ?_, h.all⟩
            · rw [own_timed_cons_own hq, Throttle.after, hstays]
              exact h.watch
            · rw [own_timed_cons_own hq, Throttle.pass, hopen, if_neg Bool.false_ne_true]
              exact h.passes
            · have hnone := h.first
              rw [hopen, if_neg Bool.false_ne_true] at hnone ⊢
              exact hnone
      · rw [offer_of_other hsymbol hq]
        rcases ih hsymbol ht with ⟨seen, h⟩
        refine ⟨q :: seen, congrArg (q :: ·) h.split, ?_, ?_, ?_, h.all⟩
        · rw [own_timed_cons_other hq]
          exact h.watch
        · rw [own_timed_cons_other hq]
          exact h.passes
        · rw [List.find?_cons_of_neg (Bool.not_eq_true _ ▸ decide_eq_false hq)]
          exact h.first

end Watch

/-! ## One look at the market -/

namespace Market

variable {m m' : Market} {s : Seat} {u : Subscription}

/-- The quotes in the buffer of a subscription. -/
def inFrontOf (m : Market) (s : Seat) : List Quote := ((m.subscription? s).map (·.buffer)).getD []

theorem inFrontOf_of_subscription? (hu : m.subscription? s = some u) :
    m.inFrontOf s = u.buffer := by
  rw [inFrontOf, hu]
  rfl

/-- Whoever looks at a subscription takes the first quote in its buffer. -/
theorem receive_of_subscription? (hu : m.subscription? s = some u) :
    (m.receive s).1 = (match u.buffer with
      | q :: _ => .item q
      | [] => if u.joined then .pending else .ended) ∧
    (m.receive s).2.subscription? s = some { u with buffer := u.buffer.drop 1 } := by
  rcases subscription?_eq_some hu with ⟨l, hl, hfound⟩
  refine ⟨?_, (changesBus_receive m s).subscription? hu (fun l' _ _ hfound' => ?_)
    (fun hne => absurd rfl hne)⟩
  · rw [receive, hl]
    dsimp only
    rw [Bus.receive, hfound]
    dsimp only
    cases u.buffer with
    | nil => rfl
    | cons q rest => rfl
  · rw [Bus.find?_receive hfound', if_pos rfl]

end Market

namespace Watch

variable {w : Watch} {m : Market} {u : Subscription}

theorem ends_offer (w : Watch) (now : Nat) (q : Quote) : (w.offer now q).2.ends = w.ends := by
  unfold offer
  split
  · split
    · rfl
    · rfl
  · rfl

/-- Nothing is found when the time is over. -/
theorem next_of_over (h : w.isOver m.now = true) (fuel : Nat) :
    w.next (fuel + 1) m = (.ended, w, m) := by
  rw [next, if_pos h]

/-- Before that, a look at the market is one at the buffer. -/
theorem next_of_found {fuel : Nat} (hover : w.isOver m.now = false)
    (hu : m.subscription? w.seat = some u) (hfuel : u.buffer.length < fuel) :
    (w.next fuel m).1 = (match (w.scan m.now u.buffer).1 with
      | some q => .item q
      | none => if u.joined then .pending else .ended) ∧
    (w.next fuel m).2.1 = (w.scan m.now u.buffer).2.1 ∧
    (w.next fuel m).2.2.subscription? w.seat =
      some { u with buffer := (w.scan m.now u.buffer).2.2 } := by
  induction fuel generalizing w m u with
  | zero => exact absurd hfuel (Nat.not_lt_zero _)
  | succ fuel ih =>
      rcases Market.receive_of_subscription? hu with ⟨hreceive, hafter⟩
      have hnow := Market.now_receive m w.seat
      rw [next, if_neg (by rw [hover]; exact Bool.false_ne_true)]
      generalize m.receive w.seat = received at hreceive hafter hnow ⊢
      rcases received with ⟨r, m'⟩
      dsimp only at hreceive hafter hnow
      cases hbuffer : u.buffer with
      | nil =>
          simp only [hbuffer, List.drop_nil] at hreceive hafter
          rw [scan, hreceive]
          split_ifs
          · exact ⟨rfl, rfl, hafter⟩
          · exact ⟨rfl, rfl, hafter⟩
      | cons q rest =>
          simp only [hbuffer, List.drop_succ_cons, List.drop_zero] at hreceive hafter
          have hseat := w.seat_offer m.now q
          have hends := w.ends_offer m.now q
          rw [scan, hreceive]
          dsimp only
          rw [hnow]
          generalize w.offer m.now q = offered at hseat hends ⊢
          rcases offered with ⟨passes, w'⟩
          dsimp only at hseat hends
          cases passes with
          | true => exact ⟨rfl, rfl, hafter⟩
          | false =>
              -- The quote is dropped, and the look goes on.
              have hover' : w'.isOver m'.now = false := by
                rw [isOver, hends, hnow]
                exact hover
              have hlength : rest.length < fuel := by
                rw [hbuffer, List.length_cons] at hfuel
                omega
              have hrest := ih (w := w') (u := { u with buffer := rest }) hover'
                (hseat.symm ▸ hafter) hlength
              rw [hnow, hseat] at hrest
              exact hrest

/-- What a look at a subscription finds, as long as quotes come in. -/
theorem next_spec {t : Throttle} {symbol : String} (hsymbol : w.symbol = some symbol)
    (ht : w.throttle = some t) (hu : m.subscription? w.seat = some u) (hjoined : u.joined = true) :
    ∃ seen rest, u.buffer = seen ++ rest ∧
      (w.next (w.buffered m + 1) m).2.1 =
        { w with throttle := some (t.after (own symbol (timed m.now seen))) } ∧
      (w.next (w.buffered m + 1) m).2.2.subscription? w.seat = some { u with buffer := rest } ∧
      t.pass (own symbol (timed m.now seen)) =
        timed m.now (w.next (w.buffered m + 1) m).1.toList ∧
      (w.next (w.buffered m + 1) m).1 = (if w.isOver m.now then .ended else
        if t.isOpen m.now then
          ((u.buffer.find? (fun q => q.symbol = symbol)).map .item).getD .pending
        else .pending) ∧
      ((w.next (w.buffered m + 1) m).1 = .pending → rest = []) := by
  cases hover : w.isOver m.now with
  | true =>
      rw [next_of_over hover, if_pos rfl]
      refine ⟨[], u.buffer, rfl, ?_, hu, rfl, rfl, fun h => absurd h (by
        simp only [reduceCtorEq, not_false_eq_true])⟩
      have hsame : w = { w with throttle := some t } := by rw [← ht]
      exact hsame
  | false =>
      have hfuel : u.buffer.length < w.buffered m + 1 := by
        rcases Market.subscription?_eq_some hu with ⟨l, hl, hfound⟩
        rw [buffered, hl, Option.map_some, Option.getD_some, Bus.buffered_of_find? hfound]
        exact Nat.lt_succ_self _
      rcases next_of_found hover hu hfuel with ⟨hfinds, hafter, hleft⟩
      rcases takes_of_scan m.now hsymbol ht u.buffer with ⟨seen, h⟩
      have hfinds' : (w.next (w.buffered m + 1) m).1 =
          ((w.scan m.now u.buffer).1.map .item).getD .pending := by
        rw [hfinds, hjoined]
        cases (w.scan m.now u.buffer).1 with
        | _ => rfl
      rw [hfinds', hafter, hleft, if_neg Bool.false_ne_true]
      refine ⟨seen, _, h.split, h.watch, rfl, ?_, ?_, ?_⟩
      · rw [h.passes]
        cases (w.scan m.now u.buffer).1 with
        | _ => rfl
      · rw [h.first]
        split_ifs
        · rfl
        · rfl
      · cases hfound : (w.scan m.now u.buffer).1 with
        | none => exact fun _ => h.all hfound
        | some q => exact fun hpending => absurd hpending (by simp only [Option.map_some,
            Option.getD_some, reduceCtorEq, not_false_eq_true])

end Watch

/-! ## The end of the quotes -/

namespace Market

variable {m m' : Market} {s : Seat} {u : Subscription} {a : Action}

/-- Nothing is in the buffer of a subscription, and nothing comes in any more. -/
def Drained (m : Market) (s : Seat) : Prop :=
  ∃ u, m.subscription? s = some u ∧ u.buffer = [] ∧ u.joined = false

/-- When a bus has closed, a subscription has only what is in its buffer. -/
theorem drained_of_closed (hbuses : ∀ l ∈ m.lines, l.bus.Sound) {l : Line}
    (hl : m.lines[s.line]? = some l) (hclosed : l.bus.closed = true)
    (hu : m.subscription? s = some u) (hempty : u.buffer = []) : m.Drained s := by
  rcases subscription?_eq_some hu with ⟨l', hl', hfound⟩
  cases Option.some.inj (hl.symm.trans hl')
  exact ⟨u, hu, hempty,
    (hbuses l (List.mem_of_getElem? hl)).ended hclosed u (Bus.mem_of_find? hfound)⟩

/-- Whether something is not the end of a subscription by its holder. -/
def Action.isKeeping (s : Seat) : Action → Bool
  | leave t | feed t => t ≠ s
  | _ => true

/-- What is drained stays drained, whatever happens. -/
theorem drained_act? (hpaired : m.Paired) (hbuses : ∀ l ∈ m.lines, l.bus.Sound)
    (h : m.Drained s) (hkeeps : a.isKeeping s = true) (hact : m.act? a = some m') :
    m'.Drained s := by
  rcases h with ⟨u, hu, hempty, hleft⟩
  refine ⟨u, ?_, hempty, hleft⟩
  by_cases haside : a.isAside s = true
  · exact subscription?_act? hpaired hbuses hu haside hact
  · cases a with
    | receive t =>
        have ht : t = s := of_not_not (fun hne => haside (decide_eq_true hne))
        subst ht
        cases Option.some.inj hact
        have hafter := (receive_of_subscription? hu).2
        rw [hempty, List.drop_nil, ← hempty] at hafter
        exact hafter
    | dispatch i =>
        have hi : i = s.line := of_not_not (fun hne => haside (decide_eq_true hne))
        subst hi
        -- Nobody brings quotes to a subscription that has ended.
        have hsame : ∀ {n : Market} {f : Bus → Bus}, n.lines = m.lines →
            (∀ l ∈ m.lines, l.bus.find? s.id = some u → (f l.bus).find? s.id = some u) →
            (n.changeBus s.line f).subscription? s = some u := by
          intro n f hn hf
          refine (changesBus_changeBus n s.line f).subscription? (u := u)
            ?_ (fun l hl _ hfound => ?_) (fun _ => rfl)
          · rw [subscription?, hn]
            exact hu
          · rw [hn] at hl
            exact hf l (List.mem_of_getElem? hl) hfound
        rcases cases_of_dispatchAt? hpaired hact with
          ⟨l, w, -, -, ⟨-, rfl⟩ | ⟨-, q, rest, -, rfl⟩ | ⟨-, -, rfl⟩⟩
        · rw [subscription?_endDispatch]
          exact hu
        · refine hsame rfl (fun l hl hfound => ?_)
          rw [Bus.find?_publish (hbuses l hl) hfound, Bus.deliver, hleft, Bool.false_and,
            if_neg Bool.false_ne_true]
        · rw [subscription?_endDispatch]
          refine hsame rfl (fun l hl hfound => ?_)
          rw [Bus.find?_close (hbuses l hl) hfound, ← hleft]
    | leave t => exact absurd hkeeps haside
    | feed t => exact absurd hkeeps haside
    | _ => exact absurd rfl haside

theorem Change.paired (h : m.Change m') (hpaired : m.Paired) : m'.Paired := by
  cases h with
  | bus i f =>
      rw [Paired, changesBus_changeBus m i f, List.length_modify, length_changeBus]
      exact hpaired
  | ended i =>
      rw [Paired, endDispatch]
      simp only [List.length_modify, Intake.change]
      exact hpaired
  | read s =>
      rw [Paired, changesBus_receive m s, List.length_modify, length_receive]
      exact hpaired
  | ingestor i w => exact hpaired.trans List.length_set.symm
  | _ => exact hpaired

/-- Whatever happens, every line has its ingestor. -/
theorem paired_act? (h : m.Paired) (hact : m.act? a = some m') : m'.Paired := by
  cases a with
  | request =>
      cases Option.some.inj hact
      exact h
  | nextTurn =>
      rw [Paired, intake_of_nextTurn? hact, ← h]
      rcases lines_of_nextTurn? hact with hsame | ⟨i, l, bus, id, -, -, hlines⟩
      · rw [hsame]
      · rw [hlines, List.length_modify]
  | endAttempt =>
      rcases attempt_of_endAttempt? hact with ⟨a, hattempt, hline, hdue⟩
      rcases Chronicle.cases_of_attempt m.intake false with
        ⟨-, hopened⟩ | ⟨r, feed, hrefused, hnot, -⟩
      · rw [act?, endAttempt?_of_opened h hattempt hline hdue hopened] at hact
        cases Option.some.inj hact
        rw [Paired, List.length_append, List.length_append, h]
        rfl
      · rcases endAttempt?_of_refused hattempt hline hdue hrefused hnot with ⟨g, -, -, heq⟩
        rw [act?, heq] at hact
        cases Option.some.inj hact
        exact h
  | takeSeat =>
      rcases cases_of_takeSeat? hact with ⟨a, i, -, -, ⟨l, bus, -, -, rfl⟩ | rfl | ⟨e, rfl⟩⟩
      · exact (List.length_modify _ _ _).trans h
      · exact (List.length_modify _ _ _).trans (h.trans (List.length_modify _ _ _).symm)
      · exact h
  | _ =>
      exact keeps_act? h rfl Action.noConfusion hact h (fun _ _ hn hchange => hchange.paired hn)

/-- What can happen while a subscription is kept. -/
def Keeps (s : Seat) : Market → Market → Prop :=
  Relation.ReflTransGen (fun m m' => ∃ a : Action, a.isKeeping s = true ∧ m.act? a = some m')

theorem drained_of_keeps (hpaired : m.Paired) (hbuses : ∀ l ∈ m.lines, l.bus.Sound)
    (h : m.Drained s) (hkeeps : Keeps s m m') : m'.Drained s := by
  have hall : m'.Paired ∧ (∀ l ∈ m'.lines, l.bus.Sound) ∧ m'.Drained s := by
    induction hkeeps with
    | refl => exact ⟨hpaired, hbuses, h⟩
    | tail _ hstep ih =>
        rcases hstep with ⟨a, ha, hact⟩
        rcases ih with ⟨hpaired, hbuses, h⟩
        exact ⟨paired_act? hpaired hact, buses_act? hpaired hbuses hact,
          drained_act? hpaired hbuses h ha hact⟩
  exact hall.2.2

end Market

namespace Watch

variable {w : Watch} {m m' : Market}

/-- Nothing is found when nothing is in the buffer and nothing comes in any more. -/
theorem next_of_drained (h : m.Drained w.seat) (fuel : Nat) :
    (w.next (fuel + 1) m).1 = .ended := by
  cases hover : w.isOver m.now with
  | true => rw [next_of_over hover]
  | false =>
      rcases h with ⟨u, hu, hempty, hleft⟩
      have hfuel : u.buffer.length < fuel + 1 := by
        rw [hempty]
        exact Nat.succ_pos fuel
      have hnext := (next_of_found hover hu hfuel).1
      rw [hempty, scan, hleft] at hnext
      exact hnext

end Watch

end Bourse
