import Bourse.Proofs.Market.Seats

/-!
# Coming to a Seat

How a subscription begins: a request that is answered with a seat has an empty buffer
there and is held from then on. Its number is one that the line has not given out before. An
answer that was given stays, and nobody else gets the same seat.

While a subscription is held, its line is open, quotes come in and its ingestor goes on.

## Main definitions

* `Market.Gave`, `Market.Apart`: numbers of seats, which differ for different requests.
* `Session.Answered`: a request and its answer.

## Theorems

* `Session.Kept.live_of_mem`, `going_of_mem`, `joined_of_mem`: what is true while a subscription is
  held.
* `Session.Kept.answer_of_act?`: whatever happens answers one request or none.
* `Session.Kept.grant?_act?`: answers stay.
* `Session.Kept.seat_of_act?`: what is true when a subscription begins.
* `Session.Kept.apart_act?`: whatever happens, different requests have different seats.
-/

namespace Bourse

namespace Market

variable {m m' : Market} {s : Seat}

/-- The number of a seat has been given out on its line. -/
def Gave (m : Market) (s : Seat) : Prop :=
  ∃ l, m.lines[s.line]? = some l ∧ s.id < l.bus.nextId

/-- No two requests are answered with the same seat, for no number is given out twice. -/
structure Apart (m : Market) : Prop where
  gave : ∀ ticket s, m.grant? ticket = some (.seated s) → m.Gave s
  apart : ∀ t t' s, m.grant? t = some (.seated s) → m.grant? t' = some (.seated s) → t = t'

theorem Grows.gave (h : m.Grows m') (hs : m.Gave s) : m'.Gave s := by
  rcases hs with ⟨l, hl, hid⟩
  rcases h.altered s.line l hl with ⟨l', hl', halter⟩
  exact ⟨l', hl', Nat.lt_of_lt_of_le hid (Bus.nextId_le_of_altered halter)⟩

theorem Apart.of_grows (h : m.Apart) (hgrows : m.Grows m') (hgrants : m'.grants = m.grants) :
    m'.Apart := by
  have hgrant : m'.grant? = m.grant? := congrArg Table.get? hgrants
  refine ⟨fun ticket s hs => hgrows.gave (h.gave ticket s (hgrant ▸ hs)), fun t t' s ht ht' => ?_⟩
  rw [hgrant] at ht ht'
  exact h.apart t t' s ht ht'

end Market

namespace Session

open Market (Action)

variable {x : Session} {m : Market} {a : Action} {s : Seat} {u : Subscription} {ticket : Nat}
  {g : Grant}

/-! ## Being on a line -/

/-- Whoever holds a subscription is on a line that is open. -/
theorem Kept.live_of_mem (h : x.Kept) (hs : s ∈ x.held) : ∃ l w,
    x.market.lines[s.line]? = some l ∧ x.market.intake.ingestors[s.line]? = some w ∧
      (l.standing w).Live ∧ s.id ∈ l.bus.roll.here := by
  rcases h.sound with ⟨i, standing, hopen⟩ | hshut
  · have hheld : x.held = standing.roll.here.map (Seat.mk i) := hopen.held
    rw [hheld] at hs
    rcases List.mem_map.1 hs with ⟨id, hid, rfl⟩
    rcases Market.exists_of_standing? hopen.line with ⟨l, w, hl, hw, rfl⟩
    exact ⟨l, w, hl, hw, hopen.live, hid⟩
  · rw [show x.held = [] from hshut.held] at hs
    exact absurd hs List.not_mem_nil

/-- The ingestor of its line goes on. -/
theorem Kept.going_of_mem (h : x.Kept) (hs : s ∈ x.held) {w : Ingestor}
    (hw : x.market.intake.ingestors[s.line]? = some w) : w.phase ≠ .terminated := by
  rcases h.live_of_mem hs with ⟨l, w', -, hw', hlive, -⟩
  cases Option.some.inj (hw'.symm.trans hw)
  intro hphase
  have hunwanted := h.fit.ended w (List.mem_of_getElem? hw) (by rw [Ingestor.state, hphase])
  rw [Ingestor.isUnwanted, show w.stopped = false from hlive.wanted,
    show w.consumed = true from hlive.consumed] at hunwanted
  exact absurd hunwanted (by decide)

/-- Quotes come in for it. -/
theorem Kept.joined_of_mem (h : x.Kept) (hbuses : ∀ l ∈ x.market.lines, l.bus.Sound)
    (hs : s ∈ x.held) (hu : x.market.subscription? s = some u) : u.joined = true := by
  rcases h.live_of_mem hs with ⟨l, w, hl, -, -, hhere⟩
  rcases Market.subscription?_eq_some hu with ⟨l', hl', hfound⟩
  cases Option.some.inj (hl.symm.trans hl')
  rw [← Bus.isJoined_of_find? (hbuses l (List.mem_of_getElem? hl)) hfound]
  exact Bus.isJoined_iff.2 hhere

/-- The cache may give up a subscription like anybody else. -/
theorem Kept.removeFeeder (h : x.Kept) (s : Seat) :
    Kept ⟨x.market.removeFeeder s, x.held.filter (fun t => t ≠ s)⟩ := by
  have hfewer : x.market.SameDesk
      { x.market with feeders := x.market.feeders.filter (fun t => t ≠ s) } :=
    Market.sameDesk_cache x.market _ _
  have hfit : ({ x.market with
      feeders := x.market.feeders.filter (fun t => t ≠ s) } : Market).Fit := h.fit.of_same rfl rfl
  have hstep := Market.step_leave hfit s x.held
  rw [hfewer.outline_of_standing rfl] at hstep
  exact h.of_sameDesk (hfit.leave s) (hfewer.trans (Market.sameDesk_leave _ s)) hstep

/-! ## Getting there -/

/-- A request has been answered. Nothing is in front of a seat that it was answered with, whose number
had not been given out before. -/
structure Answered (m m' : Market) (ticket : Nat) (g : Grant) : Prop where
  asking : ticket ∈ m.asking
  grants : m'.grants = m.grants.insert ticket g
  found : ∀ s, g = .seated s → m'.subscription? s = some ⟨s.id, [], true⟩
  fresh : ∀ s, g = .seated s → ∀ l, m.lines[s.line]? = some l → l.bus.nextId ≤ s.id

/-- The turn of a request answers it or leaves all answers alone. -/
theorem Kept.answer_of_nextTurn? (h : x.Kept) (hbuses : ∀ l ∈ x.market.lines, l.bus.Sound)
    (hturn : x.market.nextTurn? = some m) :
    m.grants = x.market.grants ∨ ∃ ticket g, Answered x.market m ticket g := by
  rcases Market.turn_of_nextTurn? hturn with ⟨ticket, rest, hattempt, hwaiting⟩
  have hasking : ticket ∈ x.market.asking := by
    rw [Market.asking_of_turn hattempt hwaiting]
    exact List.mem_cons_self
  rcases h.sound with ⟨i, standing, hopen⟩ | hshut
  · rcases Market.exists_of_standing? hopen.line with ⟨l, w, hl, hw, rfl⟩
    rcases Market.nextTurn?_of_active hattempt hwaiting hopen.current hl hopen.live.isOpen with
      ⟨bus, hsubscribe, heq⟩
    cases Option.some.inj (heq.symm.trans hturn)
    have hbuffers : bus.hasBuffers = true :=
      (Market.hasBuffers_of_altered (Bus.altered_subscribe hsubscribe)).trans hopen.live.seating
    refine Or.inr ⟨ticket, _, hasking, rfl, fun s hs => ?_, fun s hs l' hl' => ?_⟩
    · rw [hbuffers, if_pos rfl] at hs
      cases hs
      simp only [Market.subscription?, List.getElem?_modify, hl, Option.map_eq_map,
        Option.map_some, Option.bind_some, if_true]
      exact Bus.find?_of_subscribe (hbuses l (List.mem_of_getElem? hl)) hsubscribe
    · rw [hbuffers, if_pos rfl] at hs
      cases hs
      cases Option.some.inj (hl.symm.trans hl')
      exact Nat.le_refl _
  · have hidle : x.market.isActive = false :=
      (Market.isActive_eq h.fit.paired x.held).trans hshut.active
    rw [Market.nextTurn?_of_inactive hattempt hwaiting hidle] at hturn
    split at hturn
    · cases Option.some.inj hturn
      exact Or.inr ⟨ticket, .failed .noSymbols, hasking, rfl, fun _ hs => Grant.noConfusion hs,
        fun _ hs => Grant.noConfusion hs⟩
    · cases Option.some.inj hturn
      exact Or.inl rfl

/-- The end of an attempt opens a line or answers its request. -/
theorem Kept.answer_of_endAttempt? (h : x.Kept) (hend : x.market.endAttempt? = some m) :
    m.grants = x.market.grants ∨ ∃ ticket g, Answered x.market m ticket g := by
  rcases Market.attempt_of_endAttempt? hend with ⟨attempt, hattempt, hline, hdue⟩
  have hasking : attempt.ticket ∈ x.market.asking := by
    rw [Market.asking_of_attempt hattempt]
    exact List.mem_cons_self
  rcases Chronicle.cases_of_attempt x.market.intake false with
    ⟨-, hopened⟩ | ⟨r, feed, hrefused, hnot, -⟩
  · rw [Market.endAttempt?_of_opened h.fit.paired hattempt hline hdue hopened] at hend
    cases Option.some.inj hend
    exact Or.inl rfl
  · rcases Market.endAttempt?_of_refused hattempt hline hdue hrefused hnot with ⟨g, hg, -, heq⟩
    cases Option.some.inj (heq.symm.trans hend)
    exact Or.inr ⟨attempt.ticket, g, hasking, rfl, fun s hs => absurd hs (hg s),
      fun s hs => absurd hs (hg s)⟩

/-- The first subscriber of a line is answered. -/
theorem answer_of_takeSeat? (hbuses : ∀ l ∈ x.market.lines, l.bus.Sound)
    (hseat : x.market.takeSeat? = some m) : ∃ ticket g, Answered x.market m ticket g := by
  rcases Market.cases_of_takeSeat? hseat with
    ⟨attempt, i, hattempt, -, ⟨l, bus, hl, hsubscribe, rfl⟩ | rfl | ⟨e, rfl⟩⟩
  all_goals
    have hasking : attempt.ticket ∈ x.market.asking := by
      rw [Market.asking_of_attempt hattempt]
      exact List.mem_cons_self
  · refine ⟨attempt.ticket, _, hasking, rfl, fun s hs => ?_, fun s hs l' hl' => ?_⟩
    · cases hs
      simp only [Market.subscription?, List.getElem?_modify, hl, Option.map_eq_map,
        Option.map_some, Option.bind_some, if_true]
      exact Bus.find?_of_subscribe (hbuses l (List.mem_of_getElem? hl)) hsubscribe
    · cases hs
      cases Option.some.inj (hl.symm.trans hl')
      exact Nat.le_refl _
  · exact ⟨attempt.ticket, .crashed, hasking, rfl, fun _ hs => Grant.noConfusion hs,
      fun _ hs => Grant.noConfusion hs⟩
  · exact ⟨attempt.ticket, .failed e, hasking, rfl, fun _ hs => Grant.noConfusion hs,
      fun _ hs => Grant.noConfusion hs⟩

/-- Whatever happens answers one of those who ask, or nobody. -/
theorem Kept.answer_of_act? (h : x.Kept) (hbuses : ∀ l ∈ x.market.lines, l.bus.Sound)
    (hact : x.market.act? a = some m) : m.grants = x.market.grants ∨
      a.isAnswering = true ∧ ∃ ticket g, Answered x.market m ticket g := by
  cases a with
  | nextTurn =>
      rcases h.answer_of_nextTurn? hbuses hact with hsame | hanswer
      · exact Or.inl hsame
      · exact Or.inr ⟨rfl, hanswer⟩
  | endAttempt =>
      rcases h.answer_of_endAttempt? hact with hsame | hanswer
      · exact Or.inl hsame
      · exact Or.inr ⟨rfl, hanswer⟩
  | takeSeat => exact Or.inr ⟨rfl, answer_of_takeSeat? hbuses hact⟩
  | _ => exact Or.inl (Market.grants_act? h.fit.paired rfl hact)

/-- An answer that was given stays. -/
theorem Kept.grant?_act? (h : x.Kept) (hbuses : ∀ l ∈ x.market.lines, l.bus.Sound)
    (hact : x.market.act? a = some m) (hg : x.market.grant? ticket = some g) :
    m.grant? ticket = some g := by
  rcases h.answer_of_act? hbuses hact with hsame | ⟨-, t, g', hanswer⟩
  · rw [Market.grant?, hsame]
    exact hg
  · have hne : ticket ≠ t := by
      intro heq
      have hnone := h.queued.unanswered t (Or.inl hanswer.asking)
      rw [← heq, hg] at hnone
      exact absurd hnone (by simp only [reduceCtorEq, not_false_eq_true])
    rw [Market.grant?_of_answer hanswer.grants, if_neg hne]
    exact hg

/-- A subscription begins held and with nothing in its buffer. -/
theorem Kept.seat_of_act? (h : x.Kept) (hbuses : ∀ l ∈ x.market.lines, l.bus.Sound)
    (hact : x.market.act? a = some m) (hnone : x.market.grant? ticket = none)
    (hs : m.grant? ticket = some (.seated s)) :
    a.isAnswering = true ∧ s ∈ x.heldAfter m a ∧ m.subscription? s = some ⟨s.id, [], true⟩ := by
  rcases h.answer_of_act? hbuses hact with hsame | ⟨hanswering, t, g, hanswer⟩
  · rw [Market.grant?, hsame] at hs
    exact absurd (hnone.symm.trans hs) (by simp only [reduceCtorEq, not_false_eq_true])
  · have hgrant := Market.grant?_of_answer hanswer.grants ticket
    rw [hs] at hgrant
    split at hgrant
    · next ht =>
      cases Option.some.inj hgrant
      have hmem : s ∈ x.held ++ m.seats x.market.asking := by
        refine List.mem_append_right _
          (List.mem_filterMap.2 ⟨ticket, ht ▸ hanswer.asking, ?_⟩)
        rw [hs]
        rfl
      refine ⟨hanswering, ?_, hanswer.found s rfl⟩
      cases a with
      | nextTurn => exact hmem
      | endAttempt => exact hmem
      | takeSeat => exact hmem
      | _ => exact absurd hanswering Bool.false_ne_true
    · rw [hnone] at hgrant
      exact absurd hgrant (by simp only [reduceCtorEq, not_false_eq_true])

/-! ## Seats of different requests -/

/-- Different requests are answered with different seats, whatever happens. -/
theorem Kept.apart_act? (h : x.Kept) (hbuses : ∀ l ∈ x.market.lines, l.bus.Sound)
    (hapart : x.market.Apart) (hact : x.market.act? a = some m) : m.Apart := by
  have hgrows := Market.grows_act? h.fit.paired hact
  rcases h.answer_of_act? hbuses hact with hsame | ⟨-, ticket, g, hanswer⟩
  · exact hapart.of_grows hgrows hsame
  · have hgrant := Market.grant?_of_answer hanswer.grants
    have hfresh : ∀ t s, g = .seated s → x.market.grant? t ≠ some (.seated s) := by
      intro t s hg hs
      rcases hapart.gave t s hs with ⟨l, hl, hid⟩
      exact absurd (hanswer.fresh s hg l hl) (Nat.not_le.2 hid)
    refine ⟨fun t s hs => ?_, fun t t' s ht ht' => ?_⟩
    · rw [hgrant] at hs
      split at hs
      · rcases Market.subscription?_eq_some (hanswer.found s (Option.some.inj hs)) with ⟨l, hl, hu⟩
        have hsound := hgrows.buses hbuses l (List.mem_of_getElem? hl)
        exact ⟨l, hl, hsound.given _ (Bus.mem_of_find? hu)⟩
      · exact hgrows.gave (hapart.gave t s hs)
    · rw [hgrant] at ht ht'
      split at ht
      · next heq =>
        split at ht'
        · next heq' => exact heq.trans heq'.symm
        · exact absurd ht' (hfresh t' s (Option.some.inj ht))
      · split at ht'
        · exact absurd ht (hfresh t s (Option.some.inj ht'))
        · exact hapart.apart t t' s ht ht'

end Session

end Bourse
