import Bourse.Proofs.Market.Session

/-!
# Answering Requests

How a request for a subscription comes to its answer. Its turn comes when nobody is
opening a line. If the line in use is open, the request is seated there and nothing is
opened; if not, an attempt to open one begins. When that ends there is a new line, or the
request fails and leaves everything else as it was. The request is seated as the first on
the new line, which brings quotes from the moment on that it is there. Then the turn goes on
to the next request.

## Theorems

* `nextTurn?_of_active`, `nextTurn?_of_inactive`: what the turn of a request is.
* `endAttempt?_of_opened`, `endAttempt?_of_refused`: how an attempt ends.
* `takeSeat?_of_open`, `takeSeat?_of_sound`, `cases_of_takeSeat?`: how the first subscriber gets its
  seat.
* `step_nextTurn?`, `step_endAttempt?`, `step_takeSeat?`: what they do to the outline of the
  market.
-/

namespace Bourse

namespace Market

variable {m m' : Market} {i ticket : Nat} {rest : List Nat} {l : Line} {a : LineAttempt}

/-! ## The turn of a request -/

theorem isActive_of_open (hcurrent : m.current = some i) (hl : m.lines[i]? = some l) :
    m.isActive = !l.bus.closed := by
  rw [isActive, currentBus?, hcurrent, Option.bind_some, hl]
  rfl

theorem exists_of_isActive (h : m.isActive = true) :
    ∃ i l, m.current = some i ∧ m.lines[i]? = some l ∧ l.bus.closed = false := by
  cases hcurrent : m.current with
  | none =>
      rw [isActive, currentBus?, hcurrent] at h
      exact absurd h Bool.false_ne_true
  | some i =>
      cases hl : m.lines[i]? with
      | none =>
          rw [isActive, currentBus?, hcurrent, Option.bind_some, hl] at h
          exact absurd h Bool.false_ne_true
      | some l =>
          rw [isActive_of_open hcurrent hl, Bool.not_eq_true'] at h
          exact ⟨i, l, rfl, hl, h⟩

/-- The turn of a request: it joins the line in use, or else begins to open one. -/
theorem nextTurn?_eq (hattempt : m.attempt = none) (hwaiting : m.waiting = ticket :: rest) :
    m.nextTurn? = some
      (match ({ m with waiting := rest } : Market).joinCurrent? with
      | some (g, m) => m.answer ticket g
      | none =>
        if m.intake.settings.symbols.isEmpty then
          ({ m with waiting := rest } : Market).answer ticket (.failed .noSymbols)
        else { m with
          waiting := rest, attempt := some ⟨ticket, m.now + m.intake.feed.delay, none⟩ }) := by
  unfold nextTurn?
  split
  · next t r hattempt' hwaiting' =>
    cases hwaiting.symm.trans hwaiting'
    simp only []
    cases ({ m with waiting := rest } : Market).joinCurrent? with
    | some p => rfl
    | none =>
        simp only []
        split
        · rfl
        · rfl
  · next hnot => exact absurd hwaiting (hnot ticket rest hattempt)

/-- While a line is open, a request is seated on it. -/
theorem nextTurn?_of_active (hattempt : m.attempt = none) (hwaiting : m.waiting = ticket :: rest)
    (hcurrent : m.current = some i) (hl : m.lines[i]? = some l) (hopen : l.bus.closed = false) :
    ∃ bus, l.bus.subscribe = some (l.bus.nextId, bus) ∧ m.nextTurn? = some { m with
      waiting := rest
      lines := m.lines.modify i (fun l => { l with bus })
      grants := m.grants.insert ticket
        (if bus.hasBuffers then .seated ⟨i, l.bus.nextId⟩ else .crashed) } := by
  rcases cases_of_join? { m with waiting := rest } i with
    ⟨-, hclosed⟩ | ⟨l', bus, hl', -, hsubscribe, hjoin⟩
  · rw [hclosed l hl] at hopen
    exact absurd hopen (by simp only [Bool.true_eq_false, not_false_eq_true])
  · cases Option.some.inj (hl.symm.trans hl')
    have hjoined : ({ m with waiting := rest } : Market).joinCurrent? = _ :=
      (congrArg (fun c => Option.bind c ({ m with waiting := rest } : Market).join?) hcurrent).trans
        hjoin
    refine ⟨bus, hsubscribe, ?_⟩
    rw [nextTurn?_eq hattempt hwaiting, hjoined, changeBus_of_join hl' hsubscribe]
    rfl

/-- While no line is open, a request begins to open one, unless no symbols are asked for. -/
theorem nextTurn?_of_inactive (hattempt : m.attempt = none) (hwaiting : m.waiting = ticket :: rest)
    (hnone : m.isActive = false) :
    m.nextTurn? = some
      (if m.intake.settings.symbols.isEmpty then
        ({ m with waiting := rest } : Market).answer ticket (.failed .noSymbols)
      else { m with
          waiting := rest, attempt := some ⟨ticket, m.now + m.intake.feed.delay, none⟩ }) := by
  have hjoin : ({ m with waiting := rest } : Market).joinCurrent? = none := by
    refine Option.bind_eq_none_iff.2 fun i hcurrent => ?_
    rcases cases_of_join? { m with waiting := rest } i with ⟨hjoin, -⟩ | ⟨l, bus, hl, hopen, -, -⟩
    · exact hjoin
    · have hactive : m.isActive = !l.bus.closed := isActive_of_open hcurrent hl
      rw [hnone, hopen] at hactive
      exact absurd hactive (by simp only [Bool.not_false, Bool.false_eq_true, not_false_eq_true])
  rw [nextTurn?_eq hattempt hwaiting, hjoin]

/-- A turn is taken by the first request that waits, when nobody is opening a line. -/
theorem turn_of_nextTurn? (h : m.nextTurn? = some m') :
    ∃ ticket rest, m.attempt = none ∧ m.waiting = ticket :: rest := by
  unfold nextTurn? at h
  split at h
  · next ticket rest hattempt hwaiting => exact ⟨ticket, rest, hattempt, hwaiting⟩
  · exact absurd h (by simp only [reduceCtorEq, not_false_eq_true])

/-- A turn leaves the intake alone. -/
theorem intake_of_nextTurn? (h : m.nextTurn? = some m') : m'.intake = m.intake := by
  rcases turn_of_nextTurn? h with ⟨ticket, rest, hattempt, hwaiting⟩
  cases hactive : m.isActive with
  | true =>
      rcases exists_of_isActive hactive with ⟨i, l, hcurrent, hl, hopen⟩
      rcases nextTurn?_of_active hattempt hwaiting hcurrent hl hopen with ⟨bus, -, hturn⟩
      cases Option.some.inj (hturn.symm.trans h)
      rfl
  | false =>
      rw [nextTurn?_of_inactive hattempt hwaiting hactive] at h
      split at h
      · cases Option.some.inj h
        rfl
      · cases Option.some.inj h
        rfl

theorem asking_of_turn (hattempt : m.attempt = none) (hwaiting : m.waiting = ticket :: rest) :
    m.asking = ticket :: rest := by
  rw [asking, hattempt, hwaiting]
  rfl

theorem asking_of_attempt (hattempt : m.attempt = some a) :
    m.asking = a.ticket :: m.waiting := by
  rw [asking, hattempt]
  rfl

theorem turn_of_idle (hattempt : m.attempt = none) : m.turn = .free := by
  rw [turn, hattempt]

theorem turn_of_attempt (hattempt : m.attempt = some a) (hline : a.line = none) :
    m.turn = .connecting := by
  simp only [turn, hattempt, hline, Option.elim_none]

theorem turn_of_line (hattempt : m.attempt = some a) (hline : a.line = some i) :
    m.turn = .opened i := by
  simp only [turn, hattempt, hline, Option.elim_some]

/-! ## The end of an attempt -/

theorem attempt_of_ok {k : Intake} {c : Nat} (h : k.feed.connect.1 = .ok c)
    (hfeed : isBufferSize k.feed.buffer = true) (hbuffer : isBufferSize k.settings.buffer = true)
    (fired : Bool) : k.attempt fired = (.opened k.ingestors.length,
      { k with feed := k.feed.connect.2, ingestors := k.ingestors ++ [.start c fired] }) := by
  unfold Intake.attempt
  rw [hfeed, Bool.or_true, if_pos rfl]
  cases hconnect : k.feed.connect with
  | mk r feed =>
      rw [hconnect] at h
      cases h
      simp only [hbuffer, if_true]

theorem attempt_of_error {k : Intake} {e : FeedError} (h : k.feed.connect.1 = .error e)
    (hfeed : isBufferSize k.feed.buffer = true) (fired : Bool) :
    k.attempt fired = (.failed e, { k with feed := k.feed.connect.2 }) := by
  unfold Intake.attempt
  rw [hfeed, Bool.or_true, if_pos rfl]
  cases hconnect : k.feed.connect with
  | mk r feed =>
      rw [hconnect] at h
      cases h
      rfl

/-- The market after an attempt to connect. -/
theorem endAttempt?_eq (hattempt : m.attempt = some a) (hline : a.line = none)
    (hdue : a.due ≤ m.now) : m.endAttempt? = some
      (match m.intake.attempt false with
      | (.opened i, intake) => { m with
          intake
          lines := m.lines ++ [⟨.create m.capacity, true⟩]
          attempt := some { a with line := some i } }
      | (.failed e, intake) =>
        ({ m with intake, attempt := none } : Market).answer a.ticket (.failed e)
      | (.crashed, intake) =>
        ({ m with intake, attempt := none } : Market).answer a.ticket .crashed) := by
  simp only [endAttempt?, hattempt, Option.bind_eq_bind, Option.bind_some, hline,
    Option.isNone_none, Bool.true_and, decide_eq_true hdue, if_true]
  rcases m.intake.attempt false with ⟨r, intake⟩
  cases r with
  | _ => rfl

/-- An attempt that makes a connection opens a line. -/
theorem endAttempt?_of_opened (hpaired : m.Paired) (hattempt : m.attempt = some a)
    (hline : a.line = none) (hdue : a.due ≤ m.now) {feed : StagedFeed} {w : Ingestor}
    (hopened : m.intake.attempt false = (.opened m.intake.ingestors.length,
      { m.intake with feed, ingestors := m.intake.ingestors ++ [w] })) :
    m.endAttempt? = some { m with
      intake := { m.intake with feed, ingestors := m.intake.ingestors ++ [w] }
      lines := m.lines ++ [⟨.create m.capacity, true⟩]
      attempt := some { a with line := some m.lines.length } } := by
  rw [endAttempt?_eq hattempt hline hdue, hopened, hpaired]

/-- An attempt that makes none fails, and changes nothing but the feed. -/
theorem endAttempt?_of_refused (hattempt : m.attempt = some a) (hline : a.line = none)
    (hdue : a.due ≤ m.now) {r : Opening} {feed : StagedFeed}
    (hrefused : m.intake.attempt false = (r, { m.intake with feed }))
    (hnot : ∀ i, r ≠ .opened i) :
    ∃ g, (∀ s, g ≠ .seated s) ∧ (∀ e, r = .failed e → g = .failed e) ∧ m.endAttempt? = some
      { m with
        intake := { m.intake with feed }
        attempt := none
        grants := m.grants.insert a.ticket g } := by
  rw [endAttempt?_eq hattempt hline hdue, hrefused]
  cases r with
  | opened i => exact absurd rfl (hnot i)
  | failed e => exact ⟨.failed e, fun s h => Grant.noConfusion h, fun e' h => by cases h; rfl, rfl⟩
  | crashed =>
      exact ⟨.crashed, fun s h => Grant.noConfusion h, fun e h => Opening.noConfusion h, rfl⟩

theorem attempt_of_endAttempt? (h : m.endAttempt? = some m') :
    ∃ a, m.attempt = some a ∧ a.line = none ∧ a.due ≤ m.now := by
  simp only [endAttempt?, Option.bind_eq_bind] at h
  rcases Option.bind_eq_some_iff.1 h with ⟨a, ha, h⟩
  split at h
  · next hdue =>
    rw [Bool.and_eq_true, Option.isNone_iff_eq_none, decide_eq_true_eq] at hdue
    exact ⟨a, ha, hdue.1, hdue.2⟩
  · exact absurd h (by simp only [reduceCtorEq, not_false_eq_true])

/-! ## The first subscriber -/

/-- Whoever had a line opened joins it, unless it has closed. -/
theorem takeSeat?_eq (hattempt : m.attempt = some a) (hline : a.line = some i) :
    m.takeSeat? = some
      (match ({ m with attempt := none } : Market).join? i with
      | some (.seated s, m) => ({ m with current := some i } : Market).answer a.ticket (.seated s)
      | some _ => (({ m with attempt := none } : Market).giveUp i).answer a.ticket .crashed
      | none => ({ m with attempt := none } : Market).answer a.ticket
          (.failed (.connect "upstream closed before first subscriber"))) := by
  simp only [takeSeat?, hattempt, hline, Option.bind_eq_bind, Option.bind_some]
  rcases ({ m with attempt := none } : Market).join? i with - | ⟨g, n⟩
  · rfl
  · cases g with
    | _ => rfl

/-- On an open line it gets its seat. If there can be no buffer for it, the line is given up. -/
theorem takeSeat?_of_open (hattempt : m.attempt = some a) (hline : a.line = some i)
    (hl : m.lines[i]? = some l) (hopen : l.bus.closed = false) :
    ∃ bus, l.bus.subscribe = some (l.bus.nextId, bus) ∧ m.takeSeat? = some
      (if l.bus.hasBuffers then { m with
        attempt := none
        lines := m.lines.modify i (fun l => { l with bus })
        current := some i
        grants := m.grants.insert a.ticket (.seated ⟨i, l.bus.nextId⟩) }
      else (({ m with attempt := none } : Market).giveUp i).answer a.ticket .crashed) := by
  rcases cases_of_join? { m with attempt := none } i with
    ⟨-, hclosed⟩ | ⟨l', bus, hl', -, hsubscribe, hjoin⟩
  · rw [hclosed l hl] at hopen
    exact absurd hopen (by simp only [Bool.true_eq_false, not_false_eq_true])
  · cases Option.some.inj (hl.symm.trans hl')
    refine ⟨bus, hsubscribe, ?_⟩
    rw [takeSeat?_eq hattempt hline, hjoin,
      changeBus_of_join (m := { m with attempt := none }) hl hsubscribe,
      hasBuffers_of_altered (Bus.altered_subscribe hsubscribe)]
    split_ifs
    · rfl
    · rfl

/-- Whoever had a line opened is seated there, or breaks off, or finds it closed. -/
theorem cases_of_takeSeat? (h : m.takeSeat? = some m') :
    ∃ a i, m.attempt = some a ∧ a.line = some i ∧
      ((∃ l bus, m.lines[i]? = some l ∧ l.bus.subscribe = some (l.bus.nextId, bus) ∧
        m' = { m with
          attempt := none
          lines := m.lines.modify i (fun l => { l with bus })
          current := some i
          grants := m.grants.insert a.ticket (.seated ⟨i, l.bus.nextId⟩) }) ∨
      m' = (({ m with attempt := none } : Market).giveUp i).answer a.ticket .crashed ∨
      ∃ e, m' = ({ m with attempt := none } : Market).answer a.ticket (.failed e)) := by
  cases hattempt : m.attempt with
  | none =>
      simp only [takeSeat?, hattempt, Option.bind_eq_bind, Option.bind_none] at h
      exact absurd h (Option.some_ne_none _).symm
  | some a =>
      cases hline : a.line with
      | none =>
          simp only [takeSeat?, hattempt, hline, Option.bind_eq_bind, Option.bind_some,
            Option.bind_none] at h
          exact absurd h (Option.some_ne_none _).symm
      | some i =>
          refine ⟨a, i, rfl, hline, ?_⟩
          rcases cases_of_join? { m with attempt := none } i with
            ⟨hnone, -⟩ | ⟨l, bus, hl, hopen, -⟩
          · rw [takeSeat?_eq hattempt hline, hnone] at h
            exact .inr (.inr ⟨_, (Option.some.inj h).symm⟩)
          · rcases takeSeat?_of_open hattempt hline hl hopen with ⟨bus', hsubscribe, hseat⟩
            rw [hseat] at h
            split at h
            · exact .inl ⟨l, bus', hl, hsubscribe, (Option.some.inj h).symm⟩
            · exact .inr (.inl (Option.some.inj h).symm)

/-! ## Steps of the outline -/

/-- A request whose turn comes while a line is open, in outline: somebody joins the line. -/
theorem step_of_active (hfit : m.Fit) (hqueued : m.Queued) (hattempt : m.attempt = none)
    (hwaiting : m.waiting = ticket :: rest) {held : List Seat} {s : Standing}
    (hopen : (m.outline held).OpenAt i s) :
    ∃ lines, m.nextTurn? = some { m with
        waiting := rest, lines, grants := m.grants.insert ticket (.seated ⟨i, s.roll.next⟩) } ∧
      ∀ m', m.nextTurn? = some m' →
        Outline.Step (m.outline held) (m'.outline (held ++ m'.seats m.asking)) ∧ m'.Fit ∧
          m'.Queued := by
  rcases exists_of_standing? hopen.line with ⟨l, w, hl, hw, rfl⟩
  rcases nextTurn?_of_active hattempt hwaiting hopen.current hl hopen.live.isOpen with
    ⟨bus, hsubscribe, hturn⟩
  -- There is room for a buffer, for somebody has been seated on this line before.
  have hbuffers : bus.hasBuffers = true :=
    (hasBuffers_of_altered (Bus.altered_subscribe hsubscribe)).trans hopen.live.seating
  rw [hbuffers, if_pos rfl] at hturn
  have hasking := asking_of_turn hattempt hwaiting
  refine ⟨_, hturn, fun m' hm' => ?_⟩
  cases Option.some.inj (hturn.symm.trans hm')
  refine ⟨?_, hfit.of_same (List.length_modify _ _ _) rfl, hqueued.of_answer hasking ?_ rfl rfl⟩
  · rw [hqueued.seats_of_seated hasking rfl]
    exact step_of_outline (.join i _ hopen.current hopen.line hopen.live.isOpen)
      (standing?_of_join hl hw hsubscribe) rfl rfl rfl rfl
  · rw [asking, hattempt]
    rfl

/-- The turn of a request, in outline: it joins the open line, or begins to open one, or fails. -/
theorem step_nextTurn? (hfit : m.Fit) (hqueued : m.Queued) {held : List Seat}
    (hsound : (m.outline held).Sound) (h : m.nextTurn? = some m') :
    Outline.Step (m.outline held) (m'.outline (held ++ m'.seats m.asking)) ∧ m'.Fit ∧
      m'.Queued := by
  rcases turn_of_nextTurn? h with ⟨ticket, rest, hattempt, hwaiting⟩
  rcases hsound with ⟨i, s, hopen⟩ | hshut
  · rcases step_of_active hfit hqueued hattempt hwaiting hopen with ⟨-, -, hstep⟩
    exact hstep m' h
  · have hasking := asking_of_turn hattempt hwaiting
    have hnone : m.isActive = false := (isActive_eq hfit.paired held).trans hshut.active
    rw [nextTurn?_of_inactive hattempt hwaiting hnone] at h
    split at h
    · cases Option.some.inj h
      refine ⟨?_, hfit.of_same rfl rfl, hqueued.of_answer hasking ?_ rfl rfl⟩
      · rw [hqueued.seats_of_unseated hasking rfl (fun _ => Grant.noConfusion), List.append_nil]
        exact .stay
      · rw [asking, show (({ m with waiting := rest } : Market).answer ticket
          (.failed .noSymbols)).attempt = none from hattempt]
        rfl
    · cases Option.some.inj h
      refine ⟨?_, hfit.of_same rfl rfl, hqueued.of_same hasking.symm rfl rfl⟩
      have hseats : ({ m with
          waiting := rest
          attempt := some ⟨ticket, m.now + m.intake.feed.delay, none⟩ } : Market).seats m.asking = [] :=
        hqueued.seats_eq_nil (fun t ht => ht) (fun t _ => rfl)
      rw [hseats, List.append_nil]
      exact .begin (turn_of_idle hattempt) hshut.active

/-- The end of an attempt, in outline: a line is opened, or none is. -/
theorem step_endAttempt? (hfit : m.Fit) (hqueued : m.Queued) (held : List Seat)
    (h : m.endAttempt? = some m') :
    Outline.Step (m.outline held) (m'.outline (held ++ m'.seats m.asking)) ∧ m'.Fit ∧
      m'.Queued := by
  rcases attempt_of_endAttempt? h with ⟨a, hattempt, hline, hdue⟩
  have hasking := asking_of_attempt hattempt
  have hturn : m.turn = .connecting := turn_of_attempt hattempt hline
  have hnew : (m.outline held).lines m.lines.length = none :=
    standing?_eq_none (List.getElem?_eq_none (Nat.le_refl _))
  rcases Chronicle.cases_of_attempt m.intake false with
    ⟨hconnect, hopened⟩ | ⟨r, feed, hrefused, hnot, -⟩
  · -- The intake has started an ingestor, whose line nobody is on.
    rw [endAttempt?_of_opened hfit.paired hattempt hline hdue hopened] at h
    cases Option.some.inj h
    refine ⟨?_, hfit.of_concat List.length_append rfl (fun hended =>
      IngestorState.noConfusion hended), hqueued.of_same hasking.symm rfl rfl⟩
    have hseats := hqueued.seats_eq_nil (fun t ht => ht) (fun t _ => rfl)
    have hfresh : Line.standing ⟨.create m.capacity, true⟩
        (.start m.intake.feed.connections.length false) =
          .fresh (isBufferSize (max m.capacity 1)) := rfl
    exact step_of_outline (.launch _ hturn hnew) (hfresh ▸ standing?_concat hfit.paired rfl rfl)
      rfl rfl rfl (hseats ▸ List.append_nil held)
  · rcases endAttempt?_of_refused hattempt hline hdue hrefused hnot with ⟨g, hunseated, -, hend⟩
    rw [hend] at h
    cases Option.some.inj h
    refine ⟨?_, hfit.of_same rfl rfl, hqueued.of_answer hasking rfl rfl rfl⟩
    rw [hqueued.seats_of_unseated hasking rfl hunseated, List.append_nil]
    exact .fail hturn

/-- While somebody is to take the first seat of a line, nobody is or was on it. So the seat is the first
one, if there can be a buffer for it. -/
theorem takeSeat?_of_sound {held : List Seat} (hsound : (m.outline held).Sound)
    (hattempt : m.attempt = some a) (hline : a.line = some i) :
    ∃ l w bus, m.lines[i]? = some l ∧ m.intake.ingestors[i]? = some w ∧
      l.standing w = .fresh (isBufferSize (max m.capacity 1)) ∧ l.bus.subscribe = some (0, bus) ∧
      m.takeSeat? = some
        (if isBufferSize (max m.capacity 1) then { m with
          attempt := none
          lines := m.lines.modify i (fun l => { l with bus })
          current := some i
          grants := m.grants.insert a.ticket (.seated ⟨i, 0⟩) }
        else (({ m with attempt := none } : Market).giveUp i).answer a.ticket .crashed) := by
  have hturn : (m.outline held).turn = .opened i := turn_of_line hattempt hline
  have hshut := hsound.shut_of_turn (by rw [hturn]; exact Turn.noConfusion)
  rcases exists_of_standing? (hshut.opened i hturn) with ⟨l, w, hl, hw, heq⟩
  have hfresh : l.standing w = .fresh (isBufferSize (max m.capacity 1)) := heq.symm
  rcases takeSeat?_of_open hattempt hline hl (congrArg (·.roll.closed) hfresh) with
    ⟨bus, hsubscribe, hseat⟩
  have hid : l.bus.nextId = 0 := congrArg (·.roll.next) hfresh
  have hroom : l.bus.hasBuffers = isBufferSize (max m.capacity 1) := congrArg (·.seating) hfresh
  rw [hid] at hsubscribe hseat
  rw [hroom] at hseat
  exact ⟨l, w, bus, hl, hw, hfresh, hsubscribe, hseat⟩

/-- The first subscriber of a line gets its seat, in outline, or the line is given up. -/
theorem step_takeSeat? (hfit : m.Fit) (hqueued : m.Queued) {held : List Seat}
    (hsound : (m.outline held).Sound) (h : m.takeSeat? = some m') :
    Outline.Step (m.outline held) (m'.outline (held ++ m'.seats m.asking)) ∧ m'.Fit ∧
      m'.Queued := by
  rcases cases_of_takeSeat? h with ⟨a, i, hattempt, hline, -⟩
  have hasking := asking_of_attempt hattempt
  have hturn : m.turn = .opened i := turn_of_line hattempt hline
  rcases takeSeat?_of_sound hsound hattempt hline with
    ⟨l, w, bus, hl, hw, hfresh, hsubscribe, hseat⟩
  rw [hseat] at h
  split at h
  · next hbuffers =>
    cases Option.some.inj h
    refine ⟨?_, hfit.of_same (List.length_modify _ _ _) rfl, hqueued.of_answer hasking rfl rfl rfl⟩
    have hfirst : (l.standing w).join = .first := by
      rw [hfresh, hbuffers]
      rfl
    rw [hqueued.seats_of_seated hasking rfl]
    exact step_of_outline (.seat i hturn) (hfirst ▸ standing?_of_join hl hw hsubscribe) rfl rfl rfl rfl
  · next hbuffers =>
    cases Option.some.inj h
    refine ⟨?_, hfit.of_set (List.length_modify _ _ _)
      (congrArg Intake.ingestors (Chronicle.change_eq_set hw _)) (fun _ => rfl),
      hqueued.of_answer hasking rfl rfl rfl⟩
    have hvain : { l.standing w with dispatching := false, stopped := true, consumed := false } =
        Standing.vain := by
      rw [hfresh, eq_false_of_ne_true hbuffers]
      rfl
    rw [hqueued.seats_of_unseated hasking rfl (fun _ => Grant.noConfusion), List.append_nil]
    exact step_of_outline (.drop i hturn) (hvain ▸ standing?_giveUp hl hw) rfl rfl rfl rfl

end Market

end Bourse
