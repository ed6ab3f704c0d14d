import Bourse.Proofs.Market.Changes
import Bourse.Proofs.Market.Requests

/-!
# Sharing One Stream

A line is in use while somebody listens, and only then. However subscribers come and go,
however the attempts of those who open a line end, and whatever the feed and the
ingestors do meanwhile, the line in use is open if and only if somebody is on it, the
number shown is that of the subscriptions held, and once all that can be done without
time passing has been done, one ingestor goes on if there is a line and none if there is
not. A line is opened only for a request that finds none, and if that fails nothing is
left behind.

The numbers of subscriptions start again on every line. Giving one up on an old line
still does nothing to the line in use.

## Main definitions

* `Session.Kept`: what is true of every session.
* `Session.Serves`: what everybody may count on.

## Theorems

* `kept_of_step?`, `kept_of_run?`: sessions stay as they should be.
* `serves_of_run`: what everybody may count on after any run.
-/

namespace Bourse

/-- An ingestor at rest that has been told to stop has done so. -/
theorem Ingestor.terminated_of_rest {s : IngestorSettings} {now : Nat} {f : StagedFeed}
    {w : Ingestor} (hstopped : w.stopped = true) (hrest : w.step? s now f = none) :
    w.state = .terminated := by
  have hunwanted : w.isUnwanted = true := by rw [isUnwanted, hstopped, Bool.true_or]
  unfold state
  cases hphase : w.phase with
  | terminated => rfl
  | _ =>
      simp only [step?, hphase, hunwanted, hstopped, if_true, reduceCtorEq] at hrest

/-- A list with one member of a kind has one member of it. -/
theorem countP_eq_one {α : Type} {p : α → Bool} {l : List α} {i : Nat} {a : α}
    (ha : l[i]? = some a) (hp : p a = true)
    (hother : ∀ j b, j ≠ i → l[j]? = some b → p b = false) : l.countP p = 1 := by
  induction l generalizing i with
  | nil => exact absurd ha.symm (Option.some_ne_none a)
  | cons x xs ih =>
      cases i with
      | zero =>
          have hx : p x = true := Option.some.inj ha ▸ hp
          have hxs : xs.countP p = 0 := by
            refine List.countP_eq_zero.2 fun b hb hpb => ?_
            rcases List.mem_iff_getElem?.1 hb with ⟨j, hj⟩
            rw [hother (j + 1) b (Nat.succ_ne_zero j) hj] at hpb
            exact absurd hpb Bool.false_ne_true
          rw [List.countP_cons_of_pos hx, hxs]
      | succ i =>
          have hx := hother 0 x (Nat.succ_ne_zero i).symm rfl
          rw [List.countP_cons_of_neg (by rw [hx]; exact Bool.false_ne_true)]
          exact ih ha fun j b hj hb => hother (j + 1) b (fun heq => hj (Nat.succ.inj heq)) hb

namespace Market

variable {m m' : Market} {i : Nat}

/-- In a market at rest no ingestor can take a step. -/
theorem rest_of_step? {w : Ingestor} (hrest : m.step? = none)
    (hw : m.intake.ingestors[i]? = some w) :
    w.step? m.intake.settings m.intake.now m.intake.feed = none := by
  have hintake : m.intake.step? = none := by
    cases hstep : m.intake.step? with
    | none => rfl
    | some intake =>
        simp only [step?, Option.orElse_eq_none, hstep, Option.map_some, reduceCtorEq, false_and,
          and_false] at hrest
  rw [Intake.step?, List.findSome?_eq_none_iff] at hintake
  exact Chronicle.rest_of_stepAt? hw
    (hintake i (List.mem_range.2 (List.getElem?_eq_some_iff.1 hw).1))

theorem length_changeBus (m : Market) (i : Nat) (f : Bus → Bus) :
    (m.changeBus i f).intake.ingestors.length = m.intake.ingestors.length := by
  unfold changeBus
  simp only []
  split
  · exact List.length_modify _ _ _
  · rfl

theorem length_receive (m : Market) (s : Seat) :
    (m.receive s).2.intake.ingestors.length = m.intake.ingestors.length := by
  unfold receive
  split
  · rfl
  · rfl

theorem Change.length (h : m.Change m') :
    m'.intake.ingestors.length = m.intake.ingestors.length := by
  cases h with
  | bus i f => exact length_changeBus m i f
  | ended i => exact List.length_modify _ _ _
  | read s => exact length_receive m s
  | ingestor i w => exact List.length_set
  | _ => rfl

/-- Only the end of an attempt starts an ingestor. -/
theorem length_act? {a : Action} (hfit : m.Fit) (ha : a ≠ .endAttempt)
    (h : m.act? a = some m') : m'.intake.ingestors.length = m.intake.ingestors.length := by
  cases a with
  | nextTurn => rw [intake_of_nextTurn? h]
  | endAttempt => exact absurd rfl ha
  | takeSeat =>
      rcases cases_of_takeSeat? h with ⟨a, i, -, -, ⟨l, bus, -, -, rfl⟩ | rfl | ⟨e, rfl⟩⟩
      · rfl
      · exact List.length_modify _ _ _
      · rfl
  | request =>
      cases Option.some.inj h
      rfl
  | _ =>
      exact keeps_act? (P := fun n => n.intake.ingestors.length = m.intake.ingestors.length)
        hfit.paired rfl Action.noConfusion h rfl (fun _ _ hn hchange => hchange.length.trans hn)

/-- Leaving another line does nothing to the line in use. -/
theorem leave_of_ne {s : Seat} (h : m.current ≠ some s.line) :
    (m.leave s).current = m.current ∧ (m.leave s).currentBus? = m.currentBus? ∧
      ∀ i, m.current = some i → (m.leave s).intake.ingestors[i]? = m.intake.ingestors[i]? := by
  cases hl : m.lines[s.line]? with
  | none =>
      rw [leave, changeBus_of_none hl]
      exact ⟨rfl, rfl, fun _ _ => rfl⟩
  | some l =>
      rw [leave, changeBus_eq hl]
      refine ⟨rfl, ?_, fun i hi => ?_⟩
      · unfold currentBus?
        refine Option.bind_congr fun i hi => ?_
        rw [List.getElem?_modify_ne _ _ (fun heq : s.line = i => h (heq ▸ hi))]
      · simp only []
        split
        · exact List.getElem?_modify_ne _ _ (fun heq : s.line = i => h (heq ▸ hi))
        · rfl

end Market

namespace Session

open Market (Action)

variable {x x' : Session}

/-- What is true of every session. -/
structure Kept (x : Session) : Prop where
  fit : x.market.Fit
  queued : x.market.Queued
  sound : (x.market.outline x.held).Sound

theorem kept_opened (settings : IngestorSettings) (buffer delay failures capacity : Nat) :
    (opened settings buffer delay failures capacity).Kept :=
  ⟨⟨rfl, fun _ hw => absurd hw List.not_mem_nil⟩,
    ⟨List.nodup_nil, fun _ ht => absurd ht List.not_mem_nil, fun _ _ => rfl⟩,
    Or.inr ⟨rfl, fun i hi => absurd hi.symm (Option.some_ne_none i),
      fun _ hi => Turn.noConfusion hi, fun _ s _ hs => absurd hs.symm (Option.some_ne_none s)⟩⟩

/-- A session stays as it should be by what leaves the requests alone. -/
theorem Kept.of_sameDesk {m : Market} {held : List Seat} (h : x.Kept) (hfit : m.Fit)
    (hdesk : x.market.SameDesk m)
    (hstep : Outline.Step (x.market.outline x.held) (m.outline held)) : Kept ⟨m, held⟩ :=
  ⟨hfit, hdesk.queued h.queued, Outline.sound_of_step h.sound hstep⟩

/-- The cache gives a subscription up at its end, and only then. -/
theorem Kept.of_feed? {m : Market} (h : x.Kept) {s : Seat} (hfeed : x.market.feed? s = some m) :
    Kept ⟨m, x.heldAfter m (.feed s)⟩ := by
  have hfit := h.fit.receive s
  have hdesk := Market.sameDesk_receive x.market s
  have hstanding := Market.standing?_receive x.market s
  have hcases := Market.cases_of_feed? hfeed
  generalize (x.market.receive s).2 = m₁ at hfit hdesk hstanding hcases
  unfold heldAfter
  rcases hcases with ⟨q, hitem, rfl⟩ | ⟨hended, rfl⟩
  · simp only [hitem, reduceCtorEq, if_false]
    have hcached : x.market.SameDesk { m₁ with cache := m₁.cache.update m₁.now q } :=
      hdesk.trans (Market.sameDesk_cache m₁ _ _)
    exact h.of_sameDesk (hfit.of_same rfl rfl) hcached (hcached.stay hstanding x.held)
  · simp only [hended, if_true]
    have hfewer : x.market.SameDesk { m₁ with feeders := m₁.feeders.filter (fun t => t ≠ s) } :=
      hdesk.trans (Market.sameDesk_cache m₁ _ _)
    have hfit' : ({ m₁ with feeders := m₁.feeders.filter (fun t => t ≠ s) } : Market).Fit :=
      hfit.of_same rfl rfl
    have hstep := Market.step_leave hfit' s x.held
    rw [hfewer.outline_of_standing hstanding] at hstep
    exact h.of_sameDesk (hfit'.leave s) (hfewer.trans (Market.sameDesk_leave _ s)) hstep

/-- Every step leaves a session as it should be. -/
theorem kept_of_step? {a : Action} (h : x.Kept) (hstep : x.step? a = some x') : x'.Kept := by
  rcases Option.map_eq_some_iff.1 hstep with ⟨m, hm, rfl⟩
  cases a with
  | request =>
      cases Option.some.inj hm
      exact ⟨h.fit.of_same rfl rfl, h.queued.of_request, h.sound⟩
  | nextTurn =>
      rcases Market.step_nextTurn? h.fit h.queued h.sound hm with ⟨hstep, hfit, hqueued⟩
      exact ⟨hfit, hqueued, Outline.sound_of_step h.sound hstep⟩
  | endAttempt =>
      rcases Market.step_endAttempt? h.fit h.queued x.held hm with ⟨hstep, hfit, hqueued⟩
      exact ⟨hfit, hqueued, Outline.sound_of_step h.sound hstep⟩
  | takeSeat =>
      rcases Market.step_takeSeat? h.fit h.queued h.sound hm with ⟨hstep, hfit, hqueued⟩
      exact ⟨hfit, hqueued, Outline.sound_of_step h.sound hstep⟩
  | leave s =>
      cases Option.some.inj hm
      exact h.of_sameDesk (h.fit.leave s) (Market.sameDesk_leave x.market s)
        (Market.step_leave h.fit s x.held)
  | receive s =>
      cases Option.some.inj hm
      have hdesk := Market.sameDesk_receive x.market s
      exact h.of_sameDesk (h.fit.receive s) hdesk
        (hdesk.stay (Market.standing?_receive x.market s) x.held)
  | addFeeder s =>
      cases Option.some.inj hm
      exact h.of_sameDesk (h.fit.of_same rfl rfl) ⟨_, _, _, _, rfl⟩ .stay
  | feed s =>
      simp only [Market.act?] at hm
      split at hm
      · exact h.of_feed? hm
      · exact absurd hm (by simp only [reduceCtorEq, not_false_eq_true])
  | dispatch i =>
      rcases Market.step_dispatchAt? h.fit hm x.held with ⟨hstep, hfit, hdesk⟩
      exact h.of_sameDesk hfit hdesk hstep
  | spill i =>
      rcases Market.spillAt?_eq_some hm with ⟨-, w, -, rest, -, -, hw, -, rfl⟩
      rcases h.fit.taken hw rest with ⟨hfit, hstanding⟩
      have hdesk : x.market.SameDesk (x.market.setIngestor i { w with output := rest }) :=
        ⟨_, _, _, _, rfl⟩
      exact h.of_sameDesk hfit hdesk (hdesk.stay hstanding x.held)
  | turn i branch =>
      rcases Option.map_eq_some_iff.1 hm with ⟨intake, hturn, rfl⟩
      rcases h.fit.turnAt? hturn with ⟨hfit, hstanding⟩
      have hdesk : x.market.SameDesk { x.market with intake } := ⟨_, _, _, _, rfl⟩
      exact h.of_sameDesk hfit hdesk (hdesk.stay hstanding x.held)
  | tend t =>
      cases Option.some.inj hm
      exact h.of_sameDesk (h.fit.of_same rfl rfl) ⟨_, _, _, _, rfl⟩ .stay
  | wait ms =>
      cases Option.some.inj hm
      exact h.of_sameDesk (h.fit.of_same rfl rfl) ⟨_, _, _, _, rfl⟩ .stay

/-- Every run leaves a session as it should be. -/
theorem kept_of_run? {actions : List Action} (h : x.Kept) (hrun : x.run? actions = some x') :
    x'.Kept := by
  induction actions generalizing x with
  | nil =>
      rw [← Option.some.inj hrun]
      exact h
  | cons a rest ih =>
      rw [run?] at hrun
      split at hrun
      · next next hnext => exact ih (kept_of_step? h hnext) hrun
      · exact absurd hrun (by simp only [reduceCtorEq, not_false_eq_true])

/-! ## What everybody may count on -/

/-- What everybody may count on. -/
structure Serves (x : Session) : Prop where
  /-- There is an open line while somebody is on it. -/
  active_iff : x.market.isActive = true ↔ 1 ≤ x.market.count
  count_eq : x.market.count = x.held.length
  nodup : x.held.Nodup
  /-- One ingestor goes on if there is an open line, and none if there is not. -/
  workers : x.market.attempt = none → x.market.step? = none →
    x.market.intake.ingestors.countP (fun w => w.state ≠ .terminated) =
      if x.market.isActive then 1 else 0
  /-- A request that finds an open line is seated on it, and nothing is opened. -/
  joins : ∀ ticket rest, x.market.attempt = none → x.market.waiting = ticket :: rest →
    x.market.isActive = true → ∃ x' i id, x.step? .nextTurn = some x' ∧
      x.market.current = some i ∧ x'.market.grant? ticket = some (.seated ⟨i, id⟩) ∧
      x'.held = x.held ++ [⟨i, id⟩] ∧ x'.market.intake = x.market.intake
  /-- A request that finds none begins to open one, unless there is nothing to ask the feed for. -/
  begins : ∀ ticket rest, x.market.attempt = none → x.market.waiting = ticket :: rest →
    x.market.isActive = false → ∃ x', x.step? .nextTurn = some x' ∧ x'.held = x.held ∧
      if x.market.intake.settings.symbols.isEmpty then
        x'.market = ({ x.market with waiting := rest } : Market).answer ticket (.failed .noSymbols)
      else x'.market = { x.market with
        waiting := rest
        attempt := some ⟨ticket, x.market.now + x.market.intake.feed.delay, none⟩ }
  /-- Where a connection is made, a line is opened, and nobody is on it yet. -/
  opens : ∀ a c, x.market.attempt = some a → a.line = none → a.due ≤ x.market.now →
    x.market.intake.feed.connect.1 = .ok c → isBufferSize x.market.intake.feed.buffer = true →
    isBufferSize x.market.intake.settings.buffer = true → ∃ x', x.step? .endAttempt = some x' ∧
      x'.market.attempt = some { a with line := some x.market.lines.length } ∧
      x'.held = x.held ∧ x'.market.isActive = false ∧
      x'.market.intake.ingestors = x.market.intake.ingestors ++ [.start c false]
  /-- Nothing else that happens meanwhile ends the turn of the request, -/
  keeps : ∀ a i b x', x.market.attempt = some a → a.line = some i → b ≠ .takeSeat →
    x.step? b = some x' → x'.market.attempt = some a
  /-- which is the first one on the line. -/
  seats : ∀ a i, x.market.attempt = some a → a.line = some i →
    isBufferSize (max x.market.capacity 1) = true → ∃ x', x.step? .takeSeat = some x' ∧
      x'.market.grant? a.ticket = some (.seated ⟨i, 0⟩) ∧ x'.held = [⟨i, 0⟩] ∧
      x'.market.current = some i ∧ x'.market.isActive = true ∧ x'.market.attempt = none ∧
      x'.market.intake = x.market.intake
  /-- Where none is made, the request fails, and nothing else has changed but the feed. -/
  fails : ∀ a e, x.market.attempt = some a → a.line = none → a.due ≤ x.market.now →
    x.market.intake.feed.connect.1 = .error e → isBufferSize x.market.intake.feed.buffer = true →
    ∃ x', x.step? .endAttempt = some x' ∧ x'.held = x.held ∧ x'.market.isActive = false ∧
      x'.market = { x.market with
        intake := { x.market.intake with feed := x.market.intake.feed.connect.2 }
        attempt := none
        grants := x.market.grants.insert a.ticket (.failed e) }
  /-- Nothing else starts an ingestor, and it is not done while a line is open. -/
  only : ∀ a x', x.step? a = some x' →
    x'.market.intake.ingestors.length ≠ x.market.intake.ingestors.length →
      a = .endAttempt ∧ x.market.isActive = false
  /-- Giving up a subscription on another line does nothing to the line in use. -/
  leaves : ∀ s, x.market.current ≠ some s.line →
    (x.market.leave s).currentBus? = x.market.currentBus? ∧
    (x.market.leave s).isActive = x.market.isActive ∧
    (x.market.leave s).count = x.market.count ∧
    ∀ i, x.market.current = some i →
      (x.market.leave s).intake.ingestors[i]? = x.market.intake.ingestors[i]?

/-- An ingestor whose line is over has stopped for good in a market at rest. -/
theorem Kept.terminated_of_idle (h : x.Kept) (hrest : x.market.step? = none) {j : Nat}
    {v : Ingestor} (hv : x.market.intake.ingestors[j]? = some v)
    (hidle : ∀ s, x.market.standing? j = some s → s.Idle) : v.state = .terminated := by
  have hlt : j < x.market.lines.length := by
    rw [h.fit.paired]
    exact (List.getElem?_eq_some_iff.1 hv).1
  have hstopped := (hidle _ (Market.standing?_eq (List.getElem?_eq_getElem hlt) hv)).stopped
  exact Ingestor.terminated_of_rest hstopped (Market.rest_of_step? hrest hv)

/-- One ingestor goes on while a line is open, and none otherwise. -/
theorem Kept.workers (h : x.Kept) (hattempt : x.market.attempt = none)
    (hrest : x.market.step? = none) :
    x.market.intake.ingestors.countP (fun w => w.state ≠ .terminated) =
      if x.market.isActive then 1 else 0 := by
  rw [Market.isActive_eq h.fit.paired x.held]
  rcases h.sound with ⟨i, s, hopen⟩ | hshut
  · -- The ingestor of the open line is wanted; all others were told to stop and have done so.
    rcases Market.exists_of_standing? hopen.line with ⟨l, w, -, hw, rfl⟩
    have hgoing : w.state ≠ .terminated := fun hended => by
      have hunwanted := h.fit.ended w (List.mem_of_getElem? hw) hended
      have hstopped : w.stopped = false := hopen.live.wanted
      have hconsumed : w.consumed = true := hopen.live.consumed
      rw [Ingestor.isUnwanted, hstopped, hconsumed] at hunwanted
      exact absurd hunwanted (by decide)
    rw [hopen.active, if_pos rfl]
    refine countP_eq_one hw (decide_eq_true hgoing) fun j v hj hv => decide_eq_false ?_
    exact not_not_intro (h.terminated_of_idle hrest hv fun t ht => hopen.others j t hj ht)
  · rw [hshut.active, if_neg Bool.false_ne_true, List.countP_eq_zero]
    intro v hv
    rcases List.mem_iff_getElem?.1 hv with ⟨j, hj⟩
    have hturn : (x.market.outline x.held).turn ≠ .opened j := by
      rw [show (x.market.outline x.held).turn = .free from Market.turn_of_idle hattempt]
      exact Turn.noConfusion
    rw [decide_eq_true_eq]
    exact not_not_intro (h.terminated_of_idle hrest hj fun t ht => hshut.lines j t hturn ht)

/-- The number shown is that of the subscriptions held, and there is an open line while it is not
zero. -/
theorem Kept.counted (h : x.Kept) :
    (x.market.isActive = true ↔ 1 ≤ x.market.count) ∧ x.market.count = x.held.length ∧
      x.held.Nodup := by
  rw [Market.isActive_eq h.fit.paired x.held]
  rcases h.sound with ⟨i, s, hopen⟩ | hshut
  · have hheld : x.held = s.roll.here.map (Seat.mk i) := hopen.held
    have hcount : x.market.count = s.roll.here.length := Market.count_eq hopen.current hopen.line
    refine ⟨⟨fun _ => ?_, fun _ => hopen.active⟩, ?_, ?_⟩
    · rw [hcount]
      exact List.length_pos_iff.2 hopen.live.attended
    · rw [hcount, hheld, List.length_map]
    · rw [hheld]
      exact hopen.live.sound.nodup.map fun a b hab => (Seat.mk.inj hab).2
  · have hheld : x.held = [] := hshut.held
    have hcount : x.market.count = 0 := by
      cases hcurrent : x.market.current with
      | none => exact Market.count_of_none hcurrent
      | some i =>
          rcases hshut.current i hcurrent with ⟨s, hs, -⟩
          have hs' : x.market.standing? i = some s := hs
          rw [Market.count_eq hcurrent hs', 
            (hshut.lines i s (hshut.ne_opened hcurrent) hs).left, List.length_nil]
    refine ⟨⟨fun hactive => ?_, fun hpos => ?_⟩, ?_, ?_⟩
    · rw [hshut.active] at hactive
      exact absurd hactive Bool.false_ne_true
    · rw [hcount] at hpos
      exact absurd hpos (by decide)
    · rw [hcount, hheld, List.length_nil]
    · rw [hheld]
      exact List.nodup_nil

theorem Kept.joins (h : x.Kept) {ticket : Nat} {rest : List Nat}
    (hattempt : x.market.attempt = none) (hwaiting : x.market.waiting = ticket :: rest)
    (hactive : x.market.isActive = true) : ∃ x' i id, x.step? .nextTurn = some x' ∧
      x.market.current = some i ∧ x'.market.grant? ticket = some (.seated ⟨i, id⟩) ∧
      x'.held = x.held ++ [⟨i, id⟩] ∧ x'.market.intake = x.market.intake := by
  rw [Market.isActive_eq h.fit.paired x.held] at hactive
  rcases h.sound with ⟨i, s, hopen⟩ | hshut
  · rcases Market.step_of_active h.fit h.queued hattempt hwaiting hopen with ⟨lines, hturn, -⟩
    refine ⟨⟨_, _⟩, i, s.roll.next, congrArg (Option.map _) hturn, hopen.current, ?_, ?_, rfl⟩
    · rw [Market.grant?_of_answer rfl, if_pos rfl]
    · exact congrArg _ (h.queued.seats_of_seated (Market.asking_of_turn hattempt hwaiting) rfl)
  · rw [hshut.active] at hactive
    exact absurd hactive Bool.false_ne_true

theorem Kept.begins (h : x.Kept) {ticket : Nat} {rest : List Nat}
    (hattempt : x.market.attempt = none) (hwaiting : x.market.waiting = ticket :: rest)
    (hnone : x.market.isActive = false) : ∃ x', x.step? .nextTurn = some x' ∧ x'.held = x.held ∧
      if x.market.intake.settings.symbols.isEmpty then
        x'.market = ({ x.market with waiting := rest } : Market).answer ticket (.failed .noSymbols)
      else x'.market = { x.market with
        waiting := rest
        attempt := some ⟨ticket, x.market.now + x.market.intake.feed.delay, none⟩ } := by
  have hturn := Market.nextTurn?_of_inactive hattempt hwaiting hnone
  refine ⟨⟨_, _⟩, congrArg (Option.map _) hturn, ?_, ?_⟩
  · split
    · exact (congrArg _ (h.queued.seats_of_unseated (Market.asking_of_turn hattempt hwaiting) rfl
        (fun _ => Grant.noConfusion))).trans (List.append_nil _)
    · exact (congrArg _ (h.queued.seats_eq_nil (fun t ht => ht) (fun t _ => rfl))).trans
        (List.append_nil _)
  · split
    · rfl
    · rfl

theorem Kept.isActive_of_turn (h : x.Kept) {a : LineAttempt}
    (hattempt : x.market.attempt = some a) : x.market.isActive = false := by
  have hturn : (x.market.outline x.held).turn ≠ .free := by
    cases hline : a.line with
    | none => exact (Market.turn_of_attempt hattempt hline).trans_ne Turn.noConfusion
    | some i => exact (Market.turn_of_line hattempt hline).trans_ne Turn.noConfusion
  exact (Market.isActive_eq h.fit.paired x.held).trans (h.sound.shut_of_turn hturn).active

theorem Kept.opens (h : x.Kept) {a : LineAttempt} {c : Nat}
    (hattempt : x.market.attempt = some a) (hline : a.line = none) (hdue : a.due ≤ x.market.now)
    (hconnect : x.market.intake.feed.connect.1 = .ok c)
    (hfeed : isBufferSize x.market.intake.feed.buffer = true)
    (hbuffer : isBufferSize x.market.intake.settings.buffer = true) :
    ∃ x', x.step? .endAttempt = some x' ∧
      x'.market.attempt = some { a with line := some x.market.lines.length } ∧
      x'.held = x.held ∧ x'.market.isActive = false ∧
      x'.market.intake.ingestors = x.market.intake.ingestors ++ [.start c false] := by
  have hend := Market.endAttempt?_of_opened h.fit.paired hattempt hline hdue
    (Market.attempt_of_ok hconnect hfeed hbuffer false)
  have hstep : x.step? .endAttempt = some ⟨_, _⟩ := congrArg (Option.map _) hend
  have hkept := kept_of_step? h hstep
  refine ⟨_, hstep, rfl, ?_, hkept.isActive_of_turn rfl, rfl⟩
  exact (congrArg _ (h.queued.seats_eq_nil (fun t ht => ht) (fun t _ => rfl))).trans
    (List.append_nil _)

theorem Kept.keeps (h : x.Kept) {a : LineAttempt} {i : Nat} {b : Action} {x' : Session}
    (hattempt : x.market.attempt = some a) (hline : a.line = some i) (hb : b ≠ .takeSeat)
    (hstep : x.step? b = some x') : x'.market.attempt = some a := by
  rcases Option.map_eq_some_iff.1 hstep with ⟨m, hact, rfl⟩
  cases b with
  | request =>
      cases Option.some.inj hact
      exact hattempt
  | nextTurn =>
      rcases Market.turn_of_nextTurn? hact with ⟨-, -, hidle, -⟩
      exact absurd (hidle.symm.trans hattempt) (Option.some_ne_none a).symm
  | endAttempt =>
      rcases Market.attempt_of_endAttempt? hact with ⟨a', hattempt', hnone, -⟩
      cases Option.some.inj (hattempt.symm.trans hattempt')
      exact absurd (hnone.symm.trans hline) (Option.some_ne_none i).symm
  | takeSeat => exact absurd rfl hb
  | _ =>
      rcases Market.sameDesk_act? h.fit.paired rfl Market.Action.noConfusion hact with
        ⟨_, _, _, _, rfl⟩
      exact hattempt

theorem Kept.seats (h : x.Kept) {a : LineAttempt} {i : Nat}
    (hattempt : x.market.attempt = some a) (hline : a.line = some i)
    (hroom : isBufferSize (max x.market.capacity 1) = true) :
    ∃ x', x.step? .takeSeat = some x' ∧
      x'.market.grant? a.ticket = some (.seated ⟨i, 0⟩) ∧ x'.held = [⟨i, 0⟩] ∧
      x'.market.current = some i ∧ x'.market.isActive = true ∧ x'.market.attempt = none ∧
      x'.market.intake = x.market.intake := by
  rcases Market.takeSeat?_of_sound h.sound hattempt hline with
    ⟨l, w, bus, hl, -, -, hsubscribe, hseat⟩
  rw [if_pos hroom] at hseat
  have hnobody : x.held = [] :=
    (h.sound.shut_of_turn ((Market.turn_of_line hattempt hline).trans_ne Turn.noConfusion)).held
  refine ⟨⟨_, _⟩, congrArg (Option.map _) hseat, ?_, ?_, rfl, ?_, rfl, rfl⟩
  · rw [Market.grant?_of_answer rfl, if_pos rfl]
  · exact (congrArg _ (h.queued.seats_of_seated (Market.asking_of_attempt hattempt) rfl)).trans
      (by rw [hnobody]; rfl)
  · have hl' : (x.market.lines.modify i (fun l => { l with bus }))[i]? = some { l with bus } := by
      rw [List.getElem?_modify_eq, hl]
      rfl
    rw [Market.isActive_of_open rfl hl', Market.closed_of_subscribe hsubscribe]
    rfl

theorem Kept.fails (h : x.Kept) {a : LineAttempt} {e : FeedError}
    (hattempt : x.market.attempt = some a) (hline : a.line = none) (hdue : a.due ≤ x.market.now)
    (hconnect : x.market.intake.feed.connect.1 = .error e)
    (hfeed : isBufferSize x.market.intake.feed.buffer = true) :
    ∃ x', x.step? .endAttempt = some x' ∧ x'.held = x.held ∧ x'.market.isActive = false ∧
      x'.market = { x.market with
        intake := { x.market.intake with feed := x.market.intake.feed.connect.2 }
        attempt := none
        grants := x.market.grants.insert a.ticket (.failed e) } := by
  rcases Market.endAttempt?_of_refused hattempt hline hdue
    (Market.attempt_of_error hconnect hfeed false) (fun _ => Opening.noConfusion) with
    ⟨g, -, hg, hend⟩
  rw [hg e rfl] at hend
  refine ⟨⟨_, _⟩, congrArg (Option.map _) hend, ?_, h.isActive_of_turn hattempt, rfl⟩
  exact (congrArg _ (h.queued.seats_of_unseated (Market.asking_of_attempt hattempt) rfl
    (fun _ => Grant.noConfusion))).trans (List.append_nil _)

/-- What everybody may count on after any run. -/
theorem serves_of_run {settings : IngestorSettings} {buffer delay failures capacity : Nat}
    {actions : List Action}
    (h : (opened settings buffer delay failures capacity).run? actions = some x) : x.Serves := by
  have hkept := kept_of_run? (kept_opened settings buffer delay failures capacity) h
  rcases hkept.counted with ⟨hactive, hcount, hnodup⟩
  refine ⟨hactive, hcount, hnodup, hkept.workers, fun _ _ => hkept.joins,
    fun _ _ => hkept.begins, fun _ _ => hkept.opens, fun _ _ _ _ => hkept.keeps,
    fun _ _ => hkept.seats, fun _ _ => hkept.fails,
    fun a x' hstep hlength => ?_, fun s hne => ?_⟩
  · -- While an attempt is under way no line is open, so its end opens none beside another.
    rcases Option.map_eq_some_iff.1 hstep with ⟨m, hm, rfl⟩
    have ha : a = .endAttempt := by
      by_contra hnot
      exact hlength (Market.length_act? hkept.fit hnot hm)
    subst ha
    rcases Market.attempt_of_endAttempt? hm with ⟨attempt, hattempt, -⟩
    exact ⟨rfl, hkept.isActive_of_turn hattempt⟩
  · rcases Market.leave_of_ne hne with ⟨-, hbus, hingestor⟩
    refine ⟨hbus, ?_, ?_, hingestor⟩
    · rw [Market.isActive, Market.isActive, hbus]
    · rw [Market.count, Market.count, hbus]

/-- An attempt that fails, one that opens a line for two who leave it again, and one that opens the
next line. A tick comes in on the first line before anybody is there. -/
def reopening : List Action :=
  [.request, .nextTurn, .endAttempt, .request, .nextTurn, .endAttempt, .tend .accept,
    .tend (.send 0 ⟨"BTC", "30000", ⟨0, 0⟩⟩), .turn 0 .goOn, .turn 0 .goOn, .dispatch 0,
    .takeSeat, .request, .nextTurn, .leave ⟨0, 0⟩, .leave ⟨0, 1⟩, .dispatch 0, .turn 0 .stop,
    .request, .nextTurn, .endAttempt, .takeSeat]

/-- Of the two ingestors one goes on, and leaving the old line under the number that is held on the
new one changes nothing there. -/
theorem serves_of_run_reopening :
    ∃ x, (opened ⟨["BTC"], 5, 2⟩ 4 0 1 16).run? reopening = some x ∧ x.held = [⟨1, 0⟩] ∧
      x.market.count = 1 ∧ x.market.intake.ingestors.length = 2 ∧
      x.market.intake.ingestors.countP (fun w => w.state ≠ .terminated) = 1 ∧
      (x.market.leave ⟨0, 0⟩).count = 1 := by
  obtain ⟨x, hrun, hattempt, hrest, hactive, hheld, hcurrent, hlength⟩ : ∃ x,
      (opened ⟨["BTC"], 5, 2⟩ 4 0 1 16).run? reopening = some x ∧ x.market.attempt = none ∧
      x.market.step? = none ∧ x.market.isActive = true ∧ x.held = [⟨1, 0⟩] ∧
      x.market.current = some 1 ∧ x.market.intake.ingestors.length = 2 :=
    ⟨_, rfl, rfl, rfl, rfl, rfl, rfl, rfl⟩
  have hserves := serves_of_run hrun
  have hcount : x.market.count = 1 := by rw [hserves.count_eq, hheld, List.length_singleton]
  have hworkers := hserves.workers hattempt hrest
  rw [hactive, if_pos rfl] at hworkers
  have hleave := (hserves.leaves ⟨0, 0⟩ (by rw [hcurrent]; decide)).2.2.1
  exact ⟨x, hrun, hheld, hcount, hlength, hworkers, hleave.trans hcount⟩

end Session

end Bourse
