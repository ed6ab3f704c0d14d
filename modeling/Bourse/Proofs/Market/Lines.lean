import Bourse.Proofs.Intake.Chronicle
import Bourse.Proofs.Market.Outline

/-!
# The Lines of a Market

What each operation of a market does to its lines, said in terms of their standing. A
line and its ingestor have the same number and are changed together, so the standing of a
line is read off both. Quotes that come and go leave it as it was.

## Main definitions

* `Line.standing`, `Market.standing?`: the standing of a line.
* `Market.outline`: the outline of a market.
* `Market.Paired`: every line has its ingestor.

## Theorems

* `standing?_changeBus`, `standing?_endDispatch`, `standing?_giveUp`, `standing?_concat`: the
  standings after an operation.
* `cases_of_join?`, `cases_of_dispatchAt?`: what the larger operations come to.
* `isActive_eq`, `count_eq`: what is shown of the line in use.
-/

namespace Bourse

/-- The standing of a line with its ingestor. -/
def Line.standing (l : Line) (w : Ingestor) : Standing :=
  ⟨l.bus.roll, l.dispatching, w.stopped, w.consumed, l.bus.hasBuffers⟩

namespace Market

/-- The standing of a line. -/
def standing? (m : Market) (i : Nat) : Option Standing :=
  (m.lines[i]?).bind (fun l => (m.intake.ingestors[i]?).map l.standing)

/-- What whoever has the turn does. -/
def turn (m : Market) : Turn :=
  match m.attempt with
  | none => .free
  | some a => a.line.elim .connecting .opened

/-- The outline of a market, with the subscriptions that are held. -/
def outline (m : Market) (held : List Seat) : Outline :=
  ⟨m.standing?, m.current, m.turn, isBufferSize (max m.capacity 1), held⟩

/-- A step of outlines that leads to the outline of a market. -/
theorem step_of_outline {m : Market} {o o' : Outline} {held : List Seat} (h : Outline.Step o o')
    (hlines : m.standing? = o'.lines) (hcurrent : m.current = o'.current)
    (hturn : m.turn = o'.turn) (hroom : isBufferSize (max m.capacity 1) = o'.room)
    (hheld : held = o'.held) : Outline.Step o (m.outline held) := by
  rw [outline, hlines, hcurrent, hturn, hroom, hheld]
  exact h

/-- Every line has its ingestor. -/
def Paired (m : Market) : Prop := m.lines.length = m.intake.ingestors.length

variable {m m' : Market} {i j : Nat} {l : Line} {w : Ingestor}

theorem Paired.exists_ingestor (h : m.Paired) (hl : m.lines[i]? = some l) :
    ∃ w, m.intake.ingestors[i]? = some w :=
  ⟨_, List.getElem?_eq_getElem (h ▸ (List.getElem?_eq_some_iff.1 hl).1)⟩

theorem standing?_eq (hl : m.lines[i]? = some l) (hw : m.intake.ingestors[i]? = some w) :
    m.standing? i = some (l.standing w) := by
  rw [standing?, hl, Option.bind_some, hw, Option.map_some]

theorem standing?_eq_none (hl : m.lines[i]? = none) : m.standing? i = none := by
  rw [standing?, hl, Option.bind_none]

theorem exists_of_standing? {s : Standing} (h : m.standing? i = some s) :
    ∃ l w, m.lines[i]? = some l ∧ m.intake.ingestors[i]? = some w ∧ s = l.standing w := by
  rcases Option.bind_eq_some_iff.1 h with ⟨l, hl, h⟩
  rcases Option.map_eq_some_iff.1 h with ⟨w, hw, rfl⟩
  exact ⟨l, w, hl, hw, rfl⟩

/-- What is done to one line is done to its standing and to no other. -/
theorem standing?_update {s : Option Standing}
    (hlines : ∀ j, j ≠ i → m'.lines[j]? = m.lines[j]?)
    (hingestors : ∀ j, j ≠ i → m'.intake.ingestors[j]? = m.intake.ingestors[j]?)
    (hi : m'.standing? i = s) : m'.standing? = Function.update m.standing? i s := by
  funext j
  by_cases hj : j = i
  · rw [hj, Function.update_self, hi]
  · rw [Function.update_of_ne hj, standing?, standing?, hlines j hj, hingestors j hj]

theorem standing?_of_same (hlines : ∀ j, j ≠ i → m'.lines[j]? = m.lines[j]?)
    (hingestors : ∀ j, j ≠ i → m'.intake.ingestors[j]? = m.intake.ingestors[j]?)
    (hi : m'.standing? i = m.standing? i) : m'.standing? = m.standing? := by
  rw [standing?_update hlines hingestors hi, Function.update_eq_self]

/-- An ingestor that keeps its signals leaves the standing of its line alone. -/
theorem standing?_of_signals {w' : Ingestor} (hlines : m'.lines = m.lines)
    (hingestors : m'.intake.ingestors = m.intake.ingestors.set i w')
    (hw : m.intake.ingestors[i]? = some w) (hstopped : w'.stopped = w.stopped)
    (hconsumed : w'.consumed = w.consumed) : m'.standing? = m.standing? := by
  have hw' : m'.intake.ingestors[i]? = some w' := by
    rw [hingestors]
    exact List.getElem?_set_self (List.getElem?_eq_some_iff.1 hw).1
  refine standing?_of_same (i := i) (fun j _ => by rw [hlines]) (fun j hj => ?_) ?_
  · rw [hingestors]
    exact List.getElem?_set_ne (Ne.symm hj)
  · rw [standing?, standing?, hlines, hw, hw']
    cases m.lines[i]? with
    | none => rfl
    | some l =>
        simp only [Option.bind_some, Option.map_some, Line.standing, hstopped, hconsumed]

/-! ## One line -/

theorem changeBus_eq (hl : m.lines[i]? = some l) (f : Bus → Bus) :
    m.changeBus i f = { m with
      lines := m.lines.modify i (fun l => { l with bus := f l.bus })
      intake := if (f l.bus).closed then m.intake.change i (fun w => { w with stopped := true })
        else m.intake } := by
  unfold changeBus
  simp only [List.getElem?_modify, hl, if_true, Option.map_eq_map, Option.map_some,
    Option.getD_some]
  split
  · rfl
  · rfl

/-- Without the line nothing is done. -/
theorem changeBus_of_none (hl : m.lines[i]? = none) (f : Bus → Bus) : m.changeBus i f = m := by
  have hmodify : m.lines.modify i (fun l => { l with bus := f l.bus }) = m.lines :=
    List.modify_eq_self (List.getElem?_eq_none_iff.1 hl)
  unfold changeBus
  simp only [hmodify, hl, Option.map_none, Option.getD_none, Bool.false_eq_true, if_false]

theorem standing?_changeBus (hl : m.lines[i]? = some l) (hw : m.intake.ingestors[i]? = some w)
    (f : Bus → Bus) : (m.changeBus i f).standing? = Function.update m.standing? i
      (some ⟨(f l.bus).roll, l.dispatching, w.stopped || (f l.bus).closed, w.consumed,
        (f l.bus).hasBuffers⟩) := by
  rw [changeBus_eq hl]
  refine standing?_update (fun j hj => List.getElem?_modify_ne _ _ (Ne.symm hj))
    (fun j hj => ?_) ?_
  · split
    · exact List.getElem?_modify_ne _ _ (Ne.symm hj)
    · rfl
  · simp only [standing?, List.getElem?_modify, hl, if_true, Option.map_eq_map, Option.map_some,
      Option.bind_some]
    split
    · next hclosed =>
      simp only [Intake.change, List.getElem?_modify, hw, if_true, Option.map_eq_map,
        Option.map_some, Line.standing, hclosed, Bool.or_true]
    · next hopen =>
      rw [Bool.not_eq_true] at hopen
      simp only [hw, Option.map_some, Line.standing, hopen, Bool.or_false]

theorem standing?_endDispatch (hl : m.lines[i]? = some l)
    (hw : m.intake.ingestors[i]? = some w) :
    (m.endDispatch i).standing? =
      Function.update m.standing? i (some (l.standing w).finish) := by
  refine standing?_update (fun j hj => List.getElem?_modify_ne _ _ (Ne.symm hj))
    (fun j hj => List.getElem?_modify_ne _ _ (Ne.symm hj)) ?_
  simp only [standing?, endDispatch, Intake.change, List.getElem?_modify, hl, hw, if_true,
    Option.map_eq_map, Option.map_some, Option.bind_some]
  rfl

theorem standing?_giveUp (hl : m.lines[i]? = some l) (hw : m.intake.ingestors[i]? = some w) :
    (m.giveUp i).standing? = Function.update m.standing? i
      (some { l.standing w with dispatching := false, stopped := true, consumed := false }) := by
  refine standing?_update (fun j hj => List.getElem?_modify_ne _ _ (Ne.symm hj))
    (fun j hj => List.getElem?_modify_ne _ _ (Ne.symm hj)) ?_
  simp only [standing?, giveUp, Intake.change, List.getElem?_modify, hl, hw, if_true,
    Option.map_eq_map, Option.map_some, Option.bind_some]
  rfl

/-- A line that is added has the number after the last. -/
theorem standing?_concat (hpaired : m.Paired) (hlines : m'.lines = m.lines ++ [l])
    (hingestors : m'.intake.ingestors = m.intake.ingestors ++ [w]) :
    m'.standing? = Function.update m.standing? m.lines.length (some (l.standing w)) := by
  have hother : ∀ {α : Type} (k : List α) (a : α) j, j ≠ k.length → (k ++ [a])[j]? = k[j]? := by
    intro α k a j hj
    rcases Nat.lt_or_gt_of_ne hj with hlt | hlt
    · exact List.getElem?_append_left hlt
    · rw [List.getElem?_eq_none (Nat.le_of_lt hlt), List.getElem?_eq_none]
      rw [List.length_append, List.length_singleton]
      exact hlt
  refine standing?_update (fun j hj => ?_) (fun j hj => ?_) ?_
  · rw [hlines, hother _ _ _ hj]
  · rw [hingestors, hother _ _ _ (hpaired ▸ hj)]
  · refine standing?_eq ?_ ?_
    · rw [hlines, List.getElem?_concat_length]
    · rw [hingestors, hpaired, List.getElem?_concat_length]

/-! ## The larger operations -/

theorem hasBuffers_of_altered {b b' : Bus} (h : b.Altered b') : b'.hasBuffers = b.hasBuffers := by
  rw [Bus.hasBuffers, Bus.hasBuffers, Bus.capacity_of_altered h]

/-- Joining a line: somebody comes, if it is open. -/
theorem cases_of_join? (m : Market) (i : Nat) :
    (m.join? i = none ∧ ∀ l, m.lines[i]? = some l → l.bus.closed = true) ∨
    ∃ l bus, m.lines[i]? = some l ∧ l.bus.closed = false ∧
      l.bus.subscribe = some (l.bus.nextId, bus) ∧
      m.join? i = some (if bus.hasBuffers then .seated ⟨i, l.bus.nextId⟩ else .crashed,
        m.changeBus i (fun _ => bus)) := by
  cases hl : m.lines[i]? with
  | none =>
      refine Or.inl ⟨?_, fun l h => absurd h.symm (Option.some_ne_none l)⟩
      simp only [join?, hl, Option.bind_eq_bind, Option.bind_none]
  | some l =>
      cases hsubscribe : l.bus.subscribe with
      | none =>
          refine Or.inl ⟨?_, fun l' h => ?_⟩
          · simp only [join?, hl, hsubscribe, Option.bind_eq_bind, Option.bind_some,
              Option.bind_none]
          · rw [← Option.some.inj h]
            exact Bus.subscribe_eq_none_iff.1 hsubscribe
      | some p =>
          rcases Bus.roll_subscribe hsubscribe with ⟨hopen, hid, -⟩
          refine Or.inr ⟨l, p.2, rfl, hopen, ?_, ?_⟩
          · rw [← hid, hsubscribe]
          · simp only [join?, hl, hsubscribe, Option.bind_eq_bind, Option.bind_some, hid]

theorem closed_of_subscribe {b bus : Bus} {id : Nat} (h : b.subscribe = some (id, bus)) :
    bus.closed = false := by
  rcases Bus.roll_subscribe h with ⟨hopen, -, hroll⟩
  have hsame : bus.closed = b.roll.join.closed := congrArg Roll.closed hroll
  rw [hsame, Roll.join]
  split
  · exact hopen
  · exact hopen

/-- Joining an open line leaves it open, and its ingestor alone. -/
theorem changeBus_of_join (hl : m.lines[i]? = some l) {bus : Bus} {id : Nat}
    (h : l.bus.subscribe = some (id, bus)) : m.changeBus i (fun _ => bus) =
      { m with lines := m.lines.modify i (fun l => { l with bus }) } := by
  rw [changeBus_eq hl, closed_of_subscribe h]
  rfl

/-- The standing of a line that somebody has joined. -/
theorem standing?_of_join (hl : m.lines[i]? = some l) (hw : m.intake.ingestors[i]? = some w)
    {bus : Bus} {id : Nat} (h : l.bus.subscribe = some (id, bus)) :
    ({ m with lines := m.lines.modify i (fun l => { l with bus }) } : Market).standing? =
      Function.update m.standing? i (some (l.standing w).join) := by
  refine standing?_update (fun j hj => List.getElem?_modify_ne _ _ (Ne.symm hj))
    (fun _ _ => rfl) ?_
  simp only [standing?, List.getElem?_modify, hl, hw, if_true, Option.map_eq_map, Option.map_some,
    Option.bind_some]
  unfold Line.standing Standing.join
  simp only [(Bus.roll_subscribe h).2.2, hasBuffers_of_altered (Bus.altered_subscribe h)]

/-- A quote leaves the standings alone. -/
theorem standing?_publish (hl : m.lines[i]? = some l) (hw : m.intake.ingestors[i]? = some w)
    (hopen : l.bus.closed = false) (q : Quote) :
    (m.changeBus i (·.publish q)).standing? = m.standing? := by
  have hroll := l.bus.roll_publish q
  have hclosed : (l.bus.publish q).closed = false := (congrArg Roll.closed hroll).trans hopen
  rw [standing?_changeBus hl hw, hroll, hclosed, Bool.or_false,
    hasBuffers_of_altered (l.bus.altered_publish q)]
  have hself := Function.update_eq_self i m.standing?
  rw [standing?_eq hl hw] at hself
  exact hself

/-- The standing of a line whose bus is closed at the end of the quotes. -/
theorem standing?_of_end (hl : m.lines[i]? = some l) (hw : m.intake.ingestors[i]? = some w) :
    ((m.changeBus i (·.close)).endDispatch i).standing? =
      Function.update m.standing? i (some (l.standing w).starve) := by
  have hclosed : l.bus.close.closed = true :=
    (congrArg Roll.closed l.bus.roll_close).trans (Roll.closed_close _)
  have hw' : (m.changeBus i (·.close)).intake.ingestors[i]? = some { w with stopped := true } := by
    rw [changeBus_eq hl, if_pos hclosed, Chronicle.change_eq_set hw]
    exact List.getElem?_set_self (List.getElem?_eq_some_iff.1 hw).1
  have hl' : (m.changeBus i (·.close)).lines[i]? = some { l with bus := l.bus.close } := by
    rw [changeBus_eq hl]
    simp only [List.getElem?_modify, hl, if_true, Option.map_eq_map, Option.map_some]
  rw [standing?_endDispatch hl' hw', standing?_changeBus hl hw, Function.update_idem]
  unfold Line.standing Standing.finish Standing.starve Standing.finish
  simp only [l.bus.roll_close, hasBuffers_of_altered l.bus.altered_close]

/-- The standing of a line that somebody leaves, where there is one. -/
theorem standing?_leave (hpaired : m.Paired) (s : Seat) :
    (m.leave s).standing? =
      Function.update m.standing? s.line ((m.standing? s.line).map (·.leave s.id)) := by
  cases hl : m.lines[s.line]? with
  | none =>
      have hnone := standing?_eq_none hl
      rw [leave, changeBus_of_none hl, hnone, Option.map_none, ← hnone, Function.update_eq_self]
  | some l =>
      rcases hpaired.exists_ingestor hl with ⟨w, hw⟩
      have hroll := l.bus.roll_drop s.id
      have hclosed : (l.bus.drop s.id).closed = (l.bus.roll.leave s.id).closed :=
        congrArg Roll.closed hroll
      rw [leave, standing?_changeBus hl hw, standing?_eq hl hw, Option.map_some, hroll, hclosed,
        hasBuffers_of_altered (l.bus.altered_drop s.id)]
      rfl

/-- Reading leaves the standings alone. -/
theorem standing?_receive (m : Market) (s : Seat) :
    (m.receive s).2.standing? = m.standing? := by
  cases hl : m.lines[s.line]? with
  | none => rw [receive, hl]
  | some l =>
      rw [receive, hl]
      refine standing?_of_same (i := s.line) (fun j hj => List.getElem?_set_ne (Ne.symm hj))
        (fun _ _ => rfl) ?_
      simp only [standing?, List.getElem?_set_self (List.getElem?_eq_some_iff.1 hl).1, hl,
        Option.bind_some]
      unfold Line.standing
      simp only [l.bus.roll_receive, hasBuffers_of_altered (l.bus.altered_receive s.id)]

/-- The quotes of an ingestor end only when it has stopped for good. -/
theorem phase_of_ended {k k' : Intake} (hw : k.ingestors[i]? = some w)
    (h : k.receive i = (.ended, k')) : w.phase = .terminated := by
  simp only [Intake.receive, hw, Ingestor.receive] at h
  cases houtput : w.output with
  | cons q rest =>
      simp only [houtput] at h
      exact absurd (Prod.mk.inj h).1 (by simp only [reduceCtorEq, not_false_eq_true])
  | nil =>
      simp only [houtput] at h
      split at h
      · next hphase => exact hphase
      · exact absurd (Prod.mk.inj h).1 (by simp only [reduceCtorEq, not_false_eq_true])

/-- The market with another ingestor in place of one. -/
def setIngestor (m : Market) (i : Nat) (w : Ingestor) : Market :=
  { m with intake := { m.intake with ingestors := m.intake.ingestors.set i w } }

/-- The dispatch of a line stops at a closed bus, takes a quote to the bus, or closes the bus when
its ingestor has stopped for good. -/
theorem cases_of_dispatchAt? (hpaired : m.Paired) (h : m.dispatchAt? i = some m') :
    ∃ l w, m.lines[i]? = some l ∧ m.intake.ingestors[i]? = some w ∧
      ((l.bus.closed = true ∧ m' = m.endDispatch i) ∨
      (l.bus.closed = false ∧ ∃ q rest, w.output = q :: rest ∧
        m' = (m.setIngestor i { w with output := rest }).changeBus i (·.publish q)) ∨
      (l.bus.closed = false ∧ w.phase = .terminated ∧
        m' = (m.changeBus i (·.close)).endDispatch i)) := by
  simp only [dispatchAt?, Option.bind_eq_bind] at h
  rcases Option.bind_eq_some_iff.1 h with ⟨l, hl, h⟩
  rcases hpaired.exists_ingestor hl with ⟨w, hw⟩
  refine ⟨l, w, hl, hw, ?_⟩
  split at h
  · exact absurd h (by simp only [reduceCtorEq, not_false_eq_true])
  · split at h
    · next hclosed => exact Or.inl ⟨hclosed, (Option.some.inj h).symm⟩
    · next hopen =>
      rw [Bool.not_eq_true] at hopen
      split at h
      · next q intake hitem =>
        rcases Chronicle.receive_eq_item hitem with ⟨v, rest, hv, houtput, rfl⟩
        cases Option.some.inj (hw.symm.trans hv)
        exact Or.inr (Or.inl ⟨hopen, q, rest, houtput, (Option.some.inj h).symm⟩)
      · next intake hended =>
        exact Or.inr (Or.inr ⟨hopen, phase_of_ended hw hended, (Option.some.inj h).symm⟩)
      · exact absurd h (by simp only [reduceCtorEq, not_false_eq_true])

/-! ## The line in use -/

theorem isActive_eq (hpaired : m.Paired) (held : List Seat) :
    m.isActive = (m.outline held).active := by
  unfold isActive Outline.active currentBus? outline
  cases hcurrent : m.current with
  | none => rfl
  | some i =>
      simp only [Option.bind_some]
      cases hl : m.lines[i]? with
      | none => rw [standing?_eq_none hl, Option.map_none, Option.map_none, Option.map_none]
      | some l =>
          rcases hpaired.exists_ingestor hl with ⟨w, hw⟩
          rw [standing?_eq hl hw]
          rfl

theorem count_eq {s : Standing} (hcurrent : m.current = some i) (hs : m.standing? i = some s) :
    m.count = s.roll.here.length := by
  rcases exists_of_standing? hs with ⟨l, w, hl, -, rfl⟩
  simp only [count, currentBus?, hcurrent, hl, Option.bind_some, Option.map_some,
    Option.getD_some]
  exact l.bus.count_eq_length

theorem count_of_none (hcurrent : m.current = none) : m.count = 0 := by
  rw [count, currentBus?, hcurrent]
  rfl

end Market

end Bourse
