import Bourse.Proofs.Ingestor.Books
import Bourse.Proofs.Market.Sharing

/-!
# The Supply of Quotes

A quote goes from the ingestor of a line to its bus, and from there into the buffer of
each subscription. This is the first half of the way: what everything that can happen to
a market does to the books of its ingestors.

The ingestors of a market are those of an intake, but a market opens lines and takes
quotes from them by operations of its own. So it is said here once which event each of
these is for an ingestor; that events keep the books right is known.

## Main definitions

* `Intake.Undisturbed`: what leaves the ingestors to what they are busy with.
* `Intake.Moves`: an event for one of the ingestors, or none.
* `Intake.Recorded`, `Intake.noted`: the books are right, and what becomes of them.
* `Market.published?`: the quote that the dispatch of a line would publish next.
* `Market.event?`, `Market.noted`: what happens to an ingestor, and the books after it.

## Theorems

* `Intake.Recorded.of_moves`: events keep the books right.
* `Market.moves_act?`: whatever happens is such an event, or none.
* `receipts_noted`, `receipts_of_published`: who takes quotes from an ingestor.
-/

namespace Bourse

/-! ## The ingestors -/

/-- Every ingestor is busy with the same, though it may have been told to stop or been left. -/
structure Intake.Undisturbed (k k' : Intake) : Prop where
  settings : k'.settings = k.settings
  now : k.now ≤ k'.now
  length : k'.ingestors.length = k.ingestors.length
  ingestors : ∀ (i : Nat) (w' : Ingestor), k'.ingestors[i]? = some w' →
    ∃ w : Ingestor, k.ingestors[i]? = some w ∧ w'.phase = w.phase ∧
      w'.output = w.output ∧ w'.stats = w.stats

/-- An ingestor does something, or is started, or all of them are left to what they are busy with. -/
inductive Intake.Moves (k k' : Intake) : Option (Nat × Ingestor.Event) → Prop
  | rest (hsame : k.Undisturbed k') : Moves k k' none
  | act {i : Nat} {w w' : Ingestor} {e : Ingestor.Event} (hw : k.ingestors[i]? = some w)
      (hstep : w.Step k.settings e w')
      (hsame : Intake.Undisturbed { k with ingestors := k.ingestors.set i w' } k') :
      Moves k k' (some (i, e))
  /-- There is some room in front of the consumer of an ingestor that is started. -/
  | start (c : Nat) (hroom : 0 < k.settings.buffer)
      (hsame : Intake.Undisturbed { k with ingestors := k.ingestors ++ [.start c false] } k') :
      Moves k k' (some (k.ingestors.length, .opened c false))

/-- The books of the ingestors are right about quotes, and nothing is written of one that is still
to come. -/
structure Intake.Recorded (k : Intake) (books : Nat → Ingestor.Books) : Prop where
  faithful : ∀ i w, k.ingestors[i]? = some w → Ingestor.Faithful k.settings w (books i)
  fresh : ∀ i, k.ingestors.length ≤ i → books i = .empty
  roomy : ∀ w ∈ k.ingestors, 0 < k.settings.buffer

/-- The books of the ingestors after an event. -/
def Intake.noted (books : Nat → Ingestor.Books) :
    Option (Nat × Ingestor.Event) → Nat → Ingestor.Books
  | some (i, e) => Function.update books i ((books i).note e)
  | none => books

/-- What an ingestor is told does not change its books. -/
theorem Ingestor.Faithful.of_undisturbed {s : IngestorSettings} {w w' : Ingestor} {b : Books}
    (h : Faithful s w b) (hphase : w'.phase = w.phase) (houtput : w'.output = w.output)
    (hstats : w'.stats = w.stats) : Faithful s w' b := by
  have hhand : w'.hand = w.hand := by rw [hand, hand, hphase]
  exact h.of_same rfl rfl rfl (by rw [hhand]) (fun hp => h.ended (hphase ▸ hp)) houtput
    (congrArg IngestorStats.quotes hstats) (congrArg IngestorStats.rejected hstats)

namespace Intake

variable {k k' k'' : Intake} {books : Nat → Ingestor.Books} {e : Option (Nat × Ingestor.Event)}

theorem undisturbed_of_ingestors (hsettings : k'.settings = k.settings) (hnow : k.now ≤ k'.now)
    (hingestors : k'.ingestors = k.ingestors) : k.Undisturbed k' := by
  refine ⟨hsettings, hnow, congrArg List.length hingestors, fun i w' hw' => ?_⟩
  rw [hingestors] at hw'
  exact ⟨w', hw', rfl, rfl, rfl⟩

theorem undisturbed_refl (k : Intake) : k.Undisturbed k :=
  undisturbed_of_ingestors rfl (Nat.le_refl _) rfl

theorem Undisturbed.trans (h : k.Undisturbed k') (h' : k'.Undisturbed k'') :
    k.Undisturbed k'' := by
  refine ⟨h'.settings.trans h.settings, Nat.le_trans h.now h'.now, h'.length.trans h.length,
    fun i w'' hw'' => ?_⟩
  rcases h'.ingestors i w'' hw'' with ⟨w', hw', hphase', houtput', hstats'⟩
  rcases h.ingestors i w' hw' with ⟨w, hw, hphase, houtput, hstats⟩
  exact ⟨w, hw, hphase'.trans hphase, houtput'.trans houtput, hstats'.trans hstats⟩

theorem undisturbed_change (k : Intake) (i : Nat) {f : Ingestor → Ingestor}
    (hf : ∀ w, (f w).phase = w.phase ∧ (f w).output = w.output ∧ (f w).stats = w.stats) :
    k.Undisturbed (k.change i f) := by
  refine ⟨rfl, Nat.le_refl _, List.length_modify _ _ _, fun j w' hw' => ?_⟩
  simp only [change, List.getElem?_modify] at hw'
  rcases Option.map_eq_some_iff.1 hw' with ⟨w, hw, rfl⟩
  refine ⟨w, hw, ?_⟩
  split
  · exact hf w
  · exact ⟨rfl, rfl, rfl⟩

theorem Recorded.of_undisturbed (h : k.Recorded books) (hsame : k.Undisturbed k') :
    k'.Recorded books := by
  refine ⟨fun i w' hw' => ?_, fun i hi => h.fresh i (hsame.length ▸ hi), fun w' hw' => ?_⟩
  · rcases hsame.ingestors i w' hw' with ⟨w, hw, hphase, houtput, hstats⟩
    rw [hsame.settings]
    exact (h.faithful i w hw).of_undisturbed hphase houtput hstats
  · rcases List.mem_iff_getElem?.1 hw' with ⟨i, hi⟩
    rcases hsame.ingestors i w' hi with ⟨w, hw, -⟩
    rw [hsame.settings]
    exact h.roomy w (List.mem_of_getElem? hw)

/-- What happened is written up, and the books are right again. -/
theorem Recorded.of_moves (h : k.Recorded books) (hmove : k.Moves k' e) :
    k'.Recorded (noted books e) := by
  cases hmove with
  | rest hsame => exact h.of_undisturbed hsame
  | @act i w w' e hw hstep hsame =>
      refine Recorded.of_undisturbed ⟨fun j v hv => ?_, fun j hj => ?_, fun v _ => ?_⟩ hsame
      · exact Chronicle.forall_of_set (k := ⟨k, books, fun _ => []⟩) (fun j v _ => h.faithful j v) hw
          (Ingestor.faithful_of_step (h.faithful i w hw) hstep) hv
      · have hlt := (List.getElem?_eq_some_iff.1 hw).1
        simp only [List.length_set] at hj
        rw [noted, Function.update_of_ne (by omega)]
        exact h.fresh j hj
      · exact h.roomy w (List.mem_of_getElem? hw)
  | start c hroom hsame =>
      have hstarted : Recorded { k with ingestors := k.ingestors ++ [.start c false] }
          (noted books (some (k.ingestors.length, .opened c false))) := by
        refine ⟨fun j v hv => ?_, fun j hj => ?_, fun _ _ => hroom⟩
        · refine Chronicle.forall_of_concat (k := ⟨k, books, fun _ => []⟩) h.faithful ?_ hv
          rw [show books k.ingestors.length = .empty from h.fresh _ (Nat.le_refl _)]
          exact Ingestor.faithful_start k.settings c false
        · simp only [List.length_append, List.length_singleton] at hj
          rw [noted, Function.update_of_ne (by omega)]
          exact h.fresh j (by omega)
      exact hstarted.of_undisturbed hsame

theorem Moves.settings (h : k.Moves k' e) : k'.settings = k.settings := by
  cases h with
  | rest hsame => exact hsame.settings
  | act _ _ hsame => exact hsame.settings
  | start _ _ hsame => exact hsame.settings

theorem Moves.now (h : k.Moves k' e) : k.now ≤ k'.now := by
  cases h with
  | rest hsame => exact hsame.now
  | act _ _ hsame => exact hsame.now
  | start _ _ hsame => exact hsame.now

end Intake

namespace Market

variable {m m' : Market} {i : Nat} {a : Action}

theorem undisturbed_changeBus (m : Market) (i : Nat) (f : Bus → Bus) :
    m.intake.Undisturbed (m.changeBus i f).intake := by
  unfold changeBus
  simp only []
  split
  · exact Intake.undisturbed_change _ i (fun _ => ⟨rfl, rfl, rfl⟩)
  · exact Intake.undisturbed_refl _

theorem undisturbed_endDispatch (m : Market) (i : Nat) :
    m.intake.Undisturbed (m.endDispatch i).intake :=
  Intake.undisturbed_change _ i (fun _ => ⟨rfl, rfl, rfl⟩)

theorem undisturbed_giveUp (m : Market) (i : Nat) : m.intake.Undisturbed (m.giveUp i).intake :=
  Intake.undisturbed_change _ i (fun _ => ⟨rfl, rfl, rfl⟩)

theorem undisturbed_removeFeeder (m : Market) (s : Seat) :
    m.intake.Undisturbed (m.removeFeeder s).intake :=
  undisturbed_changeBus { m with feeders := m.feeders.filter (· ≠ s) } s.line (·.drop s.id)

theorem intake_receive (m : Market) (s : Seat) : (m.receive s).2.intake = m.intake := by
  unfold receive
  split
  · rfl
  · rfl

theorem undisturbed_receive (m : Market) (s : Seat) :
    m.intake.Undisturbed (m.receive s).2.intake := by
  rw [intake_receive]
  exact Intake.undisturbed_refl _

/-! ## What happens to the ingestors -/

/-- The quote that the dispatch of a line would take to its open bus. -/
def published? (m : Market) (i : Nat) : Option Quote :=
  match m.lines[i]?, m.intake.ingestors[i]? with
  | some l, some w => if l.dispatching && !l.bus.closed then w.output.head? else none
  | _, _ => none

/-- The event that something which leads to another market is for an ingestor, and for which. What an
ingestor is told is left out. -/
def event? (m m' : Market) : Action → Option (Nat × Ingestor.Event)
  | .endAttempt =>
    if m'.intake.ingestors.length = m.intake.ingestors.length then none
    else some (m.intake.ingestors.length, .opened m.intake.feed.connections.length false)
  | .turn i branch =>
    ((m.intake.ingestors[i]?).bind
      (·.turn? m.intake.settings m.intake.now m.intake.feed branch)).map (fun p => (i, p.1))
  | .dispatch i => (m.published? i).map (fun q => (i, .received q))
  | .spill i =>
    ((m.intake.ingestors[i]?).bind (·.output.head?)).map (fun q => (i, .received q))
  | _ => none

/-- The books of the ingestors after something has happened that led to another market. -/
def noted (m m' : Market) (books : Nat → Ingestor.Books) (a : Action) : Nat → Ingestor.Books :=
  Intake.noted books (m.event? m' a)

variable {books : Nat → Ingestor.Books}

/-- An ingestor is started only if there can be a buffer in front of its consumer. -/
theorem buffer_of_opened {k k' : Intake} {fired : Bool} (h : k.attempt fired = (.opened i, k')) :
    0 < k.settings.buffer := by
  unfold Intake.attempt at h
  split at h
  · split at h
    · exact absurd (Prod.mk.inj h).1 (by simp only [reduceCtorEq, not_false_eq_true])
    · split at h
      · next hbuffer =>
        rw [isBufferSize, Bool.and_eq_true, decide_eq_true_eq] at hbuffer
        exact hbuffer.1
      · exact absurd (Prod.mk.inj h).1 (by simp only [reduceCtorEq, not_false_eq_true])
  · exact absurd (Prod.mk.inj h).1 (by simp only [reduceCtorEq, not_false_eq_true])

theorem moves_endAttempt? (hpaired : m.Paired) (h : m.endAttempt? = some m') :
    m.intake.Moves m'.intake (m.event? m' .endAttempt) := by
  rcases attempt_of_endAttempt? h with ⟨a, hattempt, hline, hdue⟩
  rcases Chronicle.cases_of_attempt m.intake false with
    ⟨-, hopened⟩ | ⟨r, feed, hrefused, hnot, -⟩
  · have hroom := buffer_of_opened hopened
    have hlonger : ∀ w : Ingestor, (m.intake.ingestors ++ [w]).length ≠ m.intake.ingestors.length := by
      intro w
      rw [List.length_append, List.length_singleton]
      omega
    rw [endAttempt?_of_opened hpaired hattempt hline hdue hopened] at h
    cases Option.some.inj h
    simp only [event?, if_neg (hlonger _)]
    exact .start _ hroom (Intake.undisturbed_of_ingestors rfl (Nat.le_refl _) rfl)
  · rcases endAttempt?_of_refused hattempt hline hdue hrefused hnot with ⟨g, -, -, heq⟩
    rw [heq] at h
    cases Option.some.inj h
    simp only [event?, if_true]
    exact .rest (Intake.undisturbed_of_ingestors rfl (Nat.le_refl _) rfl)

/-- The first subscriber of a line does nothing to the ingestors, or one is told that it is not
wanted. -/
theorem moves_takeSeat? (h : m.takeSeat? = some m') :
    m.intake.Moves m'.intake (m.event? m' .takeSeat) := by
  rcases cases_of_takeSeat? h with ⟨a, i, -, -, ⟨l, bus, -, -, rfl⟩ | rfl | ⟨e, rfl⟩⟩
  · exact .rest (Intake.undisturbed_refl _)
  · exact .rest (undisturbed_giveUp _ i)
  · exact .rest (Intake.undisturbed_refl _)

theorem published?_eq {l : Line} {w : Ingestor} (hl : m.lines[i]? = some l)
    (hw : m.intake.ingestors[i]? = some w) :
    m.published? i = if l.dispatching && !l.bus.closed then w.output.head? else none := by
  rw [published?, hl, hw]

/-- The quotes of an ingestor end only when none is left in its buffer. -/
theorem output_of_ended {k k' : Intake} {w : Ingestor} (hw : k.ingestors[i]? = some w)
    (h : k.receive i = (.ended, k')) : w.output = [] := by
  simp only [Intake.receive, hw, Ingestor.receive] at h
  cases houtput : w.output with
  | nil => rfl
  | cons q rest =>
      simp only [houtput] at h
      exact absurd (Prod.mk.inj h).1 (by simp only [reduceCtorEq, not_false_eq_true])

/-- What the dispatch of a line does: it publishes a quote, or it ends. -/
theorem cases_of_published? (hpaired : m.Paired) (h : m.dispatchAt? i = some m') :
    ∃ l w, m.lines[i]? = some l ∧ m.intake.ingestors[i]? = some w ∧
      ((l.bus.closed = false ∧ ∃ q rest, m.published? i = some q ∧ w.output = q :: rest ∧
        m' = (m.setIngestor i { w with output := rest }).changeBus i (·.publish q)) ∨
      (m.published? i = none ∧
        ((l.bus.closed = true ∧ m' = m.endDispatch i) ∨
        (w.phase = .terminated ∧ m' = (m.changeBus i (·.close)).endDispatch i)))) := by
  simp only [dispatchAt?, Option.bind_eq_bind] at h
  rcases Option.bind_eq_some_iff.1 h with ⟨l, hl, h⟩
  rcases hpaired.exists_ingestor hl with ⟨w, hw⟩
  refine ⟨l, w, hl, hw, ?_⟩
  rw [published?_eq hl hw]
  split at h
  · exact absurd h (by simp only [reduceCtorEq, not_false_eq_true])
  · next hdispatching =>
    rw [Bool.not_eq_true, Bool.not_eq_false'] at hdispatching
    rw [hdispatching, Bool.true_and]
    split at h
    · next hclosed =>
      rw [hclosed]
      exact Or.inr ⟨rfl, Or.inl ⟨rfl, (Option.some.inj h).symm⟩⟩
    · next hopen =>
      rw [Bool.not_eq_true] at hopen
      rw [hopen, Bool.not_false, if_pos rfl]
      split at h
      · next q intake hitem =>
        rcases Chronicle.receive_eq_item hitem with ⟨v, rest, hv, houtput, rfl⟩
        cases Option.some.inj (hw.symm.trans hv)
        refine Or.inl ⟨rfl, q, rest, ?_, houtput, (Option.some.inj h).symm⟩
        rw [houtput, List.head?_cons]
      · next intake hended =>
        refine Or.inr ⟨?_, Or.inr ⟨phase_of_ended hw hended, (Option.some.inj h).symm⟩⟩
        rw [output_of_ended hw hended, List.head?_nil]
      · exact absurd h (by simp only [reduceCtorEq, not_false_eq_true])

theorem moves_dispatchAt? (hpaired : m.Paired) (h : m.dispatchAt? i = some m') :
    m.intake.Moves m'.intake (m.event? m' (.dispatch i)) := by
  rcases cases_of_published? hpaired h with
    ⟨l, w, hl, hw, ⟨-, q, rest, hq, houtput, rfl⟩ | ⟨hnone, ⟨-, rfl⟩ | ⟨-, rfl⟩⟩⟩
  · rw [event?, hq]
    exact .act hw (.received q rest houtput)
      (undisturbed_changeBus (m.setIngestor i { w with output := rest }) i _)
  · rw [event?, hnone]
    exact .rest (undisturbed_endDispatch m i)
  · rw [event?, hnone]
    exact .rest ((undisturbed_changeBus m i _).trans (undisturbed_endDispatch _ i))

/-- Whatever happens, it is an event for one ingestor or none. -/
theorem moves_act? (hpaired : m.Paired) (h : m.act? a = some m') :
    m.intake.Moves m'.intake (m.event? m' a) := by
  cases a with
  | nextTurn =>
      rw [intake_of_nextTurn? h]
      exact .rest (Intake.undisturbed_refl _)
  | endAttempt => exact moves_endAttempt? hpaired h
  | takeSeat => exact moves_takeSeat? h
  | leave s =>
      cases Option.some.inj h
      exact .rest (undisturbed_changeBus m s.line _)
  | receive s =>
      cases Option.some.inj h
      exact .rest (undisturbed_receive m s)
  | feed s =>
      simp only [act?] at h
      split at h
      · rcases cases_of_feed? h with ⟨q, -, rfl⟩ | ⟨-, rfl⟩
        · exact .rest (undisturbed_receive m s)
        · exact .rest ((undisturbed_receive m s).trans (undisturbed_removeFeeder _ s))
      · exact absurd h (by simp only [reduceCtorEq, not_false_eq_true])
  | dispatch i => exact moves_dispatchAt? hpaired h
  | spill i =>
      rcases spillAt?_eq_some h with ⟨-, w, q, rest, -, -, hw, houtput, rfl⟩
      simp only [event?, hw, Option.bind_some, houtput, List.head?_cons, Option.map_some]
      exact .act hw (.received q rest houtput) (Intake.undisturbed_refl _)
  | turn i branch =>
      rcases Option.map_eq_some_iff.1 h with ⟨intake, hturn, rfl⟩
      rcases Intake.turnAt?_eq_some hturn with ⟨w, e, moved, hw, hmoved, rfl⟩
      simp only [event?, hw, Option.bind_some, hmoved, Option.map_some]
      exact .act hw (Ingestor.turn?_eq_some hmoved).1
        (Intake.undisturbed_of_ingestors rfl (Nat.le_refl _) rfl)
  | wait ms =>
      cases Option.some.inj h
      exact .rest (Intake.undisturbed_of_ingestors rfl (Nat.le_add_right _ _) rfl)
  | _ =>
      cases Option.some.inj h
      exact .rest (Intake.undisturbed_of_ingestors rfl (Nat.le_refl _) rfl)

/-! ## What is written up -/

/-- The event is something that the ingestor does itself, or a quote is taken from it. -/
theorem cases_of_event? {e : Ingestor.Event} (h : m.event? m' a = some (i, e)) :
    (e.isOwn = true ∨ ∃ c, e = .opened c false) ∨
      ∃ q, e = .received q ∧ (a = .spill i ∨ a = .dispatch i) := by
  cases a with
  | endAttempt =>
      rcases Option.ite_none_left_eq_some.1 h with ⟨-, heq⟩
      cases Option.some.inj heq
      exact Or.inl (Or.inr ⟨_, rfl⟩)
  | turn i branch =>
      rcases Option.map_eq_some_iff.1 h with ⟨p, hp, heq⟩
      rcases Option.bind_eq_some_iff.1 hp with ⟨w, -, hmoved⟩
      cases heq
      exact Or.inl (Or.inl (Ingestor.turn?_eq_some hmoved).2.2.2)
  | dispatch i =>
      rcases Option.map_eq_some_iff.1 h with ⟨q, -, heq⟩
      cases heq
      exact Or.inr ⟨q, rfl, Or.inr rfl⟩
  | spill i =>
      rcases Option.map_eq_some_iff.1 h with ⟨q, -, heq⟩
      cases heq
      exact Or.inr ⟨q, rfl, Or.inl rfl⟩
  | _ => exact absurd h (by simp only [event?, reduceCtorEq, not_false_eq_true])

/-- The books of one ingestor after something has happened are the same, or one event longer. -/
theorem cases_of_noted (m m' : Market) (books : Nat → Ingestor.Books) (a : Action) (j : Nat) :
    m.noted m' books a j = books j ∨
      ∃ e, m.event? m' a = some (j, e) ∧ m.noted m' books a j = (books j).note e := by
  unfold noted
  cases hevent : m.event? m' a with
  | none => exact Or.inl rfl
  | some p =>
      rcases p with ⟨i, e⟩
      by_cases hj : j = i
      · rw [hj]
        exact Or.inr ⟨e, rfl, Function.update_self ..⟩
      · exact Or.inl (Function.update_of_ne hj _ _)

/-- What an ingestor does itself is not a receipt, and does not take back what it took. -/
theorem receipts_note {b : Ingestor.Books} {e : Ingestor.Event}
    (he : e.isOwn = true ∨ ∃ c, e = .opened c false) : (b.note e).receipts = b.receipts := by
  cases e with
  | received q => exact absurd he (by simp only [Ingestor.Event.isOwn, reduceCtorEq,
      exists_false, Bool.false_eq_true, or_self, not_false_eq_true])
  | stopped phase =>
      cases phase with
      | _ => rfl
  | _ => rfl

theorem takings_note (b : Ingestor.Books) (e : Ingestor.Event) :
    b.takings <+: (b.note e).takings := by
  cases e with
  | took c t => exact List.prefix_append _ _
  | stopped phase =>
      cases phase with
      | _ => exact List.prefix_refl _
  | _ => exact List.prefix_refl _

/-- What was taken once stays in the books. -/
theorem takings_noted (m m' : Market) (books : Nat → Ingestor.Books) (a : Action) (j : Nat) :
    (books j).takings <+: (m.noted m' books a j).takings := by
  rcases cases_of_noted m m' books a j with hsame | ⟨e, -, hnote⟩
  · exact hsame.symm ▸ List.prefix_refl _
  · exact hnote.symm ▸ takings_note (books j) e

/-- Nothing but the dispatch takes quotes from an ingestor. -/
theorem receipts_noted {j : Nat} (hdispatch : a ≠ .dispatch j) (hspill : a ≠ .spill j) :
    (m.noted m' books a j).receipts = (books j).receipts := by
  rcases cases_of_noted m m' books a j with hsame | ⟨e, hevent, hnote⟩
  · rw [hsame]
  · rw [hnote]
    rcases cases_of_event? hevent with hown | ⟨q, -, hspilled | hdispatched⟩
    · exact receipts_note hown
    · exact absurd hspilled hspill
    · exact absurd hdispatched hdispatch

/-- A quote that is published is received. -/
theorem receipts_of_published {j : Nat} {q : Quote} (h : m.published? j = some q) :
    (m.noted m' books (.dispatch j) j).receipts = (books j).receipts ++ [q] := by
  rw [noted, event?, h, Option.map_some, Intake.noted, Function.update_self]
  rfl

end Market

end Bourse
