import Bourse.Proofs.Intake.Clients
import Bourse.Proofs.Sums

/-!
# Settling

An intake that settles comes to rest: after that many steps no ingestor can take another
one before time passes. A measure says so. It counts the ticks under way and the attempts
that are still to fail, two steps each, and for every ingestor the steps that are left to
it where no tick comes and no attempt fails. Every turn of every ingestor makes it smaller,
so the turns come to an end in whichever order they are taken.

There is one exception. Where an attempt takes no time, no pause is made before the next
one and nobody is there to make a connection, an ingestor tries and fails for ever while
the clock stands still.

## Main definitions

* `StagedFeed.load`, `Ingestor.ahead`, `Intake.ahead`: the measure.
* `Intake.Paced`: that no ingestor tries for ever while the clock stands still.

## Theorems

* `ahead_lt_of_turnAt?`: every turn makes the measure smaller.
* `length_turns_le`: so the turns come to an end.
* `step?_settle`: an intake that has settled is at rest.
-/

namespace Bourse

namespace StagedFeed

variable {f : StagedFeed} {c d : Nat} {x : Connection}

/-- Whether a connection has no sending end any more. -/
def isCut (f : StagedFeed) (c : Nat) : Bool :=
  ((f.connections[c]?).map (fun x => !x.sending)).getD true

/-- The ticks under way and the attempts that will fail, two for each. -/
def load (f : StagedFeed) : Nat := 2 * f.underWay + 2 * f.failures

theorem underWay_eq (f : StagedFeed) :
    f.underWay = (f.connections.map (·.ticks.length)).sum := List.sum_eq_foldl.symm

theorem isCut_of_isOver (h : f.isOver c = true) : f.isCut c = true := by
  unfold isOver at h
  unfold isCut
  cases hx : f.connections[c]? with
  | none => rfl
  | some x =>
      rw [hx, Bool.and_eq_true] at h
      exact h.2

theorem isCut_change {g : Connection → Connection} (hg : ∀ x, (g x).sending = x.sending) :
    (f.change c g).isCut d = f.isCut d := by
  unfold isCut
  rw [connection_change]
  split
  · cases f.connections[d]? with
    | none => rfl
    | some x => exact congrArg (!·) (hg x)
  · rfl

theorem underWay_change (hx : f.connections[c]? = some x) (g : Connection → Connection) :
    (f.change c g).underWay + x.ticks.length ≤ f.underWay + (g x).ticks.length := by
  rw [underWay_eq, underWay_eq, change, List.modify_eq_set_getElem?, hx]
  exact sum_map_set_le hx fun y => Nat.le_refl _

theorem load_release (f : StagedFeed) (c : Nat) : (f.release c).load ≤ f.load := by
  cases hx : f.connections[c]? with
  | none =>
      have hsame : f.release c = f := by
        rw [release, change, List.modify_eq_self (List.getElem?_eq_none_iff.1 hx)]
      exact Nat.le_of_eq (congrArg load hsame)
  | some x =>
      have hunderWay := underWay_change hx (fun x => { x with receiving := false, ticks := [] })
      rw [List.length_nil] at hunderWay
      unfold load release
      simp only [change] at hunderWay ⊢
      omega

/-- A tick that is taken is under way no more. -/
theorem load_take {t : RawTick} (hpeek : f.peek? c = some t) : (f.take c).load + 2 ≤ f.load := by
  rcases Option.bind_eq_some_iff.1 hpeek with ⟨x, hx, hhead⟩
  have hlength : x.ticks.tail.length + 1 = x.ticks.length := by
    cases hticks : x.ticks with
    | nil =>
        rw [hticks] at hhead
        exact absurd hhead.symm (Option.some_ne_none t)
    | cons first rest => rfl
  have hunderWay := underWay_change hx (fun x => { x with ticks := x.ticks.tail })
  unfold load take
  simp only [change] at hunderWay ⊢
  omega

/-- What the ingestors do to the feed never makes more of it. -/
structure Eases (f g : StagedFeed) : Prop where
  load : g.load ≤ f.load
  cut : ∀ d, g.isCut d = true → f.isCut d = true
  delay : g.delay = f.delay
  controlled : g.controlled = f.controlled

theorem Eases.refl (f : StagedFeed) : f.Eases f := ⟨Nat.le_refl _, fun _ => id, rfl, rfl⟩

theorem eases_change {g : Connection → Connection} (hg : ∀ x, (g x).sending = x.sending)
    (hload : (f.change c g).load ≤ f.load) : f.Eases (f.change c g) :=
  ⟨hload, fun _ h => (isCut_change hg).symm.trans h, rfl, rfl⟩

/-- An attempt makes a connection that is not cut, or fails. A failure was told, or nobody is there
to make a connection. -/
theorem load_connect (f : StagedFeed) :
    f.Eases f.connect.2 ∧
      ((f.connect.1 = .ok f.connections.length ∧ f.connect.2.isCut f.connections.length = false) ∨
        ((∃ e, f.connect.1 = .error e) ∧
          (f.connect.2.load + 2 ≤ f.load ∨ f.controlled = false))) := by
  unfold connect
  simp only []
  split
  · next hfailures =>
    refine ⟨⟨?_, fun _ h => h, rfl, rfl⟩, Or.inr ⟨⟨_, rfl⟩, Or.inl ?_⟩⟩
    · exact Nat.add_le_add_left (Nat.mul_le_mul_left 2 (Nat.sub_le _ _)) _
    · unfold load underWay
      simp only []
      omega
  · split
    · refine ⟨⟨?_, fun d h => ?_, rfl, rfl⟩, Or.inl ⟨rfl, ?_⟩⟩
      · simp only [load, underWay_eq, List.map_append, List.sum_append, List.map_cons, List.map_nil,
          List.length_nil, List.sum_cons, List.sum_nil, Nat.add_zero, Nat.le_refl]
      · unfold isCut at h ⊢
        rw [List.getElem?_append] at h
        split at h
        · exact h
        · next hd =>
          rw [List.getElem?_eq_none (Nat.le_of_not_lt hd)]
          rfl
      · rw [isCut, List.getElem?_concat_length]
        rfl
    · next hcontrolled =>
      exact ⟨⟨Nat.le_refl _, fun _ h => h, rfl, rfl⟩,
        Or.inr ⟨⟨_, rfl⟩, Or.inr (Bool.not_eq_true _ ▸ hcontrolled)⟩⟩

theorem eases_after {e : Ingestor.Event} (hfinds : f.Finds e) : f.Eases (f.after e) := by
  have hrelease : ∀ c, f.Eases (f.release c) :=
    fun c => eases_change (fun _ => rfl) (load_release f c)
  unfold after
  split
  · next c t =>
    exact eases_change (fun _ => rfl) (Nat.le_of_add_right_le (load_take hfinds))
  · exact hrelease _
  · exact hrelease _
  · exact hrelease _
  · exact (load_connect f).1
  · exact (load_connect f).1
  · exact .refl f

end StagedFeed

namespace Ingestor

variable {s : IngestorSettings} {now : Nat} {f g : StagedFeed} {w : Ingestor} {e : Event}
  {branch : Branch} {moved : Moved}

/-- The steps that are left to an ingestor before time has to pass, where no tick comes and no
attempt fails. -/
def ahead (f : StagedFeed) (now : Nat) (w : Ingestor) : Nat :=
  match w.phase with
  | .streaming c => if f.isCut c then 4 else 1
  | .sending c _ => if f.isCut c then 5 else 2
  | .waiting due => if due ≤ now then (if f.delay = 0 then 3 else 2) else 1
  | .connecting due => if due ≤ now then (if f.delay = 0 then 2 else 3) else 1
  | .terminated => 0

theorem ahead_le (f : StagedFeed) (now : Nat) (w : Ingestor) : w.ahead f now ≤ 8 := by
  unfold ahead
  cases w.phase with
  | terminated => exact Nat.zero_le _
  | _ =>
      simp only []
      split_ifs
      all_goals omega

/-- What eases the feed leaves no ingestor with more to do. -/
theorem ahead_le_of_eases (h : f.Eases g) (now : Nat) (w : Ingestor) :
    w.ahead g now ≤ w.ahead f now := by
  unfold ahead
  rw [h.delay]
  have hmore : ∀ c n : Nat,
      (if g.isCut c then n + 3 else n) ≤ if f.isCut c then n + 3 else n := by
    intro c n
    by_cases hcut : g.isCut c = true
    · rw [if_pos hcut, if_pos (h.cut c hcut)]
    · rw [if_neg hcut]
      split_ifs
      all_goals omega
  cases w.phase with
  | streaming c => exact hmore c 1
  | sending c q => exact hmore c 2
  | _ => exact Nat.le_refl _

theorem ahead_pos (hphase : w.phase ≠ .terminated) (f : StagedFeed) (now : Nat) :
    0 < w.ahead f now := by
  unfold ahead
  cases hw : w.phase with
  | terminated => exact absurd hw hphase
  | _ =>
      simp only []
      split_ifs
      all_goals omega

theorem eases_of_turn? (h : w.turn? s now f branch = some (e, moved)) : f.Eases moved.feed := by
  rcases turn?_eq_some h with ⟨-, hfeed, hfinds, -⟩
  rw [hfeed]
  exact StagedFeed.eases_after hfinds

theorem phase_of_isStopping (h : w.isStopping = true) : w.phase ≠ .terminated := fun hphase => by
  rw [isStopping, hphase] at h
  exact absurd h Bool.false_ne_true

/-- That no ingestor tries for ever while the clock stands still. -/
def Paced (s : IngestorSettings) (f : StagedFeed) : Prop :=
  s.backoff = 0 → f.delay = 0 → f.controlled = true

/-- A tick that is taken leaves less to do, whatever becomes of it. -/
theorem ahead_takeTick {c : Nat} {t : RawTick} (hphase : w.phase = .streaming c)
    (hpeek : f.peek? c = some t) (symbols : List String) :
    (w.takeTick symbols f c t).feed.load +
        (w.takeTick symbols f c t).ingestor.ahead (w.takeTick symbols f c t).feed now <
      f.load + w.ahead f now := by
  have hload := StagedFeed.load_take hpeek
  have hcut : (f.take c).isCut c = f.isCut c := StagedFeed.isCut_change fun _ => rfl
  unfold takeTick
  cases t.decode symbols with
  | ok q =>
      simp only [ahead, hphase, hcut]
      split_ifs
      all_goals omega
  | error fault =>
      simp only [ahead, hphase, hcut]
      omega

/-- The end of a connection leaves less to do. -/
theorem ahead_disconnect {c : Nat} (hphase : w.phase = .streaming c) (hover : f.isOver c = true)
    (backoff : Nat) :
    (w.disconnect backoff now f c).feed.load +
        (w.disconnect backoff now f c).ingestor.ahead (w.disconnect backoff now f c).feed now <
      f.load + w.ahead f now := by
  have hload := StagedFeed.load_release f c
  have hdelay : (f.release c).delay = f.delay := rfl
  simp only [disconnect, ahead, hphase, hdelay, StagedFeed.isCut_of_isOver hover, if_true]
  split_ifs
  all_goals omega

/-- So does the end of an attempt: one that fails was told to, or a pause comes after it or before
its end. -/
theorem ahead_reconnect {due : Nat} (hpaced : Paced s f) (hphase : w.phase = .connecting due)
    (hdue : due ≤ now) :
    (w.reconnect s.backoff now f).feed.load +
        (w.reconnect s.backoff now f).ingestor.ahead (w.reconnect s.backoff now f).feed now <
      f.load + w.ahead f now := by
  rcases StagedFeed.load_connect f with ⟨heases, ⟨hconnect, hcut⟩ | ⟨⟨fault, hconnect⟩, hfailed⟩⟩
  · have hload := heases.load
    rw [reconnect_of_ok hconnect]
    simp only [ahead, hphase, hcut, if_pos hdue, Bool.false_eq_true, if_false]
    split_ifs
    all_goals omega
  · have hload := heases.load
    rw [reconnect_of_error hconnect]
    simp only [ahead, hphase, if_pos hdue, heases.delay]
    rcases hfailed with htold | halone
    · split_ifs
      all_goals omega
    · -- No failure is used up, so the clock has to move before this ingestor goes on.
      have hpause : ¬ (s.backoff = 0 ∧ f.delay = 0) := fun hnone => by
        rw [hpaced hnone.1 hnone.2] at halone
        exact absurd halone.symm Bool.false_ne_true
      split_ifs
      all_goals omega

/-- Every turn leaves less to do. -/
theorem ahead_lt_of_turn? (hpaced : Paced s f) (h : w.turn? s now f branch = some (e, moved)) :
    moved.feed.load + moved.ingestor.ahead moved.feed now < f.load + w.ahead f now := by
  cases branch with
  | stop =>
      have hload := (eases_of_turn? h).load
      rcases cases_of_stop h with ⟨hstopping, -, rfl⟩
      have hpos := ahead_pos (phase_of_isStopping hstopping) f now
      have hnothing : (w.terminate f).ingestor.ahead (w.terminate f).feed now = 0 := rfl
      omega
  | goOn =>
      rcases cases_of_goOn h with ⟨c, t, hphase, hpeek, -, rfl⟩ | ⟨c, hphase, -, hover, -, rfl⟩ |
        ⟨c, q, hphase, -, -, -, rfl⟩ | ⟨due, hphase, hdue, -, rfl⟩ | ⟨due, hphase, hdue, rfl, -⟩
      · exact ahead_takeTick hphase hpeek s.symbols
      · exact ahead_disconnect hphase hover s.backoff
      · simp only [ahead, afterPut, hphase]
        split_ifs
        all_goals omega
      · simp only [ahead, hphase, if_pos hdue]
        split_ifs
        all_goals omega
      · exact ahead_reconnect hpaced hphase hdue

end Ingestor

namespace Intake

variable {m m' : Intake} {i : Nat} {branch : Ingestor.Branch}

/-- The steps that are left to the ingestors of an intake before time has to pass. -/
def ahead (m : Intake) : Nat :=
  m.feed.load + (m.ingestors.map (Ingestor.ahead m.feed m.now)).sum

/-- That no ingestor of the intake tries for ever while the clock stands still. -/
def Paced (m : Intake) : Prop := Ingestor.Paced m.settings m.feed

/-- Every turn of every ingestor leaves less to do. -/
theorem ahead_lt_of_turnAt? (hpaced : m.Paced) (h : m.turnAt? i branch = some m') :
    m'.ahead < m.ahead ∧ m'.Paced := by
  rcases turnAt?_eq_some h with ⟨w, e, moved, hw, hmoved, rfl⟩
  have heases := Ingestor.eases_of_turn? hmoved
  refine ⟨?_, fun hbackoff hdelay => ?_⟩
  · -- The load and the term of this ingestor fall together, and no other term rises.
    have hless := Ingestor.ahead_lt_of_turn? hpaced hmoved
    have hsum := sum_map_set_le (b := moved.ingestor) hw
      (Ingestor.ahead_le_of_eases heases m.now)
    unfold ahead
    simp only [] at hsum ⊢
    omega
  · exact heases.controlled.trans (hpaced hbackoff (heases.delay.symm.trans hdelay))

/-- Before time passes no more turns can be taken than are ahead, in whichever order. -/
theorem length_turns_le {k k' : Chronicle} {turns : List (Nat × Ingestor.Branch)}
    (hpaced : k.intake.Paced) (h : k.run? (turns.map fun (i, b) => .turn i b) = some k') :
    turns.length + k'.intake.ahead ≤ k.intake.ahead := by
  induction turns generalizing k with
  | nil =>
      rw [← Option.some.inj h]
      exact Nat.le_of_eq (Nat.zero_add _)
  | cons turn rest ih =>
      rw [List.map_cons, Chronicle.run?] at h
      split at h
      · next next hnext =>
        rcases ahead_lt_of_turnAt? hpaced (turnAt?_of_step? hnext) with ⟨hless, hpaced'⟩
        have hrest := ih hpaced' h
        rw [List.length_cons]
        omega
      · exact absurd h (by simp only [reduceCtorEq, not_false_eq_true])

theorem ahead_le_enough (m : Intake) : m.ahead ≤ m.enough := by
  have hsum : (m.ingestors.map (Ingestor.ahead m.feed m.now)).sum ≤ m.ingestors.length * 8 := by
    have hmost := List.sum_le_card_nsmul (m.ingestors.map (Ingestor.ahead m.feed m.now)) 8
      (List.forall_mem_map.2 fun w _ => Ingestor.ahead_le m.feed m.now w)
    rw [List.length_map] at hmost
    exact hmost
  unfold ahead enough StagedFeed.load
  omega

/-- An intake that has settled is at rest. -/
theorem step?_settle (hpaced : m.Paced) : m.settle.step? = none := by
  suffices hrun : ∀ fuel m, Paced m → m.ahead ≤ fuel → (run fuel m).step? = none from
    hrun m.enough m hpaced m.ahead_le_enough
  intro fuel
  induction fuel with
  | zero =>
      intro m hpaced hnothing
      cases hstep : m.step? with
      | none => exact hstep
      | some m' =>
          rcases exists_turnAt? hstep with ⟨i, branch, hi⟩
          have hless := (ahead_lt_of_turnAt? hpaced hi).1
          omega
  | succ fuel ih =>
      intro m hpaced hle
      rw [run]
      split
      · next m' hstep =>
        rcases exists_turnAt? hstep with ⟨i, branch, hi⟩
        rcases ahead_lt_of_turnAt? hpaced hi with ⟨hless, hpaced'⟩
        exact ih m' hpaced' (by omega)
      · next hrest => exact hrest

end Intake

end Bourse
