import Bourse.Ingestor.Client
import Bourse.Proofs.Intake.Chronicle
import Bourse.Proofs.Time.Virtual
import Mathlib.Logic.Relation

/-!
# Chronicles of Clients

Everything that a client does to the intake, and all that happens while it waits, is a
run of a chronicle. The intake of a client looks at the stop before anything else, lets
the ingestors take their turns in order and settles before the clock moves on; a
chronicle may do so as well. So what is true after every run of every chronicle is true
of the intake of every client.

## Main definitions

* `Intake.Reaches`: where the steps of a chronicle lead from an intake.
* `IntakeClient.Action`, `IntakeClient.act`: what a client can do, and the feed meanwhile.

## Theorems

* `exists_turnAt?`: a step of the intake is a turn of one of its ingestors.
* `exists_run_of_reaches`: where the steps lead, a run leads.
* `reaches_settle`, `reaches_await`, `reaches_openStream`: what the intake does by itself.
* `exists_run_of_client`: whatever a client does, there is a run that leads there.
-/

namespace Bourse

/-- What is kept by one look at a stream is kept by looking on. -/
theorem drain_induction {α σ : Type} {next : σ → Received α × σ} (P : σ → Prop)
    (hnext : ∀ s, P s → P (next s).2) (fuel : Nat) (limit : Option Nat) {s : σ} (hs : P s) :
    P (drain next fuel limit s).2 := by
  induction fuel generalizing limit s with
  | zero => exact hs
  | succ fuel ih =>
      have hafter := hnext s hs
      rw [drain]
      split
      · exact hs
      cases hlook : next s with
      | mk r s' =>
          rw [hlook] at hafter
          cases r with
          | item a => exact ih (limit.map (· - 1)) hafter
          | pending => exact hafter
          | ended => exact hafter

namespace Intake

variable {m m' : Intake} {i : Nat} {branch : Ingestor.Branch}

/-! ## Steps and turns -/

/-- The step of an ingestor is the one of its two turns that is looked at first. -/
theorem stepAt?_eq_turnAt? (m : Intake) (i : Nat) :
    m.stepAt? i = (m.turnAt? i .stop).or (m.turnAt? i .goOn) := by
  unfold stepAt? turnAt?
  cases m.ingestors[i]? with
  | none => rfl
  | some w =>
      simp only [Option.bind_eq_bind, Option.bind_some, Ingestor.step?_eq_turn?]
      cases w.turn? m.settings m.now m.feed .stop with
      | some p => rfl
      | none =>
          cases w.turn? m.settings m.now m.feed .goOn with
          | some p => rfl
          | none => rfl

/-- A step of the intake is a turn of one of its ingestors. -/
theorem exists_turnAt? (h : m.step? = some m') : ∃ i branch, m.turnAt? i branch = some m' := by
  rcases List.exists_of_findSome?_eq_some h with ⟨i, -, hi⟩
  rw [stepAt?_eq_turnAt?, Option.or_eq_some_iff] at hi
  rcases hi with hi | ⟨-, hi⟩
  · exact ⟨i, _, hi⟩
  · exact ⟨i, _, hi⟩

/-- The turn of an ingestor in a chronicle is its turn at the intake. -/
theorem turnAt?_of_step? {k k' : Chronicle} (h : k.step? (.turn i branch) = some k') :
    k.intake.turnAt? i branch = some k'.intake := by
  simp only [Chronicle.step?] at h
  split at h
  · next w hw =>
    rcases Option.map_eq_some_iff.1 h with ⟨⟨e, moved⟩, hmoved, rfl⟩
    rw [turnAt?, hw, Option.bind_some, hmoved]
    rfl
  · exact absurd h (by simp only [reduceCtorEq, not_false_eq_true])

/-- What every turn keeps is kept while the intake settles. -/
theorem settle_induction (P : Intake → Prop)
    (hturn : ∀ m m' i branch, P m → m.turnAt? i branch = some m' → P m') (hm : P m) :
    P m.settle := by
  suffices hrun : ∀ fuel m, P m → P (run fuel m) from hrun m.enough m hm
  intro fuel
  induction fuel with
  | zero => exact fun m hm => hm
  | succ fuel ih =>
      intro m hm
      rw [run]
      split
      · next m' hstep =>
        rcases exists_turnAt? hstep with ⟨i, branch, hi⟩
        exact ih m' (hturn m m' i branch hm hi)
      · exact hm

theorem lawful_virtual : virtual.Lawful := by
  refine ⟨fun m => ?_, fun _ _ => rfl⟩
  refine settle_induction (fun m' => m'.now = m.now) (fun m₁ m₂ i branch hnow h => ?_) rfl
  rcases turnAt?_eq_some h with ⟨w, e, moved, -, -, rfl⟩
  exact hnow

theorem change_of_length_le (h : m.ingestors.length ≤ i) (g : Ingestor → Ingestor) :
    m.change i g = m := by
  rw [change, List.modify_eq_self h]

/-- Looking for a quote takes one or changes nothing. -/
theorem cases_of_receive (m : Intake) (i : Nat) :
    (∃ q m', m.receive i = (.item q, m')) ∨ (m.receive i).2 = m := by
  unfold receive
  cases hw : m.ingestors[i]? with
  | none => exact Or.inr rfl
  | some w =>
      simp only []
      unfold Ingestor.receive
      cases w.output with
      | cons q rest => exact Or.inl ⟨q, _, rfl⟩
      | nil =>
          have hsame : m.ingestors.set i w = m.ingestors := by
            rcases List.getElem?_eq_some_iff.1 hw with ⟨hlt, rfl⟩
            exact List.set_getElem_self hlt
          exact Or.inr (congrArg (fun l => { m with ingestors := l }) hsame)

/-! ## Where chronicles can go -/

/-- Every chronicle with the one intake has the other after some step. -/
def Leads (m m' : Intake) : Prop :=
  ∃ a : Action, ∀ k : Chronicle, k.intake = m → (k.step? a).map (·.intake) = some m'

/-- Some steps lead from the one intake to the other. -/
abbrev Reaches : Intake → Intake → Prop := Relation.ReflTransGen Leads

theorem exists_run_of_reaches (h : m.Reaches m') {k : Chronicle} (hk : k.intake = m) :
    ∃ actions k', k.run? actions = some k' ∧ k'.intake = m' := by
  induction h using Relation.ReflTransGen.head_induction_on generalizing k with
  | refl => exact ⟨[], k, rfl, hk⟩
  | head hstep _ ih =>
      rcases hstep with ⟨a, ha⟩
      rcases Option.map_eq_some_iff.1 (ha k hk) with ⟨k₁, hfirst, hk₁⟩
      rcases ih hk₁ with ⟨rest, k₂, hrest, hk₂⟩
      exact ⟨a :: rest, k₂, by rw [Chronicle.run?, hfirst]; exact hrest, hk₂⟩

theorem reaches_of_action (a : Action)
    (h : ∀ k : Chronicle, k.intake = m → (k.step? a).map (·.intake) = some m') : m.Reaches m' :=
  .single ⟨a, h⟩

theorem reaches_of_turnAt? (h : m.turnAt? i branch = some m') : m.Reaches m' := by
  rcases turnAt?_eq_some h with ⟨w, e, moved, hw, hmoved, rfl⟩
  refine reaches_of_action (.turn i branch) fun k hk => ?_
  subst hk
  simp only [Chronicle.step?, hw, hmoved, Option.map_some]
  rfl

theorem reaches_settle (m : Intake) : m.Reaches m.settle :=
  settle_induction m.Reaches (fun _ _ _ _ h hturn => h.trans (reaches_of_turnAt? hturn)) .refl

theorem reaches_moved {t : Nat} (h : m.now ≤ t) : m.Reaches { m with now := t } := by
  refine reaches_of_action (.wait (t - m.now)) fun k hk => ?_
  subst hk
  simp only [Chronicle.step?, Option.map_some, Nat.add_sub_cancel' h]

/-- Whatever is waited for, and however long. -/
theorem reaches_await (done : Intake → Bool) (ms : Nat) (m : Intake) :
    m.Reaches (virtual.await done ms m) :=
  Virtual.await_induction lawful_virtual m.Reaches (fun m' h => h.trans (reaches_settle m'))
    (fun _ _ hle h => h.trans (reaches_moved hle)) done ms (.refl)

theorem reaches_attempt (m : Intake) (fired : Bool) : m.Reaches (m.attempt fired).2 := by
  refine reaches_of_action (.open fired) fun k hk => ?_
  subst hk
  rw [Chronicle.step?]
  cases k.intake.attempt fired with
  | mk r m' =>
      cases r with
      | _ => rfl

theorem reaches_openStream (m : Intake) (fired : Bool) : m.Reaches (m.openStream fired).2 := by
  unfold openStream
  split
  · exact .refl
  · exact (reaches_await _ _ m).trans (reaches_attempt _ fired)

theorem reaches_tend (m : Intake) (t : StagedFeed.Tending) :
    m.Reaches { m with feed := m.feed.tend t } :=
  reaches_of_action (.tend t) fun k hk => by rw [Chronicle.step?, hk]; rfl

/-- Looking for a quote takes one or changes nothing. -/
theorem reaches_receive (m : Intake) (i : Nat) : m.Reaches (m.receive i).2 := by
  rcases cases_of_receive m i with ⟨q, m', hitem⟩ | hsame
  · refine reaches_of_action (.receive i) fun k hk => ?_
    subst hk
    rw [hitem]
    simp only [Chronicle.step?, hitem]
    rfl
  · rw [hsame]

/-- The consumer of an ingestor leaves, if there is such an ingestor. -/
theorem reaches_leave (m : Intake) (i : Nat) :
    m.Reaches (m.change i (fun w => { w with consumed := false })) := by
  by_cases hi : i < m.ingestors.length
  · refine reaches_of_action (.leave i) fun k hk => ?_
    subst hk
    rw [Chronicle.step?, if_pos hi]
    rfl
  · rw [change_of_length_le (Nat.le_of_not_lt hi)]

theorem reaches_tell (m : Intake) (i : Nat) :
    m.Reaches (m.change i (fun w => { w with stopped := true })) := by
  by_cases hi : i < m.ingestors.length
  · refine reaches_of_action (.tell i) fun k hk => ?_
    subst hk
    rw [Chronicle.step?, if_pos hi]
    rfl
  · rw [change_of_length_le (Nat.le_of_not_lt hi)]

/-- All ingestors can be told to stop, one after the other. -/
theorem reaches_stop (m : Intake) :
    m.Reaches { m with ingestors := m.ingestors.map (fun w => { w with stopped := true }) } := by
  -- On the ingestors still to be told, behind those who have been told.
  suffices htell : ∀ rest front, ({ m with ingestors := front ++ rest } : Intake).Reaches
      { m with ingestors := front ++ rest.map (fun w => { w with stopped := true }) } from
    htell m.ingestors []
  intro rest
  induction rest with
  | nil => exact fun front => .refl
  | cons w rest ih =>
      intro front
      have hmodify : (front ++ w :: rest).modify front.length
          (fun w => { w with stopped := true }) = front ++ { w with stopped := true } :: rest :=
        List.modifyTailIdx_add _ 0 front (w :: rest)
      have hnext := reaches_tell { m with ingestors := front ++ w :: rest } front.length
      rw [change, hmodify] at hnext
      have hrest := ih (front ++ [{ w with stopped := true }])
      rw [← List.append_cons, ← List.append_cons] at hrest
      exact hnext.trans hrest

end Intake

/-! ## What clients do -/

/-- What a client can do, and the feed meanwhile. -/
inductive IntakeClient.Action where
  | connect
  | drop
  | stop
  | settle
  | wait (ms : Nat)
  | drain (limit : Option Nat)
  /-- Waits for the next quote. -/
  | next (ms : Nat)
  | tend (t : StagedFeed.Tending)
deriving DecidableEq

namespace IntakeClient

/-- The client after something has been done. -/
def act (c : IntakeClient) : Action → IntakeClient
  | .connect => c.connect.2
  | .drop => c.drop.2
  | .stop => c.stop
  | .settle => c.settle
  | .wait ms => c.wait ms
  | .drain limit => ((c.drain? limit).map (·.2)).getD c
  | .next ms => ((c.next? ms).map (·.2)).getD c
  | .tend t => { c with intake := { c.intake with feed := c.intake.feed.tend t } }

def after (c : IntakeClient) (actions : List Action) : IntakeClient := actions.foldl act c

theorem reaches_drop (c : IntakeClient) : c.intake.Reaches c.drop.2.intake := by
  unfold drop
  split
  · exact .refl
  · exact Intake.reaches_leave _ _

theorem reaches_connect (c : IntakeClient) : c.intake.Reaches c.connect.2.intake := by
  have hopen := Intake.reaches_openStream c.intake c.stopped
  unfold connect
  cases hopening : c.intake.openStream c.stopped with
  | mk r m =>
      rw [hopening] at hopen
      cases r with
      | opened i => exact hopen.trans (reaches_drop { c with intake := m })
      | _ => exact hopen

theorem reaches_receive (c : IntakeClient) (i : Nat) :
    c.intake.Reaches (c.receive i).2.intake :=
  (Intake.reaches_receive c.intake i).trans (Intake.reaches_settle _)

theorem reaches_act (c : IntakeClient) (a : Action) : c.intake.Reaches (c.act a).intake := by
  cases a with
  | connect => exact reaches_connect c
  | drop => exact reaches_drop c
  | stop => exact Intake.reaches_stop c.intake
  | settle => exact Intake.reaches_settle c.intake
  | wait ms => exact Intake.reaches_await _ ms c.intake
  | drain limit =>
      unfold act drain?
      cases c.held with
      | none => exact .refl
      | some i =>
          exact drain_induction (fun c' => c.intake.Reaches c'.intake)
            (fun c' h => h.trans (reaches_receive c' i)) _ limit .refl
  | next ms =>
      unfold act next?
      cases c.held with
      | none => exact .refl
      | some i =>
          exact (Intake.reaches_await _ ms c.intake).trans
            (reaches_receive { c with intake := Intake.virtual.await _ ms c.intake } i)
  | tend t => exact Intake.reaches_tend c.intake t

/-- Whatever a client does, there is a run that leads to the same intake. -/
theorem exists_run_of_client (settings : IngestorSettings) (buffer delay failures : Nat)
    (done : List Action) : ∃ actions k,
      (Chronicle.opened settings buffer delay failures).run? actions = some k ∧
      k.intake = ((create settings (.create buffer delay failures)).after done).intake := by
  suffices hafter : ∀ c : IntakeClient, c.intake.Reaches (c.after done).intake from
    Intake.exists_run_of_reaches (hafter (create settings (.create buffer delay failures))) rfl
  induction done with
  | nil => exact fun c => .refl
  | cons a rest ih => exact fun c => (reaches_act c a).trans (ih (c.act a))

end IntakeClient

end Bourse
