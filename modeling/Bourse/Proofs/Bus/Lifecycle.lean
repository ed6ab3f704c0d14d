import Bourse.Proofs.Bus.Roll
import Mathlib.Data.List.Induction

/-!
# The Life of a Broadcast

A bus opens empty, and lives from its first subscriber to its last, or to the end of the
stream that it dispatches. Whoever looks from outside can know this from what was asked
and answered: a *register* holds the numbers that were given out and strikes those who
unsubscribe or drop their subscriptions. It is never read by the bus.

Subscribers come and go, quotes come in and are dispatched or published directly, and
the stream ends, in any order. The dispatch takes its steps when it likes; that the
stream has ended is nothing to the bus before the dispatch has found it out.

## Main definitions

* `Broadcast.Action`, `Broadcast.act`, `Broadcast.after`: what can happen while the bus
  has an owner.
* `Register`: who came and who is still there, seen from outside.
* `Register.closing`: what closes a bus.

## Theorems

* `roll_act`: what happens is one of four things to the roll.
* `attended_act`: the register agrees with the roll of an open bus.
* `closed_after_iff`: the bus is closed exactly when something has closed it.
* `lifecycle_of_run`: the life of a bus.
* `run_eq_after`: however long the dispatch goes on, it takes steps of this kind.
-/

namespace Bourse

/-- What can happen to a broadcast whose bus has an owner. -/
inductive Broadcast.Action where
  | subscribe
  | unsubscribe (id : Nat)
  | drop (id : Nat)
  | receive (id : Nat)
  /-- A quote is published that was not in the stream. -/
  | publish (q : Quote)
  | send (quotes : List Quote)
  /-- The stream ends. -/
  | finish
  /-- The dispatch takes a step, if it can. -/
  | dispatch
deriving DecidableEq

namespace Broadcast

/-- The broadcast after something has happened. -/
def act (b : Broadcast) : Action → Broadcast
  | .subscribe =>
    match b.subscribe with
    | some (_, b) => b
    | none => b
  | .unsubscribe id => b.unsubscribe id
  | .drop id => b.drop id
  | .receive id => (b.receive id).2
  | .publish q => { b with bus := b.bus.publish q }
  | .send quotes => (b.send quotes).2
  | .finish => b.finish
  | .dispatch => b.dispatch?.getD b

def after (b : Broadcast) (actions : List Action) : Broadcast := actions.foldl act b

/-- Whether the dispatch finds the end of the stream when it looks for the next quote. -/
def findsEnd (b : Broadcast) : Bool := b.dispatching && b.awaiting.isEmpty && !b.isOpen

end Broadcast

/-- Who came to a bus and who is still there, by requests and answers alone. -/
structure Register where
  /-- The numbers that were given out, oldest first. -/
  given : List Nat
  /-- Those of them that were neither unsubscribed nor dropped. -/
  here : List Nat
deriving DecidableEq

namespace Register

open Broadcast (Action)

/-- Nobody has come. -/
def empty : Register := ⟨[], []⟩

/-- The register after something has happened to a broadcast. -/
def note (b : Broadcast) (r : Register) : Action → Register
  | .subscribe =>
    match b.subscribe with
    | some (id, _) => ⟨r.given ++ [id], r.here ++ [id]⟩
    | none => r
  | .unsubscribe id | .drop id => { r with here := r.here.filter (fun j => j ≠ id) }
  | _ => r

/-- The register after all that has happened. -/
def along (b : Broadcast) (r : Register) : List Action → Register
  | [] => r
  | a :: rest => along (b.act a) (r.note b a) rest

/-- Whether the bus is closed by what happens: the dispatch finds the end of the stream, or the last
one who is there leaves. -/
def closing (b : Broadcast) (r : Register) : Action → Prop
  | .dispatch => b.findsEnd = true
  | .unsubscribe id | .drop id => r.here = [id]
  | _ => False

theorem along_concat (b : Broadcast) (r : Register) (actions : List Action) (a : Action) :
    along b r (actions ++ [a]) = (along b r actions).note (b.after actions) a := by
  induction actions generalizing b r with
  | nil => rfl
  | cons first rest ih => exact ih (b.act first) (r.note b first)

end Register

namespace Broadcast

variable {b : Broadcast} {r : Register}

theorem after_concat (b : Broadcast) (actions : List Action) (a : Action) :
    b.after (actions ++ [a]) = (b.after actions).act a :=
  List.foldl_append

theorem after_append (b : Broadcast) (actions more : List Action) :
    b.after (actions ++ more) = (b.after actions).after more :=
  List.foldl_append

/-! ## Steps -/

/-- The dispatch closes the bus when it finds the end of the stream, and changes nothing else on the
roll. -/
theorem roll_dispatch (b : Broadcast) :
    (b.dispatch?.getD b).bus.roll = if b.findsEnd then b.bus.roll.close else b.bus.roll := by
  unfold dispatch? findsEnd
  cases hdispatching : b.dispatching with
  | false => rfl
  | true =>
      cases hclosed : b.bus.closed with
      | true =>
          have hsame : b.bus.roll.close = b.bus.roll := if_pos hclosed
          simp only [hsame, ite_self]
          rfl
      | false =>
          cases hawaiting : b.awaiting with
          | cons q rest => exact Bus.roll_publish b.bus q
          | nil =>
              cases hopen : b.isOpen with
              | true => rfl
              | false => exact Bus.roll_close b.bus

/-- What the roll becomes when something happens. -/
def rollAfter (b : Broadcast) : Action → Roll
  | .subscribe => b.bus.roll.join
  | .unsubscribe id | .drop id => b.bus.roll.leave id
  | .dispatch => if b.findsEnd then b.bus.roll.close else b.bus.roll
  | _ => b.bus.roll

theorem subscribe_eq_some {id : Nat} {b' : Broadcast} (h : b.subscribe = some (id, b')) :
    b.bus.closed = false ∧ id = b.bus.nextId ∧ b'.bus.roll = b.bus.roll.join := by
  unfold subscribe at h
  split at h
  · rcases Option.map_eq_some_iff.1 h with ⟨⟨j, bus⟩, hbus, heq⟩
    rcases Prod.mk.inj heq with ⟨rfl, rfl⟩
    exact Bus.roll_subscribe hbus
  · exact absurd h (by simp only [reduceCtorEq, not_false_eq_true])

theorem subscribe_eq_none (howned : b.owned = true) : b.subscribe = none ↔ b.bus.closed = true := by
  rw [subscribe, if_pos howned, Option.map_eq_none_iff, Bus.subscribe_eq_none_iff]

/-- Whatever happens is one of four things to the roll: someone comes, someone leaves, all leave
together, or nothing. -/
theorem roll_act (howned : b.owned = true) (a : Action) : (b.act a).bus.roll = b.rollAfter a := by
  cases a with
  | subscribe =>
      simp only [act]
      split
      · next h => exact (subscribe_eq_some h).2.2
      · next h => exact (if_pos ((subscribe_eq_none howned).1 h)).symm
  | unsubscribe id =>
      rw [act, unsubscribe, if_pos howned]
      exact Bus.roll_unsubscribe b.bus id
  | drop id => exact Bus.roll_drop b.bus id
  | receive id => exact Bus.roll_receive b.bus id
  | publish q => exact Bus.roll_publish b.bus q
  | send quotes =>
      simp only [act, send]
      split
      · rfl
      · rfl
  | finish => rfl
  | dispatch => exact roll_dispatch b

theorem owned_act (howned : b.owned = true) (a : Action) : (b.act a).owned = true := by
  cases a with
  | subscribe =>
      simp only [act, subscribe, if_pos howned]
      cases b.bus.subscribe with
      | none => exact howned
      | some r => exact howned
  | unsubscribe id =>
      rw [act, unsubscribe, if_pos howned]
      exact howned
  | send quotes =>
      simp only [act, send]
      split
      · exact howned
      · exact howned
  | dispatch =>
      unfold act dispatch?
      cases b.dispatching with
      | false => exact howned
      | true =>
          cases b.bus.closed with
          | true => exact howned
          | false =>
              cases b.awaiting with
              | cons q rest => exact howned
              | nil =>
                  cases b.isOpen with
                  | true => exact howned
                  | false => exact howned
  | _ => exact howned

/-- The register agrees with the roll: all numbers were given out in order, and as long as the bus is
open those are there who have not left. -/
structure Attended (b : Broadcast) (r : Register) : Prop where
  owned : b.owned = true
  sound : b.bus.roll.Sound
  given : r.given = List.range b.bus.roll.next
  among : r.here.Sublist r.given
  here : b.bus.closed = false → b.bus.roll.here = r.here

theorem attended_create (capacity : Nat) : (create capacity).Attended .empty :=
  ⟨rfl, Roll.sound_opened, rfl, List.Sublist.refl _, fun _ => rfl⟩

theorem attended_act (h : b.Attended r) (a : Action) : (b.act a).Attended (r.note b a) := by
  have hroll := roll_act h.owned a
  have hclosed : (b.act a).bus.closed = (b.rollAfter a).closed := congrArg Roll.closed hroll
  -- Where neither the roll nor the register changes, nothing is to be shown.
  have hsame : (b.act a).bus.roll = b.bus.roll → r.note b a = r →
      (b.act a).Attended (r.note b a) := by
    intro heq hnote
    rw [hnote]
    refine ⟨owned_act h.owned a, heq ▸ h.sound, ?_, h.among, fun hopen => ?_⟩
    · rw [heq, h.given]
    · rw [heq]
      exact h.here ((congrArg Roll.closed heq).symm.trans hopen)
  have hleave : ∀ id, b.rollAfter a = b.bus.roll.leave id →
      r.note b a = { r with here := r.here.filter (fun j => j ≠ id) } →
      (b.act a).Attended (r.note b a) := by
    intro id hafter hnote
    rw [hafter] at hroll hclosed
    rw [hnote]
    refine ⟨owned_act h.owned a, hroll ▸ Roll.sound_leave h.sound id, ?_,
      List.filter_sublist.trans h.among, fun hopen => ?_⟩
    · rw [hroll, Roll.next_leave, h.given]
    · rw [hclosed] at hopen
      rcases Roll.here_leave hopen with ⟨hbefore, hhere⟩
      rw [hroll, hhere, h.here hbefore]
  cases a with
  | subscribe =>
      cases hnew : b.subscribe with
      | none =>
          have hbefore := (subscribe_eq_none h.owned).1 hnew
          refine hsame (hroll.trans (if_pos hbefore)) ?_
          simp only [Register.note, hnew]
      | some p =>
          rcases p with ⟨id, b'⟩
          rcases subscribe_eq_some hnew with ⟨hbefore, rfl, -⟩
          have hjoin : b.bus.roll.join = { b.bus.roll with
              here := b.bus.roll.here ++ [b.bus.nextId], next := b.bus.nextId + 1 } :=
            if_neg (by rw [show b.bus.roll.closed = false from hbefore]; exact Bool.false_ne_true)
          have hsound := Roll.sound_join h.sound
          rw [← show b.rollAfter .subscribe = b.bus.roll.join from rfl, ← hroll] at hsound
          simp only [Register.note, hnew]
          refine ⟨owned_act h.owned _, hsound, ?_,
            List.Sublist.append h.among (List.Sublist.refl _),
            fun _ => ?_⟩
          · rw [hroll, rollAfter, hjoin, h.given]
            exact List.range_succ.symm
          · rw [hroll, rollAfter, hjoin, h.here hbefore]
  | unsubscribe id => exact hleave id rfl rfl
  | drop id => exact hleave id rfl rfl
  | dispatch =>
      refine ⟨owned_act h.owned _, ?_, ?_, h.among, fun hopen => ?_⟩
      · rw [hroll, rollAfter]
        split
        · exact Roll.sound_close h.sound
        · exact h.sound
      · rw [hroll, rollAfter]
        split
        · rw [Roll.next_close]
          exact h.given
        · exact h.given
      · rw [hclosed, rollAfter] at hopen
        rw [hroll, rollAfter]
        split
        · next hfinds =>
          rw [if_pos hfinds, Roll.closed_close] at hopen
          exact absurd hopen (by simp only [Bool.true_eq_false, not_false_eq_true])
        · next hfinds =>
          rw [if_neg hfinds] at hopen
          exact h.here hopen
  | _ => exact hsame hroll rfl

theorem attended_after (capacity : Nat) (actions : List Action) :
    ((create capacity).after actions).Attended
      (Register.along (create capacity) .empty actions) := by
  -- On the actions from the last one, for the register is kept from the first.
  induction actions using List.reverseRecOn with
  | nil => exact attended_create capacity
  | append_singleton rest a ih =>
      rw [after_concat, Register.along_concat]
      exact attended_act ih a

/-- A step closes the bus, or it was closed before, or it is open. -/
theorem closed_act_iff (h : b.Attended r) (a : Action) :
    (b.act a).bus.closed = true ↔ b.bus.closed = true ∨ r.closing b a := by
  have hroll : (b.act a).bus.closed = (b.rollAfter a).closed :=
    congrArg Roll.closed (roll_act h.owned a)
  have hleave : ∀ id, (b.bus.roll.leave id).closed = true ↔
      b.bus.closed = true ∨ r.here = [id] := by
    intro id
    rw [Roll.closed_leave h.sound]
    cases hclosed : b.bus.closed with
    | true => exact ⟨fun _ => Or.inl rfl, fun _ => Or.inl hclosed⟩
    | false => rw [h.here hclosed, show b.bus.roll.closed = false from hclosed]
  rw [hroll]
  cases a with
  | subscribe =>
      have hjoin : b.bus.roll.join.closed = b.bus.closed := by
        unfold Roll.join
        split
        · rfl
        · rfl
      rw [rollAfter, hjoin]
      exact (iff_of_eq (or_false _)).symm
  | unsubscribe id => exact hleave id
  | drop id => exact hleave id
  | dispatch =>
      rw [rollAfter, Register.closing]
      split
      · next hfinds => exact ⟨fun _ => Or.inr hfinds, fun _ => Roll.closed_close _⟩
      · next hfinds => exact ⟨Or.inl, fun hor => hor.resolve_right hfinds⟩
  | _ => exact (iff_of_eq (or_false _)).symm

/-! ## The life of a bus -/

/-- The bus is closed exactly when something has closed it. -/
theorem closed_after_iff (capacity : Nat) (actions : List Action) :
    ((create capacity).after actions).bus.closed = true ↔
      ∃ before a, before ++ [a] <+: actions ∧
        (Register.along (create capacity) .empty before).closing
          ((create capacity).after before) a := by
  induction actions using List.reverseRecOn with
  | nil =>
      refine ⟨fun h => Bool.noConfusion h, fun ⟨before, a, hprefix, _⟩ => ?_⟩
      have hnil := List.prefix_nil.1 hprefix
      exact absurd hnil (List.append_ne_nil_of_right_ne_nil _ (List.cons_ne_nil _ _))
  | append_singleton rest last ih =>
      rw [after_concat, closed_act_iff (attended_after capacity rest), ih]
      constructor
      · rintro (⟨before, a, hprefix, hcloses⟩ | hcloses)
        · exact ⟨before, a, hprefix.trans (List.prefix_append _ _), hcloses⟩
        · exact ⟨rest, last, List.prefix_refl _, hcloses⟩
      · rintro ⟨before, a, hprefix, hcloses⟩
        rcases List.prefix_concat_iff.1 hprefix with hall | hsome
        · rcases List.append_inj' hall rfl with ⟨rfl, hlast⟩
          rw [List.singleton_inj.1 hlast] at hcloses
          exact Or.inr hcloses
        · exact Or.inl ⟨before, a, hsome, hcloses⟩

/-- A closed bus stays closed, whatever happens. -/
theorem closed_after (h : b.bus.closed = true) (howned : b.owned = true) (actions : List Action) :
    (b.after actions).bus.closed = true ∧ (b.after actions).owned = true := by
  induction actions generalizing b with
  | nil => exact ⟨h, howned⟩
  | cons a rest ih =>
      refine ih ?_ (owned_act howned a)
      have hroll : (b.act a).bus.closed = (b.rollAfter a).closed :=
        congrArg Roll.closed (roll_act howned a)
      have hclosed : b.bus.roll.closed = true := h
      rw [hroll]
      cases a with
      | subscribe => rw [rollAfter, Roll.join, if_pos hclosed, hclosed]
      | unsubscribe id => exact Roll.closed_leave_of_closed hclosed id
      | drop id => exact Roll.closed_leave_of_closed hclosed id
      | dispatch =>
          rw [rollAfter]
          split
          · exact Roll.closed_close _
          · exact hclosed
      | _ => exact hclosed

/-- A broadcast of some capacity, after anything that can happen while the bus has an owner, with the
register of those who came. The hook has run once if the bus is closed and not otherwise. On a closed
bus nobody is joined, now or later, and whoever subscribes is turned away. On an open bus those are
joined who have neither unsubscribed nor dropped their subscription, if anybody has come there is
one of them, and whoever subscribes gets a number that nobody has had. No number is given out twice; ending a subscription that is not there any more changes
nothing, nor does dropping one, apart from what its owner had not yet received. The bus is closed if
and only if at some moment the dispatch found the end of the stream or the last subscriber left. -/
theorem lifecycle_of_run (capacity : Nat) (actions : List Action) :
    let b := (create capacity).after actions
    let r := Register.along (create capacity) .empty actions
    b.bus.teardowns = (if b.bus.closed then 1 else 0) ∧
    (b.bus.closed = true → ∀ more, (b.after more).bus.closed = true ∧
      (b.after more).bus.count = 0 ∧ (b.after more).subscribe = none) ∧
    (b.bus.closed = false → b.bus.count = r.here.length ∧ (r.given ≠ [] → 1 ≤ b.bus.count) ∧
      ∃ id b', b.subscribe = some (id, b') ∧ id ∉ r.given) ∧
    r.given.Nodup ∧ r.here.Sublist r.given ∧
    (∀ id, id ∉ r.here ∨ b.bus.closed = true → b.unsubscribe id = b ∧
      (b.drop id).bus = { b.bus with
        subscriptions := b.bus.subscriptions.filter (fun s => s.id ≠ id) } ∧
      (b.drop id).bus.count = b.bus.count) ∧
    (b.bus.closed = true ↔ ∃ before a, before ++ [a] <+: actions ∧
      (Register.along (create capacity) .empty before).closing
        ((create capacity).after before) a) := by
  intro b r
  have hb : b.Attended r := attended_after capacity actions
  have hgiven : r.given.Nodup := hb.given ▸ List.nodup_range
  refine ⟨hb.sound.torn, fun hclosed more => ?_, fun hopen => ⟨?_, fun hcame => ?_, ?_⟩,
    hgiven, hb.among, fun id hid => ?_, closed_after_iff capacity actions⟩
  · rcases closed_after hclosed hb.owned more with ⟨hlater, howned⟩
    have hsound : (b.after more).bus.roll.Sound := by
      rw [← after_append]
      exact (attended_after capacity (actions ++ more)).sound
    refine ⟨hlater, ?_, (subscribe_eq_none howned).2 hlater⟩
    rw [Bus.count_eq_length, hsound.ended hlater]
    rfl
  · rw [Bus.count_eq_length, hb.here hopen]
  · rw [Bus.count_eq_length, Nat.one_le_iff_ne_zero, ne_eq, List.length_eq_zero_iff]
    refine hb.sound.attended hopen (fun hnext => hcame ?_)
    rw [hb.given, hnext]
    rfl
  · cases hnew : b.subscribe with
    | none => exact absurd (hopen.symm.trans ((subscribe_eq_none hb.owned).1 hnew)) Bool.false_ne_true
    | some answer =>
        rcases answer with ⟨id, b'⟩
        refine ⟨id, b', rfl, ?_⟩
        rw [(subscribe_eq_some hnew).2.1, hb.given]
        exact fun hmem => Nat.lt_irrefl _ (List.mem_range.1 hmem)
  · have hgone : id ∉ b.bus.roll.here := by
      cases hclosed : b.bus.closed with
      | true =>
          rw [hb.sound.ended hclosed]
          exact List.not_mem_nil
      | false =>
          rw [hb.here hclosed]
          exact hid.resolve_right (by rw [hclosed]; exact Bool.false_ne_true)
    have hsame := Bus.unsubscribe_of_not_mem hgone
    refine ⟨?_, ?_, ?_⟩
    · rw [unsubscribe, if_pos hb.owned, hsame]
    · rw [drop, Bus.drop, hsame]
    · rw [Bus.count_eq_length, Bus.count_eq_length, drop, Bus.roll_drop,
        Roll.leave_of_not_mem hgone]

/-- Two subscribers who drop their subscriptions after the stream has ended do not make the hook run
again. -/
example : ((create 16).after
    [.subscribe, .subscribe, .finish, .dispatch, .drop 0, .drop 1, .unsubscribe 1]).bus.teardowns =
      1 := by
  decide

/-- However long the dispatch goes on, it takes one step after another. -/
theorem run_eq_after (fuel : Nat) (b : Broadcast) :
    ∃ n, run fuel b = b.after (List.replicate n .dispatch) := by
  induction fuel generalizing b with
  | zero => exact ⟨0, rfl⟩
  | succ fuel ih =>
      rw [run]
      split
      · next b' hb' =>
        rcases ih b' with ⟨n, hn⟩
        refine ⟨n + 1, ?_⟩
        have hact : b.act .dispatch = b' := by rw [act, hb', Option.getD_some]
        rw [hn, List.replicate_succ, ← hact]
        rfl
      · exact ⟨0, rfl⟩

end Broadcast

end Bourse
