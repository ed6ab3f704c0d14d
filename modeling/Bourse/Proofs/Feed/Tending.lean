import Bourse.Feed.Staged
import Mathlib.Data.List.Basic

/-!
# Tending a Feed

A feed has an owner, who sends ticks through its connections, closes them and decides
how the next attempts end. Nothing that the owner does takes a tick back or touches the
receiving end of a connection: the ticks under way are those that were there before and
then the one sent, if it was sent.

## Main definitions

* `StagedFeed.Tending`, `StagedFeed.tend`: what the owner does, and the feed after it.
* `StagedFeed.sends`: the ticks that go out through a connection by it.

## Theorems

* `cases_of_connect`: an attempt adds a connection or none.
* `connection_tend`: what tending does to a connection.
* `sends_of_le`: nothing goes out through a connection that is not there.
-/

namespace Bourse

namespace StagedFeed

/-- What the owner of a feed does. -/
inductive Tending where
  | accept
  | send (connection : Nat) (tick : RawTick)
  | close (connection : Nat)
  | fail (attempts : Nat)
  | dropController
  /-- From now on attempts take another time. -/
  | pace (delay : Nat)
deriving DecidableEq

/-- The feed after its owner has done something. -/
def tend (f : StagedFeed) : Tending → StagedFeed
  | .accept => f.accept.2
  | .send c t => (f.send c t).2
  | .close c => f.close c
  | .fail n => f.fail n
  | .dropController => f.dropController
  | .pace delay => { f with delay }

/-- The ticks that go out through a connection when the owner does something. -/
def sends (f : StagedFeed) (c : Nat) : Tending → List RawTick
  | .send d t => if d = c ∧ (f.send d t).1 = .sent then [t] else []
  | _ => []

variable {f : StagedFeed} {c d : Nat} {x : Connection} {t : RawTick}

/-- What an attempt to connect does to the connections. -/
theorem cases_of_connect (f : StagedFeed) :
    (f.connect.1 = .ok f.connections.length ∧
      f.connect.2.connections = f.connections ++ [⟨[], true, true⟩]) ∨
    ((∃ e, f.connect.1 = .error e) ∧ f.connect.2.connections = f.connections) := by
  unfold connect
  simp only []
  split
  · exact Or.inr ⟨⟨_, rfl⟩, rfl⟩
  · split
    · exact Or.inl ⟨rfl, rfl⟩
    · exact Or.inr ⟨⟨_, rfl⟩, rfl⟩

theorem connection_change (f : StagedFeed) (c d : Nat) (g : Connection → Connection) :
    (f.change c g).connections[d]? =
      if c = d then (f.connections[d]?).map g else f.connections[d]? := by
  unfold change
  rw [List.getElem?_modify]
  split
  · rfl
  · exact Option.map_id'

theorem length_change (f : StagedFeed) (c : Nat) (g : Connection → Connection) :
    (f.change c g).connections.length = f.connections.length := List.length_modify _ _ _

/-- Letting go of the newest connection leaves the others as they were. -/
theorem isPrefix_release {g : StagedFeed} (h : g.connections = f.connections ++ [x]) :
    f.connections <+: (g.release f.connections.length).connections := by
  simp only [release, change, h, List.modify_eq_take_drop, List.take_left]
  exact List.prefix_append _ _

/-- What a send is: a tick that is sent goes to a connection whose receiver is there, and any other
leaves the feed as it was. -/
theorem cases_of_send (f : StagedFeed) (c : Nat) (t : RawTick) :
    (∃ x, f.connections[c]? = some x ∧ x.receiving = true ∧ f.send c t =
      (.sent, f.change c (fun x => { x with ticks := x.ticks ++ [t] }))) ∨
    ((f.send c t).1 ≠ .sent ∧ (f.send c t).2 = f) := by
  unfold send
  cases hheld : f.held? c with
  | none => exact Or.inr ⟨Sent.noConfusion, rfl⟩
  | some x =>
      have hx : f.connections[c]? = some x := by
        unfold held? at hheld
        split at hheld
        · exact (Option.filter_eq_some_iff.1 hheld).1
        · exact absurd hheld (by simp only [reduceCtorEq, not_false_eq_true])
      simp only []
      cases hreceiving : x.receiving with
      | false => exact Or.inr ⟨Sent.noConfusion, rfl⟩
      | true =>
          simp only [Bool.not_true, Bool.false_eq_true, if_false]
          split
          · exact Or.inl ⟨x, hx, hreceiving, rfl⟩
          · exact Or.inr ⟨Sent.noConfusion, rfl⟩

/-- Tending leaves the receiving end of a connection alone and adds the ticks sent to those under
way; none are sent to a receiver who has left. -/
theorem connection_tend (t : Tending) (h : f.connections[c]? = some x) :
    ∃ y, (f.tend t).connections[c]? = some y ∧ y.receiving = x.receiving ∧
      y.ticks = x.ticks ++ f.sends c t ∧ (x.receiving = false → f.sends c t = []) := by
  cases t with
  | accept =>
      refine ⟨x, ?_, rfl, (List.append_nil _).symm, fun _ => rfl⟩
      simp only [tend, accept]
      split
      · exact h
      · exact h
  | send d t =>
      rcases cases_of_send f d t with ⟨z, hz, hreceiving, hsend⟩ | ⟨hnot, hsame⟩
      · simp only [tend, sends, hsend, connection_change, and_true]
        by_cases hd : d = c
        · subst hd
          rw [if_pos rfl, if_pos rfl, h]
          rw [h] at hz
          refine ⟨_, rfl, rfl, rfl, fun hleft => ?_⟩
          rw [Option.some.inj hz, hreceiving] at hleft
          exact absurd hleft (by simp only [reduceCtorEq, not_false_eq_true])
        · rw [if_neg hd, if_neg hd]
          exact ⟨x, h, rfl, (List.append_nil _).symm, fun _ => rfl⟩
      · simp only [tend, sends, hsame, hnot, and_false, if_false]
        exact ⟨x, h, rfl, (List.append_nil _).symm, fun _ => trivial⟩
  | close d =>
      simp only [tend, close, sends, connection_change, h]
      split
      · exact ⟨_, rfl, rfl, (List.append_nil _).symm, fun _ => trivial⟩
      · exact ⟨x, rfl, rfl, (List.append_nil _).symm, fun _ => trivial⟩
  | fail n =>
      refine ⟨x, ?_, rfl, (List.append_nil _).symm, fun _ => rfl⟩
      simp only [tend, fail]
      split
      · exact h
      · exact h
  | dropController =>
      simp only [tend, dropController, sends, List.getElem?_mapIdx, h, Option.map_some]
      split
      · exact ⟨x, rfl, rfl, (List.append_nil _).symm, fun _ => trivial⟩
      · exact ⟨_, rfl, rfl, (List.append_nil _).symm, fun _ => trivial⟩
  | pace delay => exact ⟨x, h, rfl, (List.append_nil _).symm, fun _ => rfl⟩

theorem length_tend (f : StagedFeed) (t : Tending) :
    (f.tend t).connections.length = f.connections.length := by
  cases t with
  | accept =>
      simp only [tend, accept]
      split
      · rfl
      · rfl
  | send d t =>
      rcases cases_of_send f d t with ⟨x, hx, hreceiving, hsend⟩ | ⟨hnot, hsame⟩
      · simp only [tend, hsend, length_change]
      · simp only [tend, hsame]
  | close d => simp only [tend, close, length_change]
  | fail n =>
      simp only [tend, fail]
      split
      · rfl
      · rfl
  | dropController => simp only [tend, dropController, List.length_mapIdx]
  | pace delay => rfl

theorem sends_of_le (t : Tending) (h : f.connections.length ≤ c) : f.sends c t = [] := by
  cases t with
  | send d t =>
      rcases cases_of_send f d t with ⟨x, hx, hreceiving, hsend⟩ | ⟨hnot, hsame⟩
      · have hlt := (List.getElem?_eq_some_iff.1 hx).1
        rw [sends, if_neg (fun hsent => by omega)]
      · rw [sends, if_neg (fun hsent => hnot hsent.2)]
  | _ => rfl

end StagedFeed

end Bourse
