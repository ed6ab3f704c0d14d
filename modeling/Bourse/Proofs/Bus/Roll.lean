import Bourse.Proofs.Bus.Subscriptions

/-!
# The Roll of a Bus

Who is there, and whether the bus is open. A *roll* is what is left of a bus without its
quotes: the numbers of those who are joined, the number to give out next, whether the bus
is closed, and how often its hook has run. What is done to a bus is one of four things to
its roll. Someone comes, someone leaves, all leave together, or nothing happens; whether
the subscription was ended or dropped makes no difference.

Three ways lead to a closed bus and all of them go through `Roll.close`, which does
nothing the second time. So the hook runs when the bus closes and never again.

## Main definitions

* `Roll`: who is there.
* `Roll.join`, `Roll.leave`, `Roll.close`: what can happen to it.
* `Roll.Sound`: what is true of every roll.
* `Bus.roll`: the roll of a bus.

## Theorems

* `Roll.sound_join`, `Roll.sound_leave`, `Roll.sound_close`: rolls stay sound.
* `Roll.closed_leave`: who closes the bus by leaving.
* `Bus.roll_subscribe`, `Bus.roll_unsubscribe` and so on: the roll after an operation.
-/

namespace Bourse

/-- Who is joined to a bus, and whether it is open. -/
structure Roll where
  /-- The numbers of those who are joined, first come first. -/
  here : List Nat
  next : Nat
  closed : Bool
  teardowns : Nat
deriving DecidableEq

namespace Roll

/-- The roll before anybody has come. -/
def opened : Roll := ⟨[], 0, false, 0⟩

/-- Somebody comes, unless it is closed. -/
def join (r : Roll) : Roll :=
  if r.closed then r else { r with here := r.here ++ [r.next], next := r.next + 1 }

/-- All leave together. -/
def close (r : Roll) : Roll :=
  if r.closed then r else { r with here := [], closed := true, teardowns := r.teardowns + 1 }

/-- The roll without one of those who are there. -/
def without (r : Roll) (id : Nat) : Roll := { r with here := r.here.filter (fun j => j ≠ id) }

/-- Somebody leaves, if still there, and the last one closes it. -/
def leave (r : Roll) (id : Nat) : Roll :=
  if id ∈ r.here then
    if (r.without id).here = [] then (r.without id).close else r.without id
  else r

/-- A roll on which each number stands once, in the order in which they were given out, nobody is
there when it is closed, the hook has run if it is closed, and somebody is there if it is not and
anybody has come. -/
structure Sound (r : Roll) : Prop where
  given : r.here.Sublist (List.range r.next)
  ended : r.closed = true → r.here = []
  torn : r.teardowns = if r.closed then 1 else 0
  attended : r.closed = false → r.next ≠ 0 → r.here ≠ []

theorem sound_opened : opened.Sound :=
  ⟨List.Sublist.refl _, fun _ => rfl, rfl, fun _ h => absurd rfl h⟩

variable {r : Roll} {id : Nat}

theorem Sound.nodup (hr : r.Sound) : r.here.Nodup :=
  List.nodup_range.sublist hr.given

theorem Sound.lt_next (hr : r.Sound) (h : id ∈ r.here) : id < r.next :=
  List.mem_range.1 (hr.given.subset h)

theorem sound_join (hr : r.Sound) : r.join.Sound := by
  unfold join
  split
  · exact hr
  · next hopen =>
    refine ⟨?_, fun hclosed => absurd hclosed hopen, hr.torn, fun _ _ => ?_⟩
    · rw [List.range_succ]
      exact List.Sublist.append hr.given (List.Sublist.refl _)
    · exact List.append_ne_nil_of_right_ne_nil _ (List.cons_ne_nil _ _)

/-- Whoever is on it, an open roll on which the hook has not run is sound when it is closed. -/
theorem sound_closed (hopen : r.closed = false) (htorn : r.teardowns = 0) : r.close.Sound := by
  rw [close, if_neg (by rw [hopen]; exact Bool.false_ne_true), htorn]
  exact ⟨List.nil_sublist _, fun _ => rfl, rfl, fun hclosed => Bool.noConfusion hclosed⟩

theorem Sound.teardowns_eq (hr : r.Sound) (hopen : r.closed = false) : r.teardowns = 0 := by
  rw [hr.torn, hopen, if_neg Bool.false_ne_true]

theorem sound_close (hr : r.Sound) : r.close.Sound := by
  cases hclosed : r.closed with
  | false => exact sound_closed hclosed (hr.teardowns_eq hclosed)
  | true =>
      rw [close, if_pos hclosed]
      exact hr

theorem closed_close (r : Roll) : r.close.closed = true := by
  unfold close
  split
  · next h => exact h
  · rfl

theorem next_close (r : Roll) : r.close.next = r.next := by
  unfold close
  split
  · rfl
  · rfl

theorem next_leave (r : Roll) (id : Nat) : (r.leave id).next = r.next := by
  unfold leave
  split
  · split
    · exact next_close _
    · rfl
  · rfl

theorem sound_leave (hr : r.Sound) (id : Nat) : (r.leave id).Sound := by
  unfold leave
  split
  · next hmem =>
    -- It is open, or nobody would be there to leave it.
    have hopen : r.closed = false := by
      by_contra hclosed
      rw [Bool.not_eq_false] at hclosed
      rw [hr.ended hclosed] at hmem
      exact absurd hmem List.not_mem_nil
    split
    · exact sound_closed (r := r.without id) hopen (hr.teardowns_eq hopen)
    · next hsome =>
      refine ⟨List.filter_sublist.trans hr.given, fun hclosed => ?_, hr.torn, fun _ _ => hsome⟩
      rw [show (r.without id).closed = r.closed from rfl, hopen] at hclosed
      exact absurd hclosed Bool.false_ne_true
  · exact hr

/-- A roll is closed by the one who leaves when nobody else is there. -/
theorem closed_leave (hr : r.Sound) (id : Nat) :
    (r.leave id).closed = true ↔ r.closed = true ∨ r.here = [id] := by
  have halone : id ∈ r.here → ((r.without id).here = [] ↔ r.here = [id]) := by
    intro hmem
    have hcount := List.count_eq_one_of_mem hr.nodup hmem
    unfold without
    rw [List.filter_eq_nil_iff]
    refine ⟨fun hall => ?_, fun heq j hj => ?_⟩
    · have hsame : ∀ j ∈ r.here, j = id := fun j hj => by
        simpa only [ne_eq, decide_not, Bool.not_eq_true', decide_eq_false_iff_not, not_not]
          using hall j hj
      rw [List.eq_replicate_of_mem hsame, List.count_replicate_self] at hcount
      rw [List.eq_replicate_of_mem hsame, hcount, List.replicate_one]
    · rw [heq, List.mem_singleton] at hj
      simp only [hj, ne_eq, not_true_eq_false, decide_false, Bool.false_eq_true,
        not_false_eq_true]
  unfold leave
  split
  · next hmem =>
    split
    · next hnone => exact ⟨fun _ => Or.inr ((halone hmem).1 hnone), fun _ => closed_close _⟩
    · next hsome =>
      exact ⟨Or.inl, fun h => h.resolve_right (fun heq => hsome ((halone hmem).2 heq))⟩
  · next hmem =>
    refine ⟨Or.inl, fun h => h.resolve_right (fun heq => hmem ?_)⟩
    rw [heq]
    exact List.mem_singleton_self id

theorem closed_leave_of_closed (h : r.closed = true) (id : Nat) : (r.leave id).closed = true := by
  unfold leave
  split
  · split
    · exact closed_close _
    · exact h
  · exact h

/-- Who is not there changes nothing by leaving. -/
theorem leave_of_not_mem (h : id ∉ r.here) : r.leave id = r := if_neg h

/-- As long as nobody has closed it, a roll loses those who leave and no others. -/
theorem here_leave (h : (r.leave id).closed = false) :
    r.closed = false ∧ (r.leave id).here = r.here.filter (fun j => j ≠ id) := by
  unfold leave at h ⊢
  split at h
  · split at h
    · next hnone =>
      rw [closed_close] at h
      exact absurd h (by simp only [Bool.true_eq_false, not_false_eq_true])
    · next hmem hsome =>
      rw [if_pos hmem, if_neg hsome]
      exact ⟨h, rfl⟩
  · next hmem =>
    rw [if_neg hmem]
    refine ⟨h, (List.filter_eq_self.2 (fun j hj => ?_)).symm⟩
    rw [decide_eq_true_eq]
    exact fun heq => hmem (heq ▸ hj)

end Roll

namespace Bus

/-- The roll of a bus. -/
def roll (b : Bus) : Roll :=
  ⟨(b.subscriptions.filter (·.joined)).map (·.id), b.nextId, b.closed, b.teardowns⟩

variable {b b' : Bus} {id : Nat}

theorem count_eq_length (b : Bus) : b.count = b.roll.here.length := (List.length_map _).symm

theorem mem_roll_iff : id ∈ b.roll.here ↔ ∃ s ∈ b.subscriptions, s.id = id ∧ s.joined = true := by
  unfold roll
  rw [List.mem_map]
  simp only [List.mem_filter, and_assoc, and_comm (a := Subscription.id _ = id)]

theorem isJoined_iff : b.isJoined id = true ↔ id ∈ b.roll.here := by
  rw [mem_roll_iff, isJoined, List.any_eq_true]
  simp only [Bool.and_eq_true, decide_eq_true_eq]

/-- A change that leaves everybody's number and standing alone leaves the roll alone. -/
theorem roll_of_map (change : Subscription → Subscription)
    (hsubs : b'.subscriptions = b.subscriptions.map change) (hid : ∀ s, (change s).id = s.id)
    (hjoined : ∀ s, (change s).joined = s.joined) (hnext : b'.nextId = b.nextId)
    (hclosed : b'.closed = b.closed) (htorn : b'.teardowns = b.teardowns) : b'.roll = b.roll := by
  unfold roll
  rw [hsubs, hnext, hclosed, htorn, List.filter_map, List.map_map]
  simp only [Function.comp_def, hid, hjoined]

theorem roll_publish (b : Bus) (q : Quote) : (b.publish q).roll = b.roll := by
  unfold publish
  split
  · rfl
  · exact roll_of_map _ rfl (deliver_id _ q) (deliver_joined _ q) rfl rfl rfl

theorem roll_receive (b : Bus) (id : Nat) : (b.receive id).2.roll = b.roll := by
  unfold receive
  split
  · rfl
  · split
    · refine roll_of_map _ rfl (fun s => ?_) (fun s => ?_) rfl rfl rfl
      · split
        · rfl
        · rfl
      · split
        · rfl
        · rfl
    · rfl

theorem roll_subscribe (h : b.subscribe = some (id, b')) :
    b.closed = false ∧ id = b.nextId ∧ b'.roll = b.roll.join := by
  unfold subscribe at h
  split at h
  · exact absurd h (by simp only [reduceCtorEq, not_false_eq_true])
  · next hopen =>
    rcases Prod.mk.inj (Option.some.inj h) with ⟨rfl, rfl⟩
    refine ⟨Bool.not_eq_true _ ▸ hopen, rfl, ?_⟩
    rw [Roll.join, if_neg (show ¬ b.roll.closed = true from hopen)]
    unfold roll
    rw [List.filter_append, List.map_append]
    rfl

theorem subscribe_eq_none_iff : b.subscribe = none ↔ b.closed = true := by
  unfold subscribe
  split
  · next h => exact ⟨fun _ => h, fun _ => rfl⟩
  · next h =>
    exact ⟨fun hnone => absurd hnone (Option.some_ne_none _), fun hclosed => absurd hclosed h⟩

theorem roll_close (b : Bus) : b.close.roll = b.roll.close := by
  unfold close
  split
  · next h => rw [Roll.close, if_pos (show b.roll.closed = true from h)]
  · next h =>
    rw [Roll.close, if_neg (show ¬ b.roll.closed = true from h)]
    have hnobody : (b.subscriptions.map (fun s => { s with joined := false })).filter (·.joined) =
        [] := by
      rw [List.filter_map, List.map_eq_nil_iff, List.filter_eq_nil_iff]
      exact fun _ _ => Bool.false_ne_true
    unfold roll
    rw [hnobody]
    rfl

theorem roll_leave (b : Bus) (id : Nat) : (b.leave id).roll = b.roll.without id := by
  unfold leave edit roll Roll.without
  simp only [Roll.mk.injEq, and_true]
  induction b.subscriptions with
  | nil => rfl
  | cons s rest ih =>
      by_cases hid : s.id = id
      · by_cases hjoined : s.joined = true
        · simp [hid, hjoined, ih]
        · simp [hid, hjoined, ih]
      · by_cases hjoined : s.joined = true
        · simp [hid, hjoined, ih]
        · simp [hid, hjoined, ih]

theorem roll_unsubscribe (b : Bus) (id : Nat) : (b.unsubscribe id).roll = b.roll.leave id := by
  rw [unsubscribe_eq, Roll.leave]
  by_cases hmem : id ∈ b.roll.here
  · have hnobody : (b.leave id).count = 0 ↔ (b.roll.without id).here = [] := by
      rw [count_eq_length, roll_leave, List.length_eq_zero_iff]
    rw [if_pos (isJoined_iff.2 hmem), if_pos hmem]
    by_cases hlast : (b.roll.without id).here = []
    · rw [if_pos (hnobody.2 hlast), if_pos hlast, roll_close, roll_leave]
    · rw [if_neg (fun h => hlast (hnobody.1 h)), if_neg hlast, roll_leave]
  · rw [if_neg (fun h => hmem (isJoined_iff.1 h)), if_neg hmem]

/-- Who has left is not there any more. -/
theorem not_mem_roll_unsubscribe (b : Bus) (id : Nat) : id ∉ (b.unsubscribe id).roll.here := by
  have hwithout : id ∉ (b.roll.without id).here := fun h =>
    absurd rfl (of_decide_eq_true (List.mem_filter.1 h).2)
  rw [roll_unsubscribe, Roll.leave]
  split
  · split
    · next hnone =>
      rw [Roll.close]
      split
      · exact hwithout
      · exact List.not_mem_nil
    · exact hwithout
  · next hmem => exact hmem

/-- Ending a subscription that is not joined changes nothing. -/
theorem unsubscribe_of_not_mem (h : id ∉ b.roll.here) : b.unsubscribe id = b :=
  if_neg (fun hjoined => h (isJoined_iff.1 hjoined))

/-- Dropping a subscription is the same to the roll as ending it. -/
theorem roll_drop (b : Bus) (id : Nat) : (b.drop id).roll = b.roll.leave id := by
  rw [← roll_unsubscribe]
  have hgone := not_mem_roll_unsubscribe b id
  have hsame : ((b.unsubscribe id).subscriptions.filter (fun s => s.id ≠ id)).filter (·.joined) =
      (b.unsubscribe id).subscriptions.filter (·.joined) := by
    rw [List.filter_filter]
    refine List.filter_congr (fun s hs => ?_)
    by_cases hjoined : s.joined = true
    · have hid : s.id ≠ id := fun hid => hgone (mem_roll_iff.2 ⟨s, hs, hid, hjoined⟩)
      rw [hjoined, decide_eq_true hid]
      rfl
    · rw [Bool.not_eq_true] at hjoined
      rw [hjoined]
      rfl
  unfold drop roll
  rw [hsame]

end Bus

end Bourse
