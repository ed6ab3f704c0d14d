import Bourse.Bus
import Mathlib.Data.List.Nodup

/-!
# The Subscriptions of a Bus

What is done to a bus, as far as one subscription goes. Every operation changes the
subscriptions one by one, adds a new one, or takes one away, and `Altered` says no more
than that. It is enough for what all buses have in common: nobody is joined to a closed
bus, numbers are used once, and a subscription that has gone does not come back.

What becomes of a subscription that stays is said by one lemma for each operation. For
all but the subscription's own number it is what a publication and a closing do, and
nothing else.

## Main definitions

* `Altered`: what an operation can do to the subscriptions.
* `Sound`: what is true of every bus.
* `Gone`: a subscription that was given up.

## Theorems

* `altered_unsubscribe`, `altered_drop` and so on: operations alter a bus.
* `sound_of_altered`, `gone_of_altered`: what every alteration keeps.
* `find?_unsubscribe`, `find?_drop` and so on: a subscription after an operation.
-/

namespace Bourse

namespace Bus

/-! ## Alterations -/

/-- A bus in which one subscription is changed. -/
def edit (b : Bus) (id : Nat) (change : Subscription → Subscription) : Bus :=
  { b with subscriptions := b.subscriptions.map (fun s => if s.id = id then change s else s) }

/-- What operations do to the subscriptions of a bus. -/
inductive Altered : Bus → Bus → Prop
  | same (b : Bus) : Altered b b
  | trans {a b c : Bus} (hab : Altered a b) (hbc : Altered b c) : Altered a c
  /-- Each is changed, and keeps its number. Nobody joins, and if the bus is closed all end. -/
  | map (b b' : Bus) (change : Subscription → Subscription)
      (hsubs : b'.subscriptions = b.subscriptions.map change) (hid : ∀ s, (change s).id = s.id)
      (hjoined : ∀ s, (change s).joined = true → s.joined = true ∧ b'.closed = b.closed)
      (hnext : b'.nextId = b.nextId) (hcapacity : b'.capacity = b.capacity) : Altered b b'
  /-- A new one comes to an open bus. -/
  | add (b : Bus) (hopen : b.closed = false) :
      Altered b { b with
        subscriptions := b.subscriptions ++ [⟨b.nextId, [], true⟩], nextId := b.nextId + 1 }
  | remove (b : Bus) (id : Nat) :
      Altered b { b with subscriptions := b.subscriptions.filter (fun s => s.id ≠ id) }

variable {b b' : Bus} {id : Nat} {s : Subscription}

theorem altered_edit (b : Bus) (id : Nat) {change : Subscription → Subscription}
    (hid : ∀ s, (change s).id = s.id)
    (hjoined : ∀ s, (change s).joined = true → s.joined = true) :
    Altered b (b.edit id change) := by
  refine .map b _ _ rfl (fun s => ?_) (fun s hs => ⟨?_, rfl⟩) rfl rfl
  · split
    · exact hid s
    · rfl
  · split at hs
    · exact hjoined s hs
    · exact hs

theorem deliver_id (capacity : Nat) (q : Quote) (s : Subscription) :
    (deliver capacity q s).id = s.id := by
  unfold deliver
  split
  · rfl
  · rfl

theorem deliver_joined (capacity : Nat) (q : Quote) (s : Subscription) :
    (deliver capacity q s).joined = s.joined := by
  unfold deliver
  split
  · rfl
  · rfl

theorem altered_publish (b : Bus) (q : Quote) : Altered b (b.publish q) := by
  unfold publish
  split
  · exact .same b
  · refine .map b _ _ rfl (deliver_id b.capacity q) (fun s hs => ⟨?_, rfl⟩) rfl rfl
    rw [deliver_joined] at hs
    exact hs

theorem altered_subscribe (h : b.subscribe = some (id, b')) : Altered b b' := by
  unfold subscribe at h
  split at h
  · exact absurd h (by simp only [reduceCtorEq, not_false_eq_true])
  · next hopen =>
    rcases Prod.mk.inj (Option.some.inj h) with ⟨-, rfl⟩
    exact .add b (Bool.not_eq_true _ ▸ hopen)

theorem altered_close (b : Bus) : Altered b b.close := by
  unfold close
  split
  · exact .same b
  · exact .map b _ _ rfl (fun _ => rfl) (fun _ hs => Bool.noConfusion hs) rfl rfl

theorem altered_receive (b : Bus) (id : Nat) : Altered b (b.receive id).2 := by
  unfold receive
  split
  · exact .same b
  · split
    · exact altered_edit b id (fun _ => rfl) (fun _ hs => hs)
    · exact .same b

/-- The bus when a subscription has ended, before the bus closes if it was the last. -/
def leave (b : Bus) (id : Nat) : Bus := b.edit id (fun s => { s with joined := false })

theorem unsubscribe_eq (b : Bus) (id : Nat) :
    b.unsubscribe id = if b.isJoined id then
      if (b.leave id).count = 0 then (b.leave id).close else b.leave id
    else b :=
  rfl

theorem altered_leave (b : Bus) (id : Nat) : Altered b (b.leave id) :=
  altered_edit b id (fun _ => rfl) (fun _ hs => Bool.noConfusion hs)

theorem altered_unsubscribe (b : Bus) (id : Nat) : Altered b (b.unsubscribe id) := by
  rw [unsubscribe_eq]
  split
  · split
    · exact (altered_leave b id).trans (altered_close _)
    · exact altered_leave b id
  · exact .same b

theorem altered_drop (b : Bus) (id : Nat) : Altered b (b.drop id) :=
  (altered_unsubscribe b id).trans (.remove _ id)

/-! ## What alterations keep -/

theorem capacity_of_altered (h : Altered b b') : b'.capacity = b.capacity := by
  induction h with
  | same b => rfl
  | trans hab hbc ihab ihbc => exact ihbc.trans ihab
  | map b b' change hsubs hid hjoined hnext hcapacity => exact hcapacity
  | add b hopen => rfl
  | remove b id => rfl

theorem nextId_le_of_altered (h : Altered b b') : b.nextId ≤ b'.nextId := by
  induction h with
  | same b => exact Nat.le_refl _
  | trans hab hbc ihab ihbc => exact Nat.le_trans ihab ihbc
  | map b b' change hsubs hid hjoined hnext hcapacity => exact Nat.le_of_eq hnext.symm
  | add b hopen => exact Nat.le_succ _
  | remove b id => exact Nat.le_refl _

/-- A bus in which no two subscriptions have the same number, all numbers have been given out, and
which is closed only when nobody is joined. -/
structure Sound (b : Bus) : Prop where
  unique : (b.subscriptions.map (·.id)).Nodup
  given : ∀ s ∈ b.subscriptions, s.id < b.nextId
  ended : b.closed = true → ∀ s ∈ b.subscriptions, s.joined = false

theorem sound_create (capacity : Nat) : (create capacity).Sound :=
  ⟨List.nodup_nil, fun _ hs => absurd hs List.not_mem_nil, fun h => Bool.noConfusion h⟩

theorem sound_of_altered (hb : b.Sound) (h : Altered b b') : b'.Sound := by
  induction h with
  | same b => exact hb
  | trans hab hbc ihab ihbc => exact ihbc (ihab hb)
  | map b b' change hsubs hid hjoined hnext hcapacity =>
      refine ⟨?_, fun s hs => ?_, fun hclosed s hs => ?_⟩
      · rw [hsubs, List.map_map, Function.comp_def]
        simp only [hid]
        exact hb.unique
      · rw [hsubs] at hs
        rcases List.mem_map.1 hs with ⟨s', hs', rfl⟩
        rw [hid, hnext]
        exact hb.given s' hs'
      · rw [hsubs] at hs
        rcases List.mem_map.1 hs with ⟨s', hs', rfl⟩
        -- Who is still joined was joined to a closed bus before.
        by_contra hne
        rw [Bool.not_eq_false] at hne
        rcases hjoined s' hne with ⟨hbefore, hsame⟩
        rw [hb.ended (hsame ▸ hclosed) s' hs'] at hbefore
        exact absurd hbefore Bool.false_ne_true
  | add b hopen =>
      refine ⟨?_, fun s hs => ?_, fun hclosed => ?_⟩
      · -- The number of the new one has not been given out before.
        simp only [List.map_append, List.map_cons, List.map_nil]
        refine List.Nodup.append hb.unique (List.nodup_singleton _) (fun j hj hnew => ?_)
        rcases List.mem_map.1 hj with ⟨s, hs, rfl⟩
        have hlt := hb.given s hs
        have heq := List.mem_singleton.1 hnew
        omega
      · rcases List.mem_append.1 hs with hold | hnew
        · exact Nat.lt_succ_of_lt (hb.given s hold)
        · rw [List.mem_singleton.1 hnew]
          exact Nat.lt_succ_self _
      · rw [hopen] at hclosed
        exact absurd hclosed Bool.false_ne_true
  | remove b id =>
      refine ⟨?_, fun s hs => ?_, fun hclosed s hs => ?_⟩
      · exact hb.unique.sublist (List.filter_sublist.map _)
      · exact hb.given s (List.mem_filter.1 hs).1
      · exact hb.ended hclosed s (List.mem_filter.1 hs).1

/-- A subscription that was given up. -/
structure Gone (b : Bus) (id : Nat) : Prop where
  given : id < b.nextId
  absent : ∀ s ∈ b.subscriptions, s.id ≠ id

/-- Numbers are not used again, so who has gone stays gone. -/
theorem gone_of_altered (hb : b.Gone id) (h : Altered b b') : b'.Gone id := by
  induction h with
  | same b => exact hb
  | trans hab hbc ihab ihbc => exact ihbc (ihab hb)
  | map b b' change hsubs hid hjoined hnext hcapacity =>
      refine ⟨hnext ▸ hb.given, fun s hs => ?_⟩
      rw [hsubs] at hs
      rcases List.mem_map.1 hs with ⟨s', hs', rfl⟩
      rw [hid]
      exact hb.absent s' hs'
  | add b hopen =>
      refine ⟨Nat.lt_succ_of_lt hb.given, fun s hs => ?_⟩
      rcases List.mem_append.1 hs with hold | hnew
      · exact hb.absent s hold
      · rw [List.mem_singleton.1 hnew]
        exact Nat.ne_of_gt hb.given
  | remove b j => exact ⟨hb.given, fun s hs => hb.absent s (List.mem_filter.1 hs).1⟩

theorem gone_drop (hid : id < b.nextId) : (b.drop id).Gone id := by
  refine ⟨Nat.lt_of_lt_of_le hid (nextId_le_of_altered (altered_drop b id)), fun s hs => ?_⟩
  exact of_decide_eq_true (List.mem_filter.1 hs).2

/-! ## One subscription -/

theorem find?_of_gone (h : b.Gone id) : b.find? id = none := by
  unfold find?
  rw [List.find?_eq_none]
  intro s hs
  rw [decide_eq_true_eq]
  exact h.absent s hs

theorem find?_of_map (change : Subscription → Subscription)
    (hsubs : b'.subscriptions = b.subscriptions.map change) (hid : ∀ s, (change s).id = s.id)
    (id : Nat) : b'.find? id = (b.find? id).map change := by
  unfold find?
  rw [hsubs, List.find?_map]
  simp only [Function.comp_def, hid]

theorem mem_of_find? (h : b.find? id = some s) : s ∈ b.subscriptions :=
  List.mem_of_find?_eq_some h

theorem id_of_find? (h : b.find? id = some s) : s.id = id := by
  have hid := List.find?_some h
  exact of_decide_eq_true hid

/-- There is one subscription under a number. -/
theorem Sound.eq_of_id (hb : b.Sound) {t : Subscription} (hs : s ∈ b.subscriptions)
    (ht : t ∈ b.subscriptions) (h : t.id = s.id) : t = s :=
  List.inj_on_of_nodup_map hb.unique ht hs h

theorem isJoined_of_find? (hb : b.Sound) (h : b.find? id = some s) : b.isJoined id = s.joined := by
  have hid := id_of_find? h
  have hs := mem_of_find? h
  rw [Bool.eq_iff_iff]
  unfold isJoined
  rw [List.any_eq_true]
  refine ⟨?_, fun hjoined => ⟨s, hs, ?_⟩⟩
  · rintro ⟨t, ht, hboth⟩
    rw [Bool.and_eq_true, decide_eq_true_eq] at hboth
    rw [← hb.eq_of_id hs ht (hboth.1.trans hid.symm)]
    exact hboth.2
  · rw [hid, hjoined]
    exact Bool.and_eq_true_iff.2 ⟨decide_eq_true rfl, rfl⟩

theorem buffered_of_find? (h : b.find? id = some s) : b.buffered id = s.buffer.length := by
  rw [buffered, h]
  rfl

/-- Who is joined counts. -/
theorem count_pos_of_joined (hs : s ∈ b.subscriptions) (h : s.joined = true) : b.count ≠ 0 := by
  have hmem : s ∈ b.subscriptions.filter (·.joined) := List.mem_filter.2 ⟨hs, h⟩
  exact Nat.ne_of_gt (List.length_pos_of_mem hmem)

theorem find?_publish (hb : b.Sound) (h : b.find? id = some s) (q : Quote) :
    (b.publish q).find? id = some (deliver b.capacity q s) := by
  unfold publish
  split
  · next hclosed =>
    have hleft := hb.ended hclosed s (mem_of_find? h)
    rw [h, deliver, hleft, Bool.false_and, if_neg Bool.false_ne_true]
  · rw [find?_of_map (b := b) _ rfl (deliver_id _ q), h, Option.map_some]

theorem find?_subscribe {j : Nat} (h : b.find? id = some s) (hnew : b.subscribe = some (j, b')) :
    b'.find? id = some s := by
  unfold subscribe at hnew
  split at hnew
  · exact absurd hnew (by simp only [reduceCtorEq, not_false_eq_true])
  · rcases Prod.mk.inj (Option.some.inj hnew) with ⟨-, rfl⟩
    unfold find? at h ⊢
    rw [List.find?_append, h, Option.some_or]

theorem find?_edit (h : b.find? id = some s) (j : Nat) (change : Subscription → Subscription)
    (hid : ∀ s, (change s).id = s.id) :
    (b.edit j change).find? id = some (if j = id then change s else s) := by
  have hmap : (b.edit j change).find? id =
      (b.find? id).map (fun t => if t.id = j then change t else t) := by
    refine find?_of_map _ rfl (fun t => ?_) id
    split
    · exact hid t
    · rfl
  rw [hmap, h, Option.map_some, id_of_find? h]
  simp only [eq_comm]

theorem find?_receive (h : b.find? id = some s) (j : Nat) :
    (b.receive j).2.find? id = some (if j = id then { s with buffer := s.buffer.drop 1 } else s) := by
  unfold receive
  by_cases hj : j = id
  · subst hj
    rw [h, if_pos rfl]
    simp only []
    cases hbuffer : s.buffer with
    | nil =>
        refine h.trans ?_
        rw [List.drop_nil, ← hbuffer]
    | cons q rest =>
        have hedit := find?_edit h j (fun t => { t with buffer := rest }) (fun _ => rfl)
        rw [if_pos rfl] at hedit
        exact hedit
  · rw [if_neg hj]
    split
    · exact h
    · split
      · next rest _ =>
        have hedit := find?_edit h j (fun t => { t with buffer := rest }) (fun _ => rfl)
        rw [if_neg hj] at hedit
        exact hedit
      · exact h

theorem find?_close (hb : b.Sound) (h : b.find? id = some s) :
    b.close.find? id = some { s with joined := false } := by
  unfold close
  split
  · next hclosed => rw [h, ← hb.ended hclosed s (mem_of_find? h)]
  · rw [find?_of_map (b := b) (fun t => { t with joined := false }) rfl (fun _ => rfl), h,
      Option.map_some]

/-- Somebody's leaving is nothing to the others, though it may close the bus. -/
theorem find?_unsubscribe (hb : b.Sound) (h : b.find? id = some s) (j : Nat) :
    (b.unsubscribe j).find? id = some (if j = id then { s with joined := false } else s) := by
  have hleave := find?_edit h j (fun t => { t with joined := false }) (fun _ => rfl)
  rw [unsubscribe_eq]
  split
  · split
    · next hcount =>
      rw [find?_close (sound_of_altered hb (altered_leave b j)) hleave]
      by_cases hj : j = id
      · rw [if_pos hj]
      · -- Nobody is joined any more, so neither was this one.
        rw [if_neg hj] at hleave ⊢
        have hleft : s.joined = false := by
          by_contra hjoined
          rw [Bool.not_eq_false] at hjoined
          exact count_pos_of_joined (mem_of_find? hleave) hjoined hcount
        rw [← hleft]
    · exact hleave
  · next hnot =>
    split
    · next hj =>
      rw [hj, isJoined_of_find? hb h, Bool.not_eq_true] at hnot
      rw [h, ← hnot]
    · exact h

theorem find?_drop (hb : b.Sound) (h : b.find? id = some s) {j : Nat} (hj : j ≠ id) :
    (b.drop j).find? id = some s := by
  have hleft := find?_unsubscribe hb h j
  rw [if_neg hj] at hleft
  unfold find? at hleft ⊢
  rw [drop, List.find?_filter, ← hleft]
  congr 1
  funext t
  by_cases ht : t.id = id
  · simp only [ht, ne_eq, Ne.symm hj, not_false_eq_true, decide_true, and_self]
  · simp only [ht, decide_false, Bool.false_eq_true, and_false]

theorem find?_of_subscribe (hb : b.Sound) (h : b.subscribe = some (id, b')) :
    b'.find? id = some ⟨id, [], true⟩ := by
  unfold subscribe at h
  split at h
  · exact absurd h (by simp only [reduceCtorEq, not_false_eq_true])
  · rcases Prod.mk.inj (Option.some.inj h) with ⟨rfl, rfl⟩
    have hnone : b.find? b.nextId = none := by
      unfold find?
      rw [List.find?_eq_none]
      intro s hs
      have hlt := hb.given s hs
      simp only [decide_eq_true_eq]
      omega
    unfold find? at hnone ⊢
    simp only [List.find?_append, hnone, Option.none_or, List.find?_singleton, decide_true, if_true]

/-- The stream ends when nothing is in the buffer and nothing comes in any more. -/
theorem receive_eq_ended (h : b.find? id = some s) :
    (b.receive id).1 = .ended ↔ s.buffer = [] ∧ s.joined = false := by
  rw [receive, h]
  simp only []
  cases s.buffer with
  | nil =>
      cases s.joined with
      | true => simp only [if_true, reduceCtorEq, Bool.true_eq_false, and_false]
      | false => simp only [Bool.false_eq_true, if_false, and_self]
  | cons q rest => simp only [reduceCtorEq, false_and]

end Bus

end Bourse
