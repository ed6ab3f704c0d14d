import Bourse.Proofs.Floor.Openings
import Bourse.Valuation.Run

/-!
# What a Valuation Does to a History

A valuation writes the snapshot of its hour, in place of one that was there, and then
removes all that are older than its cutoff. Between the two calls, and before and after
them, others may write snapshots of other users; only what is recorded for the same
user could come between.

## Main definitions

* `Call.recorded?`: whose snapshots a call may write or remove.
* `Store.trimmed`: a history without the snapshots before a time.
* `UserValuation.leaves`: what a valuation makes of a history, at each of its phases.
* `UserValuation.outcome`, `UserValuation.losses`: the same, in the end.
* `UserValuation.Renewed`: a history with the snapshot of an hour and none that is too old.

## Theorems

* `history_perform_of_ne`: a call leaves the histories of all others.
* `history_deleteSnapshotsBefore`, `removed_eq`: what removing does, and how many it removes.
* `UserValuation.renewed_outcome`: what a valuation makes of a history, snapshot by snapshot.
* `UserValuation.outcome_outcome`: another one in the same hour makes nothing of it.
-/

namespace Bourse

/-- Whose snapshots a call may write or remove. -/
def Call.recorded? : Call → Option String
  | putSnapshot id _ | deleteSnapshots id _ => some id
  | _ => none

namespace Store

/-- A history without the snapshots before a time. -/
def trimmed (cutoff : Timestamp) (h : Table Timestamp Amount) : Table Timestamp Amount :=
  h.filter (fun t _ => !t.before cutoff)

theorem get?_trimmed (cutoff : Timestamp) (h : Table Timestamp Amount) (t : Timestamp) :
    (trimmed cutoff h).get? t = if t.before cutoff then none else h.get? t := by
  refine Option.ext (fun v => ?_)
  rw [trimmed, Table.get?_filter_eq_some]
  cases t.before cutoff
  · exact and_iff_left rfl
  · exact ⟨fun hkept => Bool.noConfusion hkept.2, fun hnone => absurd hnone (Option.some_ne_none v).symm⟩

theorem history_deleteSnapshotsBefore (s : Store) (id j : String) (cutoff : Timestamp) :
    (s.deleteSnapshotsBefore id cutoff).2.history j =
      if j = id then trimmed cutoff (s.history id) else s.history j := by
  unfold deleteSnapshotsBefore history
  by_cases hj : j = id
  · rw [if_pos hj, hj]
    cases hget : s.histories.get? id with
    | none =>
        simp only [hget]
        rfl
    | some h =>
        simp only [Table.get?_insert_self]
        rfl
  · rw [if_neg hj]
    split
    · rfl
    · rw [Table.get?_insert_of_ne _ _ hj]

/-- As many snapshots are removed as the history loses. -/
theorem removed_eq (s : Store) (id : String) (cutoff : Timestamp) :
    (s.deleteSnapshotsBefore id cutoff).1 =
      (s.history id).size - (trimmed cutoff (s.history id)).size := by
  unfold deleteSnapshotsBefore history
  cases s.histories.get? id with
  | none => rfl
  | some h => rfl

end Store

/-- A call leaves the histories of those whom it does not record. -/
theorem Call.history_perform_of_ne (b : Books) (now : Nat) {c : Call} {id : String}
    (h : c.recorded? ≠ some id) : (c.perform b now).2.store.history id = b.store.history id := by
  cases hrecord : c.isRecord with
  | false => exact history_perform b now hrecord id
  | true =>
      cases c with
      | putSnapshot i v =>
          have hne : id ≠ i := fun heq => h (congrArg some heq.symm)
          rw [perform, Store.history_putSnapshot, if_neg hne]
      | deleteSnapshots i cutoff =>
          have hne : id ≠ i := fun heq => h (congrArg some heq.symm)
          rw [perform, Store.history_deleteSnapshotsBefore, if_neg hne]
      | _ => exact Bool.noConfusion hrecord

namespace UserValuation

/-- What a valuation has made of a history when it is at some phase. A user whose portfolio has no
value keeps the history as it is. -/
def leaves (hour cutoff : Timestamp) (worth : Except AmountError Amount) (p : Phase)
    (old : Table Timestamp Amount) : Table Timestamp Amount :=
  match worth, p with
  | .ok value, .sweeping => old.insert hour value
  | .ok value, .finished _ => Store.trimmed cutoff (old.insert hour value)
  | _, _ => old

/-- What a valuation makes of a history in the end. -/
def outcome (hour cutoff : Timestamp) (worth : Except AmountError Amount)
    (old : Table Timestamp Amount) : Table Timestamp Amount :=
  match worth with
  | .ok value => Store.trimmed cutoff (old.insert hour value)
  | .error _ => old

/-- How many snapshots a valuation removes from a history. -/
def losses (hour cutoff : Timestamp) (worth : Except AmountError Amount)
    (old : Table Timestamp Amount) : Nat :=
  match worth with
  | .ok value => (old.insert hour value).size - (Store.trimmed cutoff (old.insert hour value)).size
  | .error _ => 0

variable {hour cutoff : Timestamp} {value : Amount} {old : Table Timestamp Amount}

/-- A history after a valuation: the snapshot of the hour is there with the value, nothing is there
from before the cutoff, and all the rest is as it was. -/
structure Renewed (hour cutoff : Timestamp) (value : Amount) (old new : Table Timestamp Amount) :
    Prop where
  present : new.get? hour = some value
  expired : ∀ t, t.before cutoff = true → new.get? t = none
  kept : ∀ t, t ≠ hour → t.before cutoff = false → new.get? t = old.get? t

theorem renewed_outcome (hcutoff : hour.before cutoff = false) :
    Renewed hour cutoff value old (outcome hour cutoff (.ok value) old) := by
  constructor
  · rw [outcome, Store.get?_trimmed, hcutoff, Table.get?_insert_self]
    rfl
  · intro t ht
    rw [outcome, Store.get?_trimmed, ht]
    rfl
  · intro t hne ht
    rw [outcome, Store.get?_trimmed, ht, Table.get?_insert_of_ne _ _ hne]
    rfl

/-- A history that has been renewed has the snapshot already, and nothing to remove. -/
theorem Renewed.insert_trimmed {new : Table Timestamp Amount} (h : Renewed hour cutoff value old new) :
    new.insert hour value = new ∧ Store.trimmed cutoff new = new := by
  constructor
  · refine Table.ext_get? (fun t => ?_)
    by_cases ht : t = hour
    · rw [ht, Table.get?_insert_self, h.present]
    · rw [Table.get?_insert_of_ne _ _ ht]
  · refine Table.ext_get? (fun t => ?_)
    rw [Store.get?_trimmed]
    cases ht : t.before cutoff with
    | true =>
        rw [h.expired t ht]
        rfl
    | false => rfl

/-- Another valuation of the same hour, worth and cutoff changes nothing and removes nothing. -/
theorem outcome_outcome (hcutoff : hour.before cutoff = false) (worth : Except AmountError Amount) :
    outcome hour cutoff worth (outcome hour cutoff worth old) = outcome hour cutoff worth old ∧
      losses hour cutoff worth (outcome hour cutoff worth old) = 0 := by
  cases worth with
  | ok value =>
      have hrenewed : Renewed hour cutoff value old (outcome hour cutoff (.ok value) old) :=
        renewed_outcome hcutoff
      rcases hrenewed.insert_trimmed with ⟨hinsert, htrimmed⟩
      constructor
      · rw [outcome, hinsert]
        exact htrimmed
      · rw [losses, hinsert, htrimmed, Nat.sub_self]
  | error e => exact ⟨rfl, rfl⟩

end UserValuation

end Bourse
