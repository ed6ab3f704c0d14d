import Bourse.Ledger.Books
import Bourse.Proofs.Table

/-!
# What Calls Do to Documents

Of all calls on the books only two write documents. Creating one needs an id that
is free, replacing one needs the version that is stored, and both may be refused,
which leaves the store as it was.

So under any calls the documents grow: none is ever lost, versions never fall, and
a document whose version has not risen is the same document. `Store.Grown` is that
relation, and it is what makes a version worth remembering: whoever has read a
document may conclude, from the version alone, that what was read is still there.

## Main definitions

* `Call.isWrite`: whether a call may write a document.
* `Store.Grown`: a later state of the documents.

## Theorems

* `createUser_cases`, `compareAndSet_cases`: the two ways in which each of them goes.
* `user?_perform`: a call that writes no document leaves them all.
* `grown_perform`: every call lets the documents grow.
-/

namespace Bourse

/-- Whether a call may write a document. -/
def Call.isWrite : Call → Bool
  | createUser _ | replaceUser .. => true
  | _ => false

namespace Store

theorem user?_insert (s : Store) (id j : String) (v : Versioned User) :
    ({ s with users := s.users.insert id v } : Store).user? j =
      if j = id then some v else s.user? j :=
  Table.get?_insert_eq s.users id j v

/-- A new document is stored at version one, unless there is one under its id. -/
theorem createUser_cases (s : Store) (u : User) :
    (s.user? u.id = none ∧
      s.createUser u = (.ok ⟨1, u⟩, { s with users := s.users.insert u.id ⟨1, u⟩ })) ∨
    s.createUser u = (.error (.alreadyExists u.id), s) := by
  unfold createUser
  cases h : s.user? u.id with
  | none => exact Or.inl ⟨rfl, rfl⟩
  | some v => exact Or.inr rfl

/-- A document is replaced by the next version of it, unless its version is another than the one
expected. -/
theorem compareAndSet_cases (s : Store) (id : String) (expected : Nat) (u : User) :
    (∃ v, s.user? id = some v ∧ v.version = expected ∧
      s.compareAndSet id expected u =
        (.ok ⟨expected + 1, u⟩, { s with users := s.users.insert id ⟨expected + 1, u⟩ })) ∨
    ∃ e, s.compareAndSet id expected u = (.error e, s) := by
  unfold compareAndSet
  cases h : s.user? id with
  | none => exact Or.inr ⟨_, rfl⟩
  | some v =>
      by_cases hv : v.version = expected
      · refine Or.inl ⟨v, rfl, hv, ?_⟩
        rw [← hv]
        simp only [if_pos]
      · refine Or.inr ⟨.conflict id, ?_⟩
        simp only [if_neg hv]

/-- A later state of the documents: none is lost, no version falls, and a document of the same
version is the same. -/
def Grown (s s' : Store) : Prop :=
  ∀ id v, s.user? id = some v →
    ∃ v', s'.user? id = some v' ∧ v.version ≤ v'.version ∧ (v'.version = v.version → v' = v)

theorem grown_of_user?_eq {s s' : Store} (h : ∀ id, s'.user? id = s.user? id) : s.Grown s' := by
  intro id v hv
  exact ⟨v, (h id).trans hv, le_refl _, fun _ => rfl⟩

/-- Documents grow when one is written that is new or of a higher version. -/
theorem grown_insert (s : Store) {id : String} {v : Versioned User}
    (h : ∀ old, s.user? id = some old → old.version < v.version) :
    s.Grown { s with users := s.users.insert id v } := by
  intro j w hw
  by_cases hj : j = id
  · -- The one that was written has a higher version, so nothing is claimed of its content.
    subst hj
    have hlt := h w hw
    refine ⟨v, ?_, hlt.le, fun hv => ?_⟩
    · rw [user?_insert, if_pos rfl]
    · omega
  · refine ⟨w, ?_, le_refl _, fun _ => rfl⟩
    rw [user?_insert, if_neg hj]
    exact hw

end Store

namespace Call

/-- A call that writes no document leaves them all. -/
theorem user?_perform (b : Books) (now : Nat) {c : Call} (h : c.isWrite = false) (id : String) :
    (c.perform b now).2.store.user? id = b.store.user? id := by
  cases c with
  | createUser u => exact absurd h Bool.noConfusion
  | replaceUser i version u => exact absurd h Bool.noConfusion
  | pruneTrades i keep =>
      simp only [perform, Store.pruneTrades]
      split
      · rfl
      · rfl
  | deleteSnapshots i cutoff =>
      simp only [perform, Store.deleteSnapshotsBefore]
      split
      · rfl
      · rfl
  | _ => rfl

/-- Every call lets the documents grow. -/
theorem grown_perform (b : Books) (now : Nat) (c : Call) :
    b.store.Grown (c.perform b now).2.store := by
  by_cases hc : c.isWrite = false
  · exact Store.grown_of_user?_eq (user?_perform b now hc)
  cases c with
  | createUser u =>
      simp only [perform]
      rcases b.store.createUser_cases u with ⟨hnone, hr⟩ | hr
      · rw [hr]
        -- There was no document under the id that could be lost.
        refine Store.grown_insert b.store (fun old hold => ?_)
        rw [hnone] at hold
        exact absurd hold (by simp only [reduceCtorEq, not_false_eq_true])
      · rw [hr]
        exact Store.grown_of_user?_eq (fun _ => rfl)
  | replaceUser id expected u =>
      simp only [perform]
      rcases b.store.compareAndSet_cases id expected u with ⟨v, hv, hversion, hr⟩ | ⟨e, hr⟩
      · rw [hr]
        refine Store.grown_insert b.store (fun old hold => ?_)
        rw [hv, Option.some.injEq] at hold
        rw [← hold, hversion]
        exact Nat.lt_succ_self expected
      · rw [hr]
        exact Store.grown_of_user?_eq (fun _ => rfl)
  | _ => exact absurd rfl hc

end Call

end Bourse
