import Bourse.Proofs.Floor.Alone
import Bourse.Proofs.Floor.Commits
import Bourse.Proofs.Ledger.Logs

/-!
# The Steps of a Visitor at the Logs

What a step of a visitor can be, as far as logs and cached histories are concerned. A
trade adds one entry to the log of its user, makes the cached history invalid, and
may prune the log; a reading of the history looks into the cache, lists the log, and
saves what it was told. Nobody else has anything to do with either.

The journal keeps all these calls, and what it says about them is enough to compute
the log of a user and the generation of the cached history, so at every moment the
books are what the journal says. A trade says in its state whether it has written its
entry, and what it says changes with its calls as the journal does.

## Main definitions

* `Journal.loggings`, `Journal.removals`, `Journal.invalidations`: what the journal says
  about the log and the cached history of a user.
* `HistoryReading.Asks`: the calls of a reading of the history.
* `Execution.logged?`: the entry that a trade has written.
* `Operation.isApart`: the operations that have nothing to do with logs.
* `Floor.Told`: books that are what the journal says.

## Theorems

* `Operation.cases_of_booking`: who makes the calls on logs and cached histories.
* `Operation.logged_of_calling`: what a visitor has written changes as the log does.
* `told_of_move`: after every step the books are what the journal says.
-/

namespace Bourse

/-! ## The journal -/

namespace Journal

/-- The entries that were ever added to the log of a user, oldest first, each with the visitor who
added it. -/
def loggings (id : String) (journal : List Entry) : List (Nat × TradeRecord) :=
  journal.flatMap (fun e => (e.call.appended id).map (fun r => (e.visitor, r)))

/-- How many entries were ever removed from the log of a user. -/
def removals (id : String) (journal : List Entry) : Nat :=
  (journal.map (fun e => e.call.removed id e.answer)).sum

/-- How often the cached history of a user was made invalid. -/
def invalidations (id : String) (journal : List Entry) : Nat :=
  journal.countP (fun e => e.call = .invalidateHistory id)

theorem loggings_append (id : String) (j k : List Entry) :
    loggings id (j ++ k) = loggings id j ++ loggings id k :=
  List.flatMap_append

theorem removals_append (id : String) (j k : List Entry) :
    removals id (j ++ k) = removals id j + removals id k := by
  simp only [removals, List.map_append, List.sum_append]

theorem invalidations_append (id : String) (j k : List Entry) :
    invalidations id (j ++ k) = invalidations id j + invalidations id k :=
  List.countP_append

theorem loggings_singleton (id : String) (e : Entry) :
    loggings id [e] = (e.call.appended id).map (fun r => (e.visitor, r)) :=
  List.flatMap_singleton ..

theorem removals_singleton (id : String) (e : Entry) :
    removals id [e] = e.call.removed id e.answer :=
  List.sum_singleton

theorem invalidations_singleton (id : String) (e : Entry) :
    invalidations id [e] = if e.call = .invalidateHistory id then 1 else 0 := by
  simp only [invalidations, List.countP_singleton, decide_eq_true_eq]

end Journal

/-! ## Visitors -/

/-- The calls of a reading of the history, and how it goes on after each. -/
inductive HistoryReading.Asks : HistoryReading → (c : Call) →
    (Except StoreError c.Result → HistoryReading) → Prop
  | lookUp (user : String) : Asks (.looking user) (.lookUpHistory user) (looked user)
  | list (user : String) (generation : Option Nat) :
      Asks (.listing user generation) (.listTrades user) (listed user generation)
  | save (user : String) (generation : Nat) (trades : List TradeRecord) :
      Asks (.saving user generation trades) (.saveHistory user generation trades)
        (fun _ => .finished (.ok trades))

theorem HistoryReading.asks_of_next {x : HistoryReading} {c : Call} {d : Deadline HistoryReading}
    {resume : Except StoreError c.Result → HistoryReading}
    (h : @HistoryReading.next UserValuation x = .calling c d resume) : x.Asks c resume := by
  cases x with
  | looking user => cases h; exact .lookUp user
  | listing user generation => cases h; exact .list user generation
  | saving user generation trades => cases h; exact .save user generation trades
  | finished r => cases h

namespace Execution

/-- The log entry that a trade has written. -/
def logged? (x : Execution) : Option TradeRecord :=
  match x.phase with
  | .invalidating o | .pruning o | .finished (.ok o) => some o.record
  | _ => none

theorem logged?_of_not_committed {x : Execution} (h : x.committed? = none) : x.logged? = none := by
  unfold logged?
  unfold committed? at h
  split at h
  · exact absurd h (by simp only [reduceCtorEq, not_false_eq_true])
  · exact absurd h (by simp only [reduceCtorEq, not_false_eq_true])
  · exact absurd h (by simp only [reduceCtorEq, not_false_eq_true])
  · exact absurd h (by simp only [reduceCtorEq, not_false_eq_true])
  · next hl hi hp hf =>
    split
    · next o ho => exact absurd ho (hi o)
    · next o ho => exact absurd ho (hp o)
    · next o ho => exact absurd ho (hf o)
    · rfl

/-- Only what is heard before the commit is heard at all, and it is the same trade after it. -/
theorem same_of_hear? {x y : Execution} {news : News}
    (h : (@next UserValuation x).hear? news = some y) :
    x.Same y ∧ x.committed? = none ∧ y.committed? = none := by
  rcases cases_of_hear? h with ⟨hnone, ⟨price, rfl⟩ | ⟨price, m, rfl⟩ | ⟨e, rfl⟩⟩
  · exact ⟨x.same_enter _, hnone, rfl⟩
  · exact ⟨x.same_enter _, hnone, rfl⟩
  · exact ⟨x.same_enter _, hnone, rfl⟩

theorem same_of_asks {x : Execution} {c : Call} {resume : Except StoreError c.Result → Execution}
    (h : x.Asks c resume) (r : Except StoreError c.Result) : x.Same (resume r) := by
  cases h with
  | document price m hphase =>
      rcases x.cases_of_read price m r with ⟨v, u, -, -, hr⟩ | ⟨e, hr⟩
      · rw [hr]
        exact x.same_enter _
      · rw [hr]
        exact x.same_enter _
  | commit price m version u hphase =>
      rcases x.cases_of_stored price m r with ⟨v, -, hr⟩ | ⟨e, hr⟩
      · rw [hr]
        exact x.same_enter _
      · rw [hr]
        exact x.same_enter _
  | log o hphase | invalidate o hphase | prune o hphase => exact x.same_enter _

/-- What a trade has written after a call is what it had written before it, and what this call
adds to the log. -/
theorem logged?_of_asks {x : Execution} {c : Call}
    {resume : Except StoreError c.Result → Execution} (h : x.Asks c resume)
    (r : Except StoreError c.Result) :
    (resume r).logged?.toList = x.logged?.toList ++ c.appended x.user := by
  cases h with
  | document price m hphase =>
      have hx : x.logged? = none := by rw [logged?, hphase]
      have hy : (x.read price m r).logged? = none := by
        rcases x.cases_of_read price m r with ⟨v, u, -, -, hr⟩ | ⟨e, hr⟩
        · rw [hr]
          rfl
        · rw [hr]
          rfl
      rw [hx, hy]
      rfl
  | commit price m version u hphase =>
      have hx : x.logged? = none := by rw [logged?, hphase]
      have hy : (x.stored price m r).logged? = none := by
        rcases x.cases_of_stored price m r with ⟨v, -, hr⟩ | ⟨e, hr⟩
        · rw [hr]
          rfl
        · rw [hr]
          rfl
      rw [hx, hy]
      rfl
  | log o hphase =>
      have hx : x.logged? = none := by rw [logged?, hphase]
      simp only [hx, Call.appended, if_true]
      rfl
  | invalidate o hphase =>
      have hx : x.logged? = some o.record := by rw [logged?, hphase]
      rw [hx]
      cases x.prunes with
      | true => rfl
      | false => rfl
  | prune o hphase =>
      have hx : x.logged? = some o.record := by rw [logged?, hphase]
      rw [hx]
      rfl

theorem appended_of_asks {x : Execution} {c : Call}
    {resume : Except StoreError c.Result → Execution} (h : x.Asks c resume) {id : String}
    (hid : x.user ≠ id) : c.appended id = [] := by
  cases h with
  | log o hphase => exact if_neg hid
  | _ => rfl

end Execution

namespace Operation

/-- Whether an operation has nothing to do with logs and cached histories. -/
def isApart : Operation → Bool
  | execution _ | history _ => false
  | _ => true

/-- The log entries that an operation has written for a user: one or none. -/
def logged (id : String) : Operation → List TradeRecord
  | execution x => if x.user = id then x.logged?.toList else []
  | _ => []

theorem logged_of_apart {x : Operation} (h : x.isApart = true) (id : String) :
    x.logged id = [] := by
  cases x with
  | execution x => exact Bool.noConfusion h
  | _ => rfl

theorem logged_of_not_committed {x : Execution} (h : x.committed? = none) (id : String) :
    (execution x).logged id = [] := by
  simp only [logged, Execution.logged?_of_not_committed h, Option.toList_none]
  exact ite_self []

/-- The calls on logs and cached histories are those of trades and of readings of the history. -/
theorem cases_of_booking {config : TradingConfig} {s : Store} {x : Operation} {c : Call}
    {d : Deadline Operation} {resume : Except StoreError c.Result → Operation}
    (hx : x.Upright config s) (h : x.next = .calling c d resume) :
    (∃ w k, x = .execution w ∧ w.Asks c k ∧ ∀ r, resume r = .execution (k r)) ∨
    (∃ w k, x = .history w ∧ w.Asks c k ∧ ∀ r, resume r = .history (k r)) ∨
    (x.isApart = true ∧ c.isBooking = false ∧ ∀ r, (resume r).isApart = true) := by
  cases x with
  | execution x =>
      rcases Progress.calling_of_map h with ⟨d', k, hk, hresume⟩
      exact Or.inl ⟨x, k, rfl, Execution.asks_of_next hk, hresume⟩
  | history x =>
      rcases Progress.calling_of_map h with ⟨d', k, hk, hresume⟩
      exact Or.inr (Or.inl ⟨x, k, rfl, HistoryReading.asks_of_next hk, hresume⟩)
  | opening x =>
      rcases Progress.calling_of_map h with ⟨d', k, hk, hresume⟩
      refine Or.inr (Or.inr ⟨rfl, ?_, fun r => by rw [hresume]; rfl⟩)
      rw [AccountOpening.next] at hk
      split at hk <;> cases hk <;> rfl
  | portfolio x =>
      rcases Progress.calling_of_map h with ⟨d', k, hk, hresume⟩
      refine Or.inr (Or.inr ⟨rfl, ?_, fun r => by rw [hresume]; rfl⟩)
      cases x <;> cases hk
      rfl
  | snapshots x =>
      rcases Progress.calling_of_map h with ⟨d', k, hk, hresume⟩
      refine Or.inr (Or.inr ⟨rfl, ?_, fun r => by rw [hresume]; rfl⟩)
      cases x <;> cases hk
      rfl
  | valuation x | userValuation x | job x => exact hx.elim

/-- A trade hears of nothing after its commit, and a reading of the history of nothing at all. -/
theorem cases_of_hear? {config : TradingConfig} {s : Store} {x y : Operation} {news : News}
    (hx : x.Upright config s) (h : x.next.hear? news = some y) :
    (∃ w w', x = .execution w ∧ y = .execution w' ∧ w.Same w' ∧ w.committed? = none ∧
      w'.committed? = none) ∨
    (x.isApart = true ∧ y.isApart = true) := by
  cases x with
  | execution x =>
      rcases exists_of_hear? h with ⟨z, hz, rfl⟩
      exact Or.inl ⟨x, z, rfl, rfl, Execution.same_of_hear? hz⟩
  | history x =>
      rcases exists_of_hear? h with ⟨z, hz, rfl⟩
      cases x <;> cases news <;> cases hz
  | opening x =>
      rcases exists_of_hear? h with ⟨z, hz, rfl⟩
      exact Or.inr ⟨rfl, rfl⟩
  | portfolio x =>
      rcases exists_of_hear? h with ⟨z, hz, rfl⟩
      exact Or.inr ⟨rfl, rfl⟩
  | snapshots x =>
      rcases exists_of_hear? h with ⟨z, hz, rfl⟩
      exact Or.inr ⟨rfl, rfl⟩
  | valuation x | userValuation x | job x => exact hx.elim

/-- What a visitor has written after a call is what it had written before it, and what this call
adds to the log. -/
theorem logged_of_calling {config : TradingConfig} {s : Store} {x : Operation} {c : Call}
    {d : Deadline Operation} {resume : Except StoreError c.Result → Operation}
    (hx : x.Upright config s) (h : x.next = .calling c d resume)
    (r : Except StoreError c.Result) (id : String) :
    (resume r).logged id = x.logged id ++ c.appended id := by
  rcases cases_of_booking hx h with ⟨w, k, rfl, hasks, hk⟩ | ⟨w, k, rfl, hasks, hk⟩ | ⟨hx', hc, hy⟩
  · rw [hk]
    simp only [logged, (Execution.same_of_asks hasks r).user]
    by_cases hid : w.user = id
    · rw [if_pos hid, if_pos hid, Execution.logged?_of_asks hasks r, hid]
    · rw [if_neg hid, if_neg hid, Execution.appended_of_asks hasks hid, List.append_nil]
  · rw [hk]
    cases hasks with
    | _ => rfl
  · rw [logged_of_apart (hy r), logged_of_apart hx', Call.appended_of_not_booking hc,
      List.append_nil]

end Operation

namespace Floor

open Journal

variable {config : TradingConfig} {f f' : Floor} {id : String}

/-- Books in which the log and the generation of a user are what the journal says. -/
structure Told (f : Floor) (id : String) : Prop where
  log : f.books.store.log id = ((loggings id f.journal).map (·.2)).drop (removals id f.journal)
  removals_le : removals id f.journal ≤ (loggings id f.journal).length
  generation : (f.books.histories.slot id).generation = invalidations id f.journal

theorem told_opened (config : TradingConfig) (id : String) : (opened config).Told id :=
  ⟨rfl, le_refl _, rfl⟩

theorem told_called (hf : f.Told id) (n now : Nat) (x : Operation) (c : Call)
    (resume : Except StoreError c.Result → Operation) : (f.called n now x c resume).Told id := by
  have hadded : ((c.appended id).map (fun r => (n, r))).map (·.2) = c.appended id := by
    rw [List.map_map]
    exact List.map_id _
  have hlength : removals id f.journal ≤ ((loggings id f.journal).map (·.2)).length := by
    rw [List.length_map]
    exact hf.removals_le
  have hlog : f.books.store.log id ++ c.appended id =
      ((loggings id f.journal).map (·.2) ++ c.appended id).drop (removals id f.journal) := by
    rw [List.drop_append_of_le_length hlength, hf.log]
  refine ⟨?_, ?_, ?_⟩
  · simp only [called, loggings_append, loggings_singleton, removals_append, removals_singleton,
      List.map_append, hadded]
    rw [Call.log_perform, hlog, List.drop_drop]
  · simp only [called, loggings_append, loggings_singleton, removals_append, removals_singleton,
      List.length_append, List.length_map]
    -- What is removed now was there until now.
    have hremoved := c.removed_perform_le f.books now id
    rw [hlog, List.length_drop, List.length_append, List.length_map] at hremoved
    have := hf.removals_le
    omega
  · simp only [called, invalidations_append, invalidations_singleton]
    rw [Call.generation_perform, hf.generation]

/-- After every step the books are what the journal says. -/
theorem told_of_move {a : Action} (hf : f.Told id) (h : Move config f a f') : f'.Told id := by
  cases h with
  | call n now x c d resume hx hnext => exact told_called hf n now x c resume
  | sweep now =>
      refine ⟨hf.log, hf.removals_le, ?_⟩
      exact (f.books.histories.faded_purge now id).1.trans hf.generation
  | enter e | hear n news x y hx hy | leave n x hx => exact ⟨hf.log, hf.removals_le, hf.generation⟩

end Floor

end Bourse
