import Bourse.Proofs.Floor.Tasks
import Bourse.Proofs.Valuation.Paging

/-!
# Tidy Ledgers

What is always so on a ledger with whose calls nothing goes wrong. Tasks and results have
numbers that were given out, and so have the tasks that started others; so the next task
gets a number that nobody has. And every document is stored under its own id, since a
trade only stores a document that it has read under the id of its user.

## Main definitions

* `Operation.IsProper`: an operation that stores documents under their own ids.
* `Ledger.Tidy`: what is always so.

## Theorems

* `Ledger.tidy_of_stepTask?`: steps of tasks keep a ledger tidy.
* `Ledger.tidy_settle`: so does all that the ledger does at one time.
-/

namespace Bourse

/-- Whether an operation that is about to store a document stores it under its own id. -/
def Operation.IsProper : Operation → Prop
  | execution x => ∀ price m version u, x.phase = .storing price m version u → u.id = x.user
  | _ => True

/-- A document keeps its id in a trade. -/
theorem Execution.id_of_amend (x : Execution) {price : Amount} {time : Timestamp} {u u' : User}
    (h : x.amend price time u = .ok u') : u'.id = u.id := by
  unfold amend at h
  split at h
  · cases h
    rfl
  · cases h

namespace Operation

variable {x y : Operation}

/-- An operation that stores documents under their own ids makes only proper calls. -/
theorem IsProper.call {c : Call} {d : Deadline Operation}
    {resume : Except StoreError c.Result → Operation} (hx : x.IsProper)
    (h : x.next = .calling c d resume) : c.IsProper := by
  by_cases hc : c.isTrading = true
  · rcases exists_of_isTrading h hc with ⟨w, rfl⟩
    rcases Progress.calling_of_map h with ⟨d', k, hk, -⟩
    cases Execution.asks_of_next hk with
    | commit price m version u hphase => exact hx price m version u hphase
    | _ => trivial
  · cases c with
    | replaceUser id version u => exact absurd rfl hc
    | _ => trivial

/-- No news makes an operation store a document. -/
theorem isProper_of_hear? {w : Execution} {news : News}
    (h : (execution w).next.hear? news = some y) : y.IsProper := by
  rcases exists_of_hear? h with ⟨z, hz, rfl⟩
  rcases (Execution.cases_of_hear? hz).2 with ⟨price, rfl⟩ | ⟨price, m, rfl⟩ | ⟨e, rfl⟩ <;>
    exact fun _ _ _ _ => Execution.Phase.noConfusion

/-- What a trade is about to store is the document it has read, under the same id. -/
theorem isProper_of_call {w : Execution} {c : Call} {d : Deadline Operation}
    {resume : Except StoreError c.Result → Operation} {b : Books} (now : Nat)
    (h : (execution w).next = .calling c d resume) (hids : b.store.OwnIds) :
    (resume (c.perform b now).1).IsProper := by
  rcases Progress.calling_of_map h with ⟨d', k, hk, hresume⟩
  rw [hresume]
  cases Execution.asks_of_next hk with
  | document price m _ =>
      rcases w.cases_of_read price m (Call.perform b now (.readUser w.user)).1 with
        ⟨v, u, hread, hamend, heq⟩ | ⟨e, heq⟩
      · rw [heq]
        intro _ _ _ _ hphase
        cases hphase
        rw [w.id_of_amend hamend]
        exact hids w.user v (Except.ok.inj hread)
      · rw [heq]
        exact fun _ _ _ _ => Execution.Phase.noConfusion
  | commit price m version u _ =>
      rcases w.cases_of_stored price m (Call.perform b now (.replaceUser w.user version u)).1 with
        ⟨v, -, heq⟩ | ⟨e, heq⟩ <;>
      · rw [heq]
        exact fun _ _ _ _ => Execution.Phase.noConfusion
  | invalidate o _ =>
      intro _ _ _ _ hphase
      split at hphase <;> cases hphase
  | _ => exact fun _ _ _ _ => Execution.Phase.noConfusion

end Operation

namespace Task

variable {t t' : Task} {env : Surroundings} {d d' : Shared} {s : Stepped} {now : Nat}

/-- A task stays the same task, started by the same one, and no answer to it is kept back. -/
theorem Takes.task (h : t.Takes now d s d') (ht' : s.task? = some t')
    (hhold : ∀ m x, t.hold ≠ .withheld m x) :
    t'.id = t.id ∧ t'.parent = t.parent ∧ ∀ m x, t'.hold ≠ .withheld m x := by
  cases h with
  | waits hold hnot =>
      cases ht'
      exact ⟨rfl, rfl, hnot⟩
  | hears | calls | sleeps =>
      cases ht'
      exact ⟨rfl, rfl, fun _ _ => Hold.noConfusion⟩
  | starts | abandons =>
      cases ht'
      exact ⟨rfl, rfl, hhold⟩
  | ends => cases ht'

/-- A task still stores documents under their own ids. -/
theorem Does.isProper (h : t.Does env d s d') (ht' : s.task? = some t') (hids : d.books.store.OwnIds)
    (hproper : t.operation.IsProper) : t'.operation.IsProper := by
  cases hz : t'.operation with
  | execution z =>
      rw [← hz]
      -- Only a trade has a document to store, and it was a trade before the step.
      rcases h.execution ht' hz with ⟨x, hx⟩
      have hplain := x.isPlain_next
      cases h.takes with
      | waits =>
          cases ht'
          exact hproper
      | hears news y hy =>
          cases ht'
          rw [hx] at hy
          exact Operation.isProper_of_hear? hy
      | calls c deadline resume hnext =>
          cases ht'
          rw [hx] at hnext
          exact Operation.isProper_of_call _ hnext hids
      | sleeps _ _ hnext | starts _ _ hnext | abandons _ hnext =>
          rw [hx] at hnext
          rw [hnext] at hplain
          cases hplain
      | ends => cases ht'
  | _ => trivial

theorem Takes.faults (h : t.Takes now d s d') : d'.faults = d.faults := by
  cases h <;> rfl

/-- Documents stay stored under their own ids. -/
theorem Takes.ownIds (h : t.Takes now d s d') (hids : d.books.store.OwnIds)
    (hproper : t.operation.IsProper) : d'.books.store.OwnIds := by
  cases h with
  | calls c deadline resume hnext => exact Call.ownIds_perform now (hproper.call hnext) hids
  | _ => exact hids

end Task

/-- What is always so of a task on a ledger whose next number is `next`. -/
structure Task.Tidy (next : Nat) (t : Task) : Prop where
  id_lt : t.id < next
  parent_lt : ∀ p, t.parent = some p → p < next
  answered : ∀ m x, t.hold ≠ .withheld m x
  proper : t.operation.IsProper

theorem Task.Tidy.mono {t : Task} {next next' : Nat} (h : t.Tidy next) (hle : next ≤ next') :
    t.Tidy next' :=
  ⟨h.id_lt.trans_le hle, fun p hp => (h.parent_lt p hp).trans_le hle, h.answered, h.proper⟩

namespace Ledger

/-- What is always so on a ledger with whose calls nothing goes wrong. -/
structure Tidy (l : Ledger) : Prop where
  faults : l.shared.faults = []
  ownIds : l.books.store.OwnIds
  tasks : l.Every (Task.Tidy l.nextId)
  results : ∀ id o, l.results.get? id = some o → id < l.nextId

variable {l l' : Ledger} {t : Task} {env : Surroundings}

/-- Tasks may go and others take their place, as long as they are tidy. -/
theorem Tidy.of_tasks (h : l.Tidy) (hshared : l'.shared = l.shared) (hnext : l'.nextId = l.nextId)
    (hresults : l'.results = l.results) (htasks : l'.Every (Task.Tidy l.nextId)) : l'.Tidy := by
  refine ⟨hshared ▸ h.faults, ?_, hnext ▸ htasks, fun id o ho => ?_⟩
  · rw [books, hshared]
    exact h.ownIds
  · rw [hnext]
    exact h.results id o (hresults ▸ ho)

theorem Tidy.put (h : l.Tidy) (ht : t.Tidy l.nextId) : (l.put t).Tidy :=
  h.of_tasks rfl rfl rfl (Every.put h.tasks ht)

theorem Tidy.add (h : l.Tidy) {parent : Option Nat} {x : Operation}
    (hparent : ∀ p, parent = some p → p < l.nextId) (hx : x.IsProper) : (l.add parent x).Tidy := by
  have hold : l.Every (Task.Tidy (l.nextId + 1)) := fun t ht => (h.tasks t ht).mono (Nat.le_succ _)
  exact ⟨h.faults, h.ownIds, hold.add ⟨Nat.lt_succ_self _,
    fun p hp => Nat.lt_succ_of_lt (hparent p hp), fun _ _ => Hold.noConfusion, hx⟩,
    fun id o ho => Nat.lt_succ_of_lt (h.results id o ho)⟩

theorem tidy_cancel (h : l.Tidy) (id : Nat) : (l.cancel id).Tidy :=
  h.of_tasks rfl rfl rfl (every_cancel h.tasks id)

theorem tidy_moveBack (h : l.Tidy) (id : Nat) : (l.moveBack id).Tidy := by
  rcases l.moveBack_eq id with ⟨tasks, hmem, heq⟩
  rw [heq]
  exact h.of_tasks rfl rfl rfl (fun t ht => h.tasks t (hmem t ht))

/-- The run that is told of a valuation has the number it had. -/
theorem Tidy.tell (h : l.Tidy) (parent : Nat) (removed : Option Nat) : (l.tell parent removed).Tidy := by
  refine h.of_tasks rfl rfl rfl (Every.tell h.tasks (fun u removed htidy => ?_) parent removed)
  refine ⟨htidy.id_lt, htidy.parent_lt, htidy.answered, ?_⟩
  -- A trade does not heed what it is told.
  have hproper := htidy.proper
  cases hop : u.operation with
  | execution x =>
      rw [hop] at hproper
      exact hproper
  | _ => trivial

theorem Tidy.finish (h : l.Tidy) (ht : t ∈ l.tasks) (outcome : Option Outcome) :
    (l.finish t outcome).Tidy := by
  have hcancel := tidy_cancel h t.id
  unfold Ledger.finish
  split
  · exact hcancel.tell _ _
  · refine ⟨hcancel.faults, hcancel.ownIds, hcancel.tasks, fun id o ho => ?_⟩
    -- The new result has the number of the task that has ended.
    by_cases hid : id = t.id
    · rw [hid]
      exact (h.tasks t ht).id_lt
    · rw [Table.get?_insert_of_ne _ _ hid] at ho
      exact h.results id o ho

/-- Steps of tasks keep a ledger tidy. -/
theorem tidy_of_stepTask? (h : l.Tidy) (ht : t ∈ l.tasks) (hs : l.stepTask? env t = some l') :
    l'.Tidy := by
  have htidy := h.tasks t ht
  rcases stepTask?_eq_some hs with ⟨s, d, hstep, rfl⟩
  have hdoes := Task.does_of_step? h.faults htidy.answered hstep
  have hnew : ({ l with shared := d } : Ledger).Tidy :=
    ⟨hdoes.takes.faults.trans h.faults, hdoes.takes.ownIds h.ownIds htidy.proper, h.tasks, h.results⟩
  have hsame : ∀ t', s.task? = some t' → t'.Tidy l.nextId := by
    intro t' ht'
    rcases hdoes.takes.task ht' htidy.answered with ⟨hid, hparent, hhold⟩
    refine ⟨hid ▸ htidy.id_lt, fun p hp => htidy.parent_lt p (hparent ▸ hp), hhold, ?_⟩
    exact hdoes.isProper ht' h.ownIds htidy.proper
  cases s with
  | went t' => exact hnew.put (hsame t' rfl)
  | started t' child =>
      refine (hnew.put (hsame t' rfl)).add (fun p hp => ?_) trivial
      rw [← Option.some.inj hp]
      exact (hsame t' rfl).id_lt
  | abandoned t' =>
      have hput := hnew.put (hsame t' rfl)
      exact hput.of_tasks rfl rfl rfl (every_orphan hput.tasks t'.id)
  | ended outcome => exact hnew.finish ht outcome

/-- So does all that the ledger does at one time. -/
theorem tidy_settle (env : Surroundings) (h : l.Tidy) : (l.settle env).Tidy :=
  settle_induction Tidy (fun _ _ _ hl ht hs => tidy_of_stepTask? hl ht hs)
    (fun _ id hl => tidy_moveBack hl id) h

theorem tidy_create (trading : TradingConfig) (valuation : ValuationConfig) :
    (create trading valuation).Tidy :=
  ⟨rfl, fun _ _ hv => absurd hv nofun, fun _ ht => absurd ht List.not_mem_nil,
    fun _ _ ho => absurd ho nofun⟩

/-- An operation may begin, as long as it has no document to store. -/
theorem tidy_spawn (h : l.Tidy) {x : Operation} (hx : x.IsProper) : (l.spawn x).2.Tidy :=
  h.add (fun _ hp => absurd hp nofun) hx

end Ledger

end Bourse
