import Bourse.Ledger.Basic
import Bourse.Proofs.Floor.Basic
import Bourse.Proofs.Table

/-!
# What a Task Does

The steps of a task where nothing goes wrong with its calls, each with all that it does:
what it waits for, what it has heard, and which operation it goes on with. It holds for the
valuations as well, and it says where a price comes from.

An operation leads to operations of its own kind only. So whatever is known of trades
need not be looked at when another task takes a step.

## Main definitions

* `Task.Does`: what a step of a task can be.
* `Progress.Leads`: what an operation may go on with.
* `Stepped.task?`: the task after a step, unless it has ended.
* `Ledger.after`: the ledger after a step of a task.
* `Ledger.Every`: what is so of every task.

## Theorems

* `Task.does_of_step?`: a step is one of those.
* `Task.Does.execution`: the trade of a task comes from a trade.
* `Ledger.heed?_eq_some`: a task that heeds the stop signal ends.
* `Ledger.Every.after`: what is so of every task, after a step of one.
* `Ledger.result?_after`: where a result comes from.
-/

namespace Bourse

/-- What a step of a task can be. -/
inductive Task.Does (t : Task) (env : Surroundings) (d : Shared) : Stepped → Shared → Prop
  /-- It begins to wait for a price. -/
  | asks (symbol : String) (maxAge : Nat) (deadline : Deadline Operation)
      (resume : Except QuoteError Amount → Operation)
      (hnext : t.operation.next = .pricing symbol maxAge deadline resume) :
      Does t env d (t.wait (.reader (.start env.quotes symbol maxAge))) d
  /-- It looks for the price. -/
  | looks (r r' : QuoteReader) (hhold : t.hold = .reader r)
      (hstep : r.step env.quotes env.moment.now false = some r') :
      Does t env d (t.wait (.reader r')) d
  /-- It has the price, or an error in its place. -/
  | priced (r : QuoteReader) (result : Except QuoteError Amount) (symbol : String) (maxAge : Nat)
      (deadline : Deadline Operation) (resume : Except QuoteError Amount → Operation)
      (hhold : t.hold = .reader r) (hresult : r.result? = some result)
      (hnext : t.operation.next = .pricing symbol maxAge deadline resume) :
      Does t env d (t.goOn (resume result)) d
  /-- It does not wait for anything any more. -/
  | freed : Does t env d (t.wait .free) d
  | timed (resume : Moment → Operation) (hnext : t.operation.next = .reading resume) :
      Does t env d (t.goOn (resume env.moment)) d
  | late (due : Nat) (y : Operation) (hdeadline : t.deadline = some (due, y)) :
      Does t env d (t.goOn y) d
  | calls (c : Call) (deadline : Deadline Operation)
      (resume : Except StoreError c.Result → Operation)
      (hnext : t.operation.next = .calling c deadline resume) :
      Does t env d (t.goOn (resume (c.perform d.books env.moment.now).1))
        { d with books := (c.perform d.books env.moment.now).2 }
  | wakes (due : Nat) (y : Operation) (hnext : t.operation.next = .sleeping due y) :
      Does t env d (t.goOn y) d
  | starts (child : UserValuation) (y : Operation) (hhold : t.hold = .free)
      (hnext : t.operation.next = .starting child y) :
      Does t env d (.started { t with operation := y } child) d
  | abandons (y : Operation) (hhold : t.hold = .free) (hnext : t.operation.next = .abandoning y) :
      Does t env d (.abandoned { t with operation := y }) d
  | ends (r : Outcome) (hnext : t.operation.next = .finished r) : Does t env d (.ended (some r)) d
  | crashes (hnext : t.operation.next = .crashing) : Does t env d (.ended none) d

namespace Task

variable {t : Task} {env : Surroundings} {d d' : Shared} {s : Stepped}

/-- Where nothing goes wrong, a call that begins is made. -/
theorem beginCall_of_faults (hfaults : d.faults = []) (c : Call)
    (resume : Except StoreError c.Result → Operation) :
    t.beginCall env d c resume = t.makeCall env d c resume := by
  unfold beginCall
  simp only [hfaults, Fault.take]
  rw [← hfaults]

theorem beginPricing_of_faults (hfaults : d.faults = []) (symbol : String) (maxAge : Nat)
    (resume : Except QuoteError Amount → Operation) :
    t.beginPricing env d symbol maxAge resume =
      (t.wait (.reader (.start env.quotes symbol maxAge)), d) := by
  unfold beginPricing
  simp only [hfaults, Fault.take]
  rw [← hfaults]

theorem does_of_late? (d : Shared) (h : t.late? env.moment.now t.deadline = some s) :
    t.Does env d s d := by
  unfold late? at h
  split at h
  · next due y hdeadline =>
    split_ifs at h
    rw [← Option.some.inj h]
    exact .late due y hdeadline
  · exact absurd h (by simp only [reduceCtorEq, not_false_eq_true])

theorem does_of_begin? (hfaults : d.faults = []) (hhold : t.hold = .free)
    (h : t.begin? env d = some (s, d')) : t.Does env d s d' := by
  unfold begin? at h
  split at h
  · next r hnext =>
    cases Option.some.inj h
    exact .ends r hnext
  · next hnext =>
    cases Option.some.inj h
    exact .crashes hnext
  · next resume hnext =>
    cases Option.some.inj h
    exact .timed resume hnext
  · next symbol maxAge deadline resume hnext =>
    rw [beginPricing_of_faults hfaults] at h
    cases Option.some.inj h
    exact .asks symbol maxAge deadline resume hnext
  · next c deadline resume hnext =>
    rw [beginCall_of_faults hfaults] at h
    cases Option.some.inj h
    exact .calls c deadline resume hnext
  · next due y hnext =>
    split_ifs at h
    cases Option.some.inj h
    exact .wakes due y hnext
  · next child y hnext =>
    cases Option.some.inj h
    exact .starts child y hhold hnext
  · exact absurd h (by simp only [reduceCtorEq, not_false_eq_true])
  · next y hnext =>
    cases Option.some.inj h
    exact .abandons y hhold hnext

theorem does_resume : t.Does env d (t.resume env d).1 (t.resume env d).2 := by
  unfold resume
  split
  · next symbol maxAge deadline resume hnext => exact .asks symbol maxAge deadline resume hnext
  · next c deadline resume hnext => exact .calls c deadline resume hnext
  · exact .freed

theorem does_of_read? {r : QuoteReader} (d : Shared) (hhold : t.hold = .reader r)
    (h : t.read? env r = some s) : t.Does env d s d := by
  unfold read? at h
  split at h
  · next result hresult =>
    split at h
    · next symbol maxAge deadline resume hnext =>
      rw [← Option.some.inj h]
      exact .priced r result symbol maxAge deadline resume hhold hresult hnext
    · rw [← Option.some.inj h]
      exact .freed
  · rcases Option.map_eq_some_iff.1 h with ⟨r', hstep, rfl⟩
    exact .looks r r' hhold hstep

/-- A step of a task with whose calls nothing goes wrong. -/
theorem does_of_step? (hfaults : d.faults = []) (hhold : ∀ m x, t.hold ≠ .withheld m x)
    (h : t.step? env d = some (s, d')) : t.Does env d s d' := by
  unfold step? at h
  cases hh : t.hold with
  | free =>
      simp only [hh] at h
      exact does_of_begin? hfaults hh h
  | delayed due =>
      simp only [hh] at h
      -- The delay may end first, or the deadline may pass.
      split_ifs at h
      · rw [← (Prod.mk.inj (Option.some.inj h)).1, ← (Prod.mk.inj (Option.some.inj h)).2]
        exact does_resume
      · rcases Option.map_eq_some_iff.1 h with ⟨s', hs, heq⟩
        cases heq
        exact does_of_late? d hs
  | stalled =>
      simp only [hh] at h
      rcases Option.map_eq_some_iff.1 h with ⟨s', hs, heq⟩
      cases heq
      exact does_of_late? d hs
  | withheld m x => exact absurd hh (hhold m x)
  | reader r =>
      simp only [hh] at h
      cases hread : t.read? env r with
      | some s' =>
          rw [hread] at h
          cases Option.some.inj h
          exact does_of_read? d hh hread
      | none =>
          rw [hread] at h
          rcases Option.map_eq_some_iff.1 h with ⟨s', hs, heq⟩
          cases heq
          exact does_of_late? d hs

end Task

/-! ## Operations and their kind -/

/-- What an operation may go on with at some moment. -/
inductive Progress.Leads (m : Moment) : Progress κ σ ρ → σ → Prop
  | reading (resume : Moment → σ) : Leads m (.reading resume) (resume m)
  | priced (symbol : String) (maxAge : Nat) (deadline : Deadline σ)
      (resume : Except QuoteError Amount → σ) (answer : Except QuoteError Amount) :
      Leads m (.pricing symbol maxAge deadline resume) (resume answer)
  | unpriced (symbol : String) (maxAge due : Nat) (deadline : Deadline σ) (y : σ)
      (resume : Except QuoteError Amount → σ) (hdeadline : deadline = some (due, y)) :
      Leads m (.pricing symbol maxAge deadline resume) y
  | answered (c : Call) (deadline : Deadline σ) (resume : Except StoreError c.Result → σ)
      (answer : Except StoreError c.Result) : Leads m (.calling c deadline resume) (resume answer)
  | unanswered (c : Call) (due : Nat) (deadline : Deadline σ) (y : σ)
      (resume : Except StoreError c.Result → σ) (hdeadline : deadline = some (due, y)) :
      Leads m (.calling c deadline resume) y
  | wakes (due : Nat) (y : σ) : Leads m (.sleeping due y) y
  | starts (child : κ) (y : σ) : Leads m (.starting child y) y
  | abandons (y : σ) : Leads m (.abandoning y) y

/-- An operation within another leads to what it would lead to alone. -/
theorem Progress.exists_of_leads_map {f : σ → τ} {g : ρ → ρ'} {p : Progress κ σ ρ} {m : Moment} {y : τ}
    (h : (p.map f g).Leads m y) : ∃ z, p.Leads m z ∧ y = f z := by
  generalize hq : p.map f g = q at h
  cases p with
  | finished r => cases hq; cases h
  | crashing => cases hq; cases h
  | joining => cases hq; cases h
  | reading resume =>
      cases hq
      cases h with
      | reading _ => exact ⟨resume m, .reading resume, rfl⟩
  | pricing symbol maxAge deadline resume =>
      cases hq
      cases h with
      | priced _ _ _ _ answer => exact ⟨resume answer, .priced _ _ _ _ answer, rfl⟩
      | unpriced _ _ due _ _ _ hdeadline =>
          rcases Option.map_eq_some_iff.1 hdeadline with ⟨e, hlate, he⟩
          exact ⟨e.2, .unpriced _ _ e.1 _ _ _ hlate, (congrArg Prod.snd he).symm⟩
  | calling c deadline resume =>
      cases hq
      cases h with
      | answered _ _ _ answer => exact ⟨resume answer, .answered c _ _ answer, rfl⟩
      | unanswered _ due _ _ _ hdeadline =>
          rcases Option.map_eq_some_iff.1 hdeadline with ⟨e, hlate, he⟩
          exact ⟨e.2, .unanswered c e.1 _ _ _ hlate, (congrArg Prod.snd he).symm⟩
  | sleeping due z =>
      cases hq
      cases h
      exact ⟨z, .wakes due z, rfl⟩
  | starting child z =>
      cases hq
      cases h
      exact ⟨z, .starts child z, rfl⟩
  | abandoning z =>
      cases hq
      cases h
      exact ⟨z, .abandons z, rfl⟩

/-- Whether only trades make a call. -/
def Call.isTrading : Call → Bool
  | replaceUser .. | appendTrade .. => true
  | _ => false

theorem ValuationRun.isTrading_of_next {x : ValuationRun} {c : Call} {d : Deadline ValuationRun}
    {resume : Except StoreError c.Result → ValuationRun} (h : x.next = .calling c d resume) :
    c.isTrading = false := by
  unfold next at h
  split at h
  · split_ifs at h
    cases h
    rfl
  · exact absurd h (by simp only [reduceCtorEq, not_false_eq_true])
  · exact absurd h (by simp only [reduceCtorEq, not_false_eq_true])
  · split_ifs at h
  · cases h
    rfl
  · split_ifs at h
  · exact absurd h (by simp only [reduceCtorEq, not_false_eq_true])
  · exact absurd h (by simp only [reduceCtorEq, not_false_eq_true])

/-- Only trades replace documents and write into logs. -/
theorem Operation.exists_of_isTrading {x : Operation} {c : Call} {d : Deadline Operation}
    {resume : Except StoreError c.Result → Operation} (h : x.next = .calling c d resume)
    (hc : c.isTrading = true) : ∃ y, x = .execution y := by
  cases x with
  | execution y => exact ⟨y, rfl⟩
  | opening y =>
      rcases Progress.calling_of_map h with ⟨d', k, hk, -⟩
      unfold AccountOpening.next at hk
      split at hk
      · cases hk; exact absurd hc Bool.false_ne_true
      · cases hk
      · cases hk; exact absurd hc Bool.false_ne_true
      · cases hk; exact absurd hc Bool.false_ne_true
      · cases hk; exact absurd hc Bool.false_ne_true
      · cases hk
  | portfolio y =>
      rcases Progress.calling_of_map h with ⟨d', k, hk, -⟩
      cases y with
      | reading user => cases hk; exact absurd hc Bool.false_ne_true
      | finished r => cases hk
  | history y =>
      rcases Progress.calling_of_map h with ⟨d', k, hk, -⟩
      cases y with
      | looking user => cases hk; exact absurd hc Bool.false_ne_true
      | listing user generation => cases hk; exact absurd hc Bool.false_ne_true
      | saving user generation trades => cases hk; exact absurd hc Bool.false_ne_true
      | finished r => cases hk
  | snapshots y =>
      rcases Progress.calling_of_map h with ⟨d', k, hk, -⟩
      cases y with
      | reading user => cases hk; exact absurd hc Bool.false_ne_true
      | finished r => cases hk
  | valuation y =>
      rcases Progress.calling_of_map h with ⟨d', k, hk, -⟩
      rw [ValuationRun.isTrading_of_next hk] at hc
      exact absurd hc Bool.false_ne_true
  | userValuation y =>
      rcases Progress.calling_of_map h with ⟨d', k, hk, -⟩
      unfold UserValuation.next at hk
      split at hk
      · cases hk; exact absurd hc Bool.false_ne_true
      · cases hk; exact absurd hc Bool.false_ne_true
      · cases hk
  | job y =>
      rcases Progress.calling_of_map h with ⟨d', k, hk, -⟩
      unfold ValuationJob.next at hk
      split at hk
      · cases hk
      · cases hk
      · split at hk
        · split_ifs at hk
        · cases hk
        · rcases Progress.calling_of_map hk with ⟨d'', k', hk', -⟩
          rw [ValuationRun.isTrading_of_next hk'] at hc
          exact absurd hc Bool.false_ne_true
      · cases hk
      · cases hk

/-- Only a trade leads to a trade. -/
theorem Operation.exists_of_leads_execution {x : Operation} {m : Moment} {z : Execution}
    (h : x.next.Leads m (.execution z)) : ∃ y, x = .execution y := by
  cases x with
  | execution y => exact ⟨y, rfl⟩
  | _ =>
      rcases Progress.exists_of_leads_map h with ⟨y, -, hy⟩
      exact Operation.noConfusion hy

/-- Only a trade ends with the result of a trade. -/
theorem Operation.exists_of_finished {x : Operation} {r : Except TradeError TradeOutcome}
    (h : x.next = .finished (.execution r)) : ∃ y, x = .execution y := by
  have hresult : ∀ {κ σ ρ : Type} {p : Progress κ σ ρ} {f : σ → Operation} {g : ρ → Outcome},
      p.map f g = .finished (.execution r) → ∃ r', g r' = .execution r := by
    intro κ σ ρ p f g hp
    cases p with
    | finished r' => exact ⟨r', Progress.finished.inj hp⟩
    | _ => exact absurd hp (by simp only [Progress.map, reduceCtorEq, not_false_eq_true])
  cases x with
  | execution y => exact ⟨y, rfl⟩
  | _ =>
      rcases hresult h with ⟨r', hr'⟩
      exact Outcome.noConfusion hr'

/-- The task after a step, unless it has ended. -/
def Stepped.task? : Stepped → Option Task
  | .went t | .started t _ | .abandoned t => some t
  | .ended _ => none

namespace Task

variable {t t' : Task} {env : Surroundings} {d d' : Shared} {s : Stepped}

/-- A task is the same task after a step, of the same operation or one that this leads to. -/
theorem Does.task (h : t.Does env d s d') (ht' : s.task? = some t') :
    t'.id = t.id ∧ (t'.hold = t.hold ∨ t'.hold = .free ∨ ∃ r, t'.hold = .reader r) ∧
      (t'.operation = t.operation ∨ t.operation.next.Leads env.moment t'.operation) := by
  have hdeadline : ∀ {due y}, t.deadline = some (due, y) → t.operation.next.Leads env.moment y := by
    intro due y hdue
    unfold deadline at hdue
    split at hdue
    · next symbol maxAge deadline resume hnext =>
      rw [hnext]
      exact .unpriced symbol maxAge due deadline y resume hdue
    · next c deadline resume hnext =>
      rw [hnext]
      exact .unanswered c due deadline y resume hdue
    · exact absurd hdue (by simp only [reduceCtorEq, not_false_eq_true])
  cases h with
  | asks symbol maxAge deadline resume hnext =>
      cases Option.some.inj ht'
      exact ⟨rfl, Or.inr (Or.inr ⟨_, rfl⟩), Or.inl rfl⟩
  | looks r r' hhold hstep =>
      cases Option.some.inj ht'
      exact ⟨rfl, Or.inr (Or.inr ⟨_, rfl⟩), Or.inl rfl⟩
  | priced r result symbol maxAge deadline resume hhold hresult hnext =>
      cases Option.some.inj ht'
      exact ⟨rfl, Or.inr (Or.inl rfl), Or.inr (hnext ▸ .priced symbol maxAge deadline resume result)⟩
  | freed =>
      cases Option.some.inj ht'
      exact ⟨rfl, Or.inr (Or.inl rfl), Or.inl rfl⟩
  | timed resume hnext =>
      cases Option.some.inj ht'
      exact ⟨rfl, Or.inr (Or.inl rfl), Or.inr (hnext ▸ .reading resume)⟩
  | late due y hdue =>
      cases Option.some.inj ht'
      exact ⟨rfl, Or.inr (Or.inl rfl), Or.inr (hdeadline hdue)⟩
  | calls c deadline resume hnext =>
      cases Option.some.inj ht'
      exact ⟨rfl, Or.inr (Or.inl rfl), Or.inr (hnext ▸ .answered c deadline resume _)⟩
  | wakes due y hnext =>
      cases Option.some.inj ht'
      exact ⟨rfl, Or.inr (Or.inl rfl), Or.inr (hnext ▸ .wakes due y)⟩
  | starts child y hhold hnext =>
      cases Option.some.inj ht'
      exact ⟨rfl, Or.inl rfl, Or.inr (hnext ▸ .starts child y)⟩
  | abandons y hhold hnext =>
      cases Option.some.inj ht'
      exact ⟨rfl, Or.inl rfl, Or.inr (hnext ▸ .abandons y)⟩
  | ends r hnext => exact absurd ht' (by simp only [Stepped.task?, reduceCtorEq, not_false_eq_true])
  | crashes hnext =>
      exact absurd ht' (by simp only [Stepped.task?, reduceCtorEq, not_false_eq_true])

/-- The trade of a task comes from a trade. -/
theorem Does.execution (h : t.Does env d s d') (ht' : s.task? = some t') {z : Execution}
    (hz : t'.operation = .execution z) : ∃ x, t.operation = .execution x := by
  rcases (h.task ht').2.2 with hsame | hleads
  · exact ⟨z, hsame.symm.trans hz⟩
  · rw [hz] at hleads
    exact Operation.exists_of_leads_execution hleads

end Task

namespace Ledger

variable {l l' : Ledger} {t : Task}

theorem mem_cancel {id : Nat} : t ∈ (l.cancel id).tasks ↔
    t ∈ l.tasks ∧ t.id ≠ id ∧ t.parent ≠ some id := by
  simp only [cancel, orphan, List.mem_filter, decide_eq_true_eq, and_assoc]

/-- The ledger after a step of one of its tasks. -/
def after (l : Ledger) (t : Task) : Stepped → Ledger
  | .went t' => l.put t'
  | .started t' child => (l.put t').add (some t'.id) (.userValuation child)
  | .abandoned t' => (l.put t').orphan t'.id
  | .ended outcome => l.finish t outcome

/-- A task that heeds the stop signal ends, whatever it is busy with. -/
theorem heed?_eq_some {id : Nat} (h : l.heed? id = some l') : ∃ t, l.task? id = some t ∧
    t.operation.heeds = true ∧ l' = l.after t (.ended (some .job)) := by
  rcases Option.bind_eq_some_iff.1 h with ⟨t, ht, hended⟩
  split_ifs at hended with hheeds
  exact ⟨t, ht, hheeds, (Option.some.inj hended).symm⟩

theorem stepTask?_eq_some {env : Surroundings} (h : l.stepTask? env t = some l') :
    ∃ st d, t.step? env l.shared = some (st, d) ∧
      l' = ({ l with shared := d } : Ledger).after t st := by
  unfold stepTask? at h
  cases hstep : t.step? env l.shared with
  | none =>
      rw [hstep] at h
      cases h
  | some p =>
      rw [hstep] at h
      refine ⟨p.1, p.2, rfl, ?_⟩
      rcases p with ⟨st, d⟩
      cases st <;> exact (Option.some.inj h).symm

/-! ## What is so of every task -/

/-- Something is so of every task of a ledger. -/
def Every (l : Ledger) (P : Task → Prop) : Prop := ∀ t ∈ l.tasks, P t

variable {P : Task → Prop}

theorem every_cancel (h : l.Every P) (id : Nat) : (l.cancel id).Every P :=
  fun t ht => h t (mem_cancel.1 ht).1

theorem every_orphan (h : l.Every P) (id : Nat) : (l.orphan id).Every P :=
  fun t ht => h t (List.mem_filter.1 ht).1

/-- A task that goes to the end of the line is one that was in it, and nothing else changes. -/
theorem moveBack_eq (l : Ledger) (id : Nat) :
    ∃ tasks, (∀ t ∈ tasks, t ∈ l.tasks) ∧ l.moveBack id = { l with tasks } := by
  unfold moveBack
  split
  · exact ⟨l.tasks, fun _ ht => ht, rfl⟩
  · next t hfound =>
    refine ⟨_, fun u hu => ?_, rfl⟩
    rcases List.mem_append.1 hu with hold | hmoved
    · exact (List.mem_filter.1 hold).1
    · rw [List.mem_singleton.1 hmoved]
      exact List.mem_of_find?_eq_some hfound

theorem Every.put (h : l.Every P) (ht : P t) : (l.put t).Every P := by
  intro u hu
  rcases List.mem_map.1 hu with ⟨old, hold, rfl⟩
  split
  · exact ht
  · exact h old hold

theorem Every.add (h : l.Every P) {parent : Option Nat} {x : Operation}
    (hx : P ⟨l.nextId, parent, x, .free⟩) : (l.add parent x).Every P := by
  intro u hu
  rcases List.mem_append.1 hu with hold | hnew
  · exact h u hold
  · rw [List.mem_singleton.1 hnew]
    exact hx

theorem Every.tell (h : l.Every P)
    (hended : ∀ t removed, P t → P { t with operation := t.operation.ended removed }) (parent : Nat)
    (removed : Option Nat) : (l.tell parent removed).Every P := by
  intro u hu
  rcases List.mem_map.1 hu with ⟨told, htold, rfl⟩
  split
  · exact hended told removed (h told htold)
  · exact h told htold

/-- What is so of every task is so after a step of one, if it is so of the task after the step, of a
valuation that it starts, and of a task that hears of the end of one. -/
theorem Every.after (h : l.Every P) {st : Stepped}
    (hended : ∀ t removed, P t → P { t with operation := t.operation.ended removed })
    (htask : ∀ t', st.task? = some t' → P t')
    (hchild : ∀ t' child, st = .started t' child →
      P ⟨l.nextId, some t'.id, .userValuation child, .free⟩) : (l.after t st).Every P := by
  cases st with
  | went t' => exact h.put (htask t' rfl)
  | started t' child => exact (h.put (htask t' rfl)).add (hchild t' child rfl)
  | abandoned t' => exact every_orphan (h.put (htask t' rfl)) t'.id
  | ended outcome =>
      have hleft := every_cancel h t.id
      simp only [Ledger.after, finish]
      split
      · exact hleft.tell hended _ _
      · exact hleft

theorem shared_after (l : Ledger) (t : Task) (st : Stepped) : (l.after t st).shared = l.shared := by
  cases st with
  | ended outcome =>
      simp only [after, finish]
      split
      · rfl
      · rfl
  | _ => rfl

/-- A task that heeds the stop signal leaves the books alone. -/
theorem shared_heed? {id : Nat} (h : l.heed? id = some l') : l'.shared = l.shared := by
  rcases heed?_eq_some h with ⟨t, -, -, rfl⟩
  exact shared_after l t (.ended (some .job))

/-- A result was there before a step of a task, or the task has ended with it. -/
theorem result?_after {st : Stepped} {id : Nat} {outcome : Option Outcome}
    (h : (l.after t st).result? id = some outcome) :
    l.result? id = some outcome ∨ id = t.id ∧ st = .ended outcome := by
  cases st with
  | ended outcome' =>
      simp only [after, finish] at h
      split at h
      · exact .inl h
      · rw [result?, Table.get?_insert_eq] at h
        split at h
        · next hid => exact .inr ⟨hid, congrArg Stepped.ended (Option.some.inj h)⟩
        · exact .inl h
  | _ => exact .inl h

end Ledger

end Bourse
