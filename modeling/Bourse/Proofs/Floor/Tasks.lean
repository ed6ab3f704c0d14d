import Bourse.Proofs.Floor.Commits
import Bourse.Proofs.Ledger.Steps

/-!
# The Ledger on the Floor

The ledger takes the steps of its tasks in an order of its own and makes up its own
mind about when a price has come or a deadline has passed. Every state it gets into
in that way, as long as nothing goes wrong with its calls, is one that the floor
gets into as well. So what holds after every run on the floor holds for the ledger,
whatever its order is and however often it is settled in between.

A task is a visitor with a hold on something. What the hold does is wait, and
waiting changes neither the operation nor the books; so a step of a task is a step
of the visitor or none at all.

## Main definitions

* `Progress.ending?`: what an operation ends with.
* `Task.Takes`: what a step of a task is to its operation and to the books.
* `Floor.Reachable`: a floor after some run from the beginning.
* `Ledger.Mirrors`, `Ledger.OnFloor`: a ledger whose tasks are visitors of a floor.

## Theorems

* `Task.takes_of_step?`: what a step of a task can be.
* `Ledger.settle_induction`: what steps keep is kept by all that the ledger does at one time.
* `Ledger.mirrors_of_takes`: a step of a task is at most one step on the floor.
* `Ledger.onFloor_settle`: all that the ledger does at one time keeps it on the floor.
* `Ledger.exists_replay_of_onFloor`: every document of the ledger is a replay.
-/

namespace Bourse

/-- Whether an operation only hears, calls and ends. -/
def Progress.isPlain : Progress κ σ ρ → Bool
  | .finished _ | .reading _ | .pricing .. | .calling .. => true
  | .crashing | .sleeping .. | .starting .. | .joining | .abandoning _ => false

theorem Progress.isPlain_map (f : σ → τ) (g : ρ → ρ') (p : Progress κ σ ρ) :
    (p.map f g).isPlain = p.isPlain := by
  cases p <;> rfl

/-- A trade does no more than that. -/
theorem Execution.isPlain_next (x : Execution) : (Operation.execution x).next.isPlain = true := by
  rw [Operation.next, Progress.isPlain_map, next]
  split <;> rfl

/-- What an operation ends with, if this is its end; nothing if it breaks off. -/
def Progress.ending? : Progress κ σ ρ → Option (Option ρ)
  | .finished r => some (some r)
  | .crashing => some none
  | _ => none

/-- What a step of a task is to its operation and to what the tasks share. -/
inductive Task.Takes (t : Task) (now : Nat) (d : Shared) : Stepped → Shared → Prop
  /-- It waits, or waits for something else. -/
  | waits (hold : Hold) (h : ∀ m x, hold ≠ .withheld m x) : Takes t now d (t.wait hold) d
  | hears (news : News) (y : Operation) (h : t.operation.next.hear? news = some y) :
      Takes t now d (t.goOn y) d
  | calls (c : Call) (deadline : Deadline Operation)
      (resume : Except StoreError c.Result → Operation)
      (h : t.operation.next = .calling c deadline resume) :
      Takes t now d (t.goOn (resume (c.perform d.books now).1))
        { d with books := (c.perform d.books now).2 }
  | ends (outcome : Option Outcome) (h : t.operation.next.ending? = some outcome) :
      Takes t now d (.ended outcome) d
  | sleeps (due : Nat) (y : Operation) (h : t.operation.next = .sleeping due y) :
      Takes t now d (t.goOn y) d
  | starts (child : UserValuation) (y : Operation) (h : t.operation.next = .starting child y) :
      Takes t now d (.started { t with operation := y } child) d
  | abandons (y : Operation) (h : t.operation.next = .abandoning y) :
      Takes t now d (.abandoned { t with operation := y }) d

namespace Task

variable {t : Task} {env : Surroundings} {d d' : Shared} {s : Stepped}

/-- What a step of a task is to its operation, and no more. -/
theorem Does.takes (h : t.Does env d s d') : t.Takes env.moment.now d s d' := by
  cases h with
  | asks | looks | freed => exact .waits _ (fun _ _ => Hold.noConfusion)
  | priced r result symbol maxAge deadline resume _ _ hnext =>
      exact .hears (.price result) _ (by rw [hnext]; rfl)
  | timed resume hnext => exact .hears (.clock env.moment) _ (by rw [hnext]; rfl)
  | late due y hdeadline =>
      -- A deadline that has passed is news.
      refine .hears .late y ?_
      unfold deadline at hdeadline
      split at hdeadline
      · next hnext => rw [hnext, Progress.hear?, hdeadline, Option.map_some]
      · next hnext => rw [hnext, Progress.hear?, hdeadline, Option.map_some]
      · cases hdeadline
  | calls c deadline resume hnext => exact .calls c deadline resume hnext
  | wakes due y hnext => exact .sleeps due y hnext
  | starts child y _ hnext => exact .starts child y hnext
  | abandons y _ hnext => exact .abandons y hnext
  | ends r hnext => exact .ends (some r) (by rw [hnext]; rfl)
  | crashes hnext => exact .ends none (by rw [hnext]; rfl)

/-- Where nothing goes wrong with its calls, a step of a task is a step of a visitor, or a wait. -/
theorem takes_of_step? (hfaults : d.faults = []) (hhold : ∀ m x, t.hold ≠ .withheld m x)
    (h : t.step? env d = some (s, d')) : t.Takes env.moment.now d s d' :=
  (does_of_step? hfaults hhold h).takes

end Task

/-- An errand takes none of the steps that only valuations take. -/
theorem Operation.isPlain_of_upright {config : TradingConfig} {s : Store} {x : Operation}
    (h : x.Upright config s) : x.next.isPlain = true := by
  cases x with
  | execution x => exact x.isPlain_next
  | opening x =>
      rw [next, Progress.isPlain_map, AccountOpening.next]
      split <;> rfl
  | portfolio x =>
      rw [next, Progress.isPlain_map]
      cases x <;> rfl
  | history x =>
      rw [next, Progress.isPlain_map]
      cases x <;> rfl
  | snapshots x =>
      rw [next, Progress.isPlain_map]
      cases x <;> rfl
  | valuation x | userValuation x | job x => exact h.elim

namespace Floor

/-- A floor after some run from the beginning. -/
def Reachable (config : TradingConfig) (f : Floor) : Prop :=
  ∃ actions, (opened config).run? config actions = some f

variable {config : TradingConfig} {f f' : Floor} {a : Action}

theorem Reachable.step (hf : f.Reachable config) (h : f.step? config a = some f') :
    f'.Reachable config := by
  rcases hf with ⟨actions, hrun⟩
  exact ⟨actions ++ [a], run?_concat hrun h⟩

variable {n : Nat} {x : Operation}

theorem step?_hear {news : News} {y : Operation} (hx : f.visits[n]? = some ⟨x, true⟩)
    (hy : x.next.hear? news = some y) : f.step? config (.hear n news) = some (f.goOn n y) := by
  simp only [step?, present?, hx, hy, Option.map_some]

theorem step?_call {now : Nat} {c : Call} {d : Deadline Operation}
    {resume : Except StoreError c.Result → Operation} (hx : f.visits[n]? = some ⟨x, true⟩)
    (hnext : x.next = .calling c d resume) :
    f.step? config (.call n now) = some (f.called n now x c resume) := by
  simp only [step?, present?, hx]
  rw [hnext]

end Floor

namespace Ledger

/-- A ledger whose tasks are visitors of a floor, over the same books and with no fault in line. -/
structure Mirrors (l : Ledger) (f : Floor) : Prop where
  books : l.shared.books = f.books
  faults : l.shared.faults = []
  nextId : l.nextId = f.visits.length
  tasks : ∀ t ∈ l.tasks, t.parent = none ∧ (∀ m x, t.hold ≠ .withheld m x) ∧
    f.visits[t.id]? = some ⟨t.operation, true⟩

/-- A ledger that mirrors some floor reached from the beginning. -/
def OnFloor (config : TradingConfig) (l : Ledger) : Prop :=
  ∃ f : Floor, f.Reachable config ∧ l.Mirrors f

variable {config : TradingConfig} {l l' : Ledger} {f f' : Floor}

/-- A ledger that has lost tasks mirrors the same floor, and their order does not matter. -/
theorem Mirrors.of_tasks (h : l.Mirrors f) (hshared : l'.shared = l.shared)
    (hid : l'.nextId = l.nextId) (htasks : ∀ t ∈ l'.tasks, t ∈ l.tasks) : l'.Mirrors f := by
  refine ⟨?_, ?_, hid.trans h.nextId, fun t ht => h.tasks t (htasks t ht)⟩
  · rw [hshared]
    exact h.books
  · rw [hshared]
    exact h.faults

/-- A task that has changed is put back where its visitor has changed. -/
theorem Mirrors.put (h : l.Mirrors f) {d : Shared} {t : Task} (hbooks : d.books = f'.books)
    (hfaults : d.faults = []) (hlength : f'.visits.length = f.visits.length)
    (hparent : t.parent = none) (hhold : ∀ m x, t.hold ≠ .withheld m x)
    (hvisit : f'.visits[t.id]? = some ⟨t.operation, true⟩)
    (hothers : ∀ k, k ≠ t.id → f'.visits[k]? = f.visits[k]?) :
    (({ l with shared := d } : Ledger).put t).Mirrors f' := by
  refine ⟨hbooks, hfaults, h.nextId.trans hlength.symm, fun s hs => ?_⟩
  rcases List.mem_map.1 hs with ⟨s', hs', rfl⟩
  split
  · exact ⟨hparent, hhold, hvisit⟩
  · next hne =>
    rcases h.tasks s' hs' with ⟨hp, hh, hv⟩
    refine ⟨hp, hh, ?_⟩
    rw [hothers s'.id hne]
    exact hv

/-- A step of a task is at most one step on the floor. -/
theorem mirrors_of_takes {t : Task} {now : Nat} {d : Shared} {s : Stepped} (hf : f.Upright config)
    (h : l.Mirrors f) (ht : t ∈ l.tasks) (htakes : t.Takes now l.shared s d) :
    ∃ f', (f' = f ∨ ∃ a, f.step? config a = some f') ∧
      (match s with
        | .went t' => (({ l with shared := d } : Ledger).put t').Mirrors f'
        | .ended _ => d = l.shared
        | _ => False) := by
  rcases h.tasks t ht with ⟨hparent, hhold, hvisit⟩
  cases htakes with
  | waits hold hnot =>
      exact ⟨f, Or.inl rfl, h.put h.books h.faults rfl hparent hnot hvisit (fun _ _ => rfl)⟩
  | hears news y hy =>
      refine ⟨f.goOn t.id y, Or.inr ⟨_, Floor.step?_hear hvisit hy⟩, ?_⟩
      refine h.put h.books h.faults (List.length_set) hparent
        (fun _ _ => by simp only [ne_eq, reduceCtorEq, not_false_eq_true])
        (Floor.getElem?_set_visit hvisit _) (fun k hk => List.getElem?_set_ne (Ne.symm hk))
  | calls c deadline resume hnext =>
      -- The books are the same, so the call is answered in the same way.
      refine ⟨f.called t.id now t.operation c resume, Or.inr ⟨_, Floor.step?_call hvisit hnext⟩, ?_⟩
      have hbooks : l.shared.books = f.books := h.books
      refine h.put ?_ h.faults (List.length_set) hparent
        (fun _ _ => by simp only [ne_eq, reduceCtorEq, not_false_eq_true]) ?_
        (fun k hk => List.getElem?_set_ne (Ne.symm hk))
      · simp only [hbooks, Floor.called]
      · rw [hbooks]
        exact Floor.getElem?_set_visit hvisit _
  | ends outcome _ => exact ⟨f, Or.inl rfl, rfl⟩
  | sleeps _ _ hnext | starts _ _ hnext | abandons _ hnext =>
      have hplain := Operation.isPlain_of_upright (hf t.id _ hvisit)
      rw [hnext] at hplain
      exact Bool.noConfusion hplain

/-- A step of a task keeps the ledger on the floor. -/
theorem onFloor_of_stepTask? {env : Surroundings} {t : Task} (h : l.OnFloor config)
    (ht : t ∈ l.tasks) (hs : l.stepTask? env t = some l') : l'.OnFloor config := by
  rcases h with ⟨f, hreach, hm⟩
  have hup : f.Upright config := by
    rcases hreach with ⟨actions, hrun⟩
    exact (Floor.kept_of_run? hrun).1
  rcases hm.tasks t ht with ⟨hparent, hhold, -⟩
  rcases stepTask?_eq_some hs with ⟨s, d, hstep, rfl⟩
  have htakes := Task.takes_of_step? hm.faults hhold hstep
  rcases mirrors_of_takes hup hm ht htakes with ⟨f', hf', hnew⟩
  have hreach' : f'.Reachable config := by
    rcases hf' with rfl | ⟨a, ha⟩
    · exact hreach
    · exact hreach.step ha
  cases s with
  | went t' => exact ⟨f', hreach', hnew⟩
  | ended outcome =>
      -- A task that nobody has started leaves its result and nothing else.
      refine ⟨f, hreach, ?_⟩
      simp only [after, finish, hparent]
      refine hm.of_tasks hnew rfl (fun t' ht' => ?_)
      exact (mem_cancel.1 ht').1
  | started t' child => exact hnew.elim
  | abandoned t' => exact hnew.elim

theorem mem_of_task? {id : Nat} {t : Task} (h : l.task? id = some t) : t ∈ l.tasks :=
  List.mem_of_find?_eq_some h

/-- The task of a number has this number. -/
theorem id_of_task? {id : Nat} {t : Task} (h : l.task? id = some t) : t.id = id := by
  have hfound := List.find?_some h
  exact of_decide_eq_true hfound

theorem onFloor_moveBack (h : l.OnFloor config) (id : Nat) : (l.moveBack id).OnFloor config := by
  rcases h with ⟨f, hreach, hm⟩
  rcases l.moveBack_eq id with ⟨tasks, hmem, heq⟩
  rw [heq]
  exact ⟨f, hreach, hm.of_tasks rfl rfl hmem⟩

/-- What steps of a task keep, and going to the end of the line, is kept while it runs. -/
theorem runTask_induction {env : Surroundings} {id : Nat} (P : Ledger → Prop)
    (hstep : ∀ l l', P l → l.stepAt? env id = some l' → P l')
    (hback : ∀ l, P l → P (l.moveBack id)) (fuel : Nat) (hl : P l) : P (runTask env id fuel l) := by
  induction fuel generalizing l with
  | zero => exact hback l hl
  | succ fuel ih =>
      rw [runTask]
      split
      · next l' hl' => exact ih (hstep l l' hl hl')
      · exact hback l hl

/-- What steps of tasks keep, and going to the end of the line, is kept by all that the ledger does
at one time. -/
theorem settle_induction {env : Surroundings} (P : Ledger → Prop)
    (hstep : ∀ l l' t, P l → t ∈ l.tasks → l.stepTask? env t = some l' → P l')
    (hback : ∀ l id, P l → P (l.moveBack id)) (hl : P l) : P (l.settle env) := by
  have hrun : ∀ turns l, P l → P (run env turns l) := by
    intro turns
    induction turns with
    | zero => exact fun _ hl => hl
    | succ turns ih =>
        intro l hl
        rw [run]
        split
        · refine ih _ (runTask_induction P (fun l l' hl hat => ?_) (fun l => hback l _) _ hl)
          rcases Option.bind_eq_some_iff.1 hat with ⟨t, ht, hs⟩
          exact hstep l l' t hl (mem_of_task? ht) hs
        · exact hl
  exact hrun _ l hl

/-- A ledger that is settled stays on the floor, at whatever time and with whatever quotes. -/
theorem onFloor_settle (env : Surroundings) (h : l.OnFloor config) :
    (l.settle env).OnFloor config :=
  settle_induction (OnFloor config) (fun _ _ _ hl ht hs => onFloor_of_stepTask? hl ht hs)
    (fun _ id hl => onFloor_moveBack hl id) h

theorem onFloor_create (config : TradingConfig) (valuation : ValuationConfig) :
    (create config valuation).OnFloor config :=
  ⟨.opened config, ⟨[], rfl⟩, rfl, rfl, rfl, fun _ ht => absurd ht List.not_mem_nil⟩

/-- An errand that is started keeps the ledger on the floor. -/
theorem onFloor_spawn (h : l.OnFloor config) (e : Errand) :
    (l.spawn (e.operation config)).2.OnFloor config := by
  rcases h with ⟨f, hreach, hm⟩
  refine ⟨_, hreach.step (a := .enter e) rfl, hm.books, hm.faults, ?_, fun t ht => ?_⟩
  · -- The next number of a task is that of the visitor who enters.
    rw [List.length_append, List.length_singleton, ← hm.nextId]
    rfl
  · rcases List.mem_append.1 ht with hmem | hmem
    · rcases hm.tasks t hmem with ⟨hparent, hhold, hvisit⟩
      refine ⟨hparent, hhold, ?_⟩
      rw [List.getElem?_append_left (List.getElem?_eq_some_iff.1 hvisit).1]
      exact hvisit
    · rw [List.mem_singleton.1 hmem]
      refine ⟨rfl, fun _ _ => by simp only [ne_eq, reduceCtorEq, not_false_eq_true], ?_⟩
      rw [hm.nextId, List.getElem?_append_right (le_refl _), Nat.sub_self]
      rfl

/-- So does a task that is given up. -/
theorem onFloor_cancel (h : l.OnFloor config) (id : Nat) : (l.cancel id).OnFloor config := by
  rcases h with ⟨f, hreach, hm⟩
  exact ⟨f, hreach, hm.of_tasks rfl rfl (fun t ht => (mem_cancel.1 ht).1)⟩

/-- Every document of a ledger on the floor is one that was opened with the cash and the symbols of
the configuration, after some trades, and its version counts them. -/
theorem exists_replay_of_onFloor (h : l.OnFloor config) {id : String} {v : Versioned User}
    (hv : l.books.store.user? id = some v) :
    ∃ x time trades, AccountOpening.IsOf config x ∧
      (x.account time).replay trades = .ok v.value ∧ v.version = 1 + trades.length := by
  rcases h with ⟨f, ⟨actions, hrun⟩, hm⟩
  rw [books, hm.books] at hv
  rcases (Floor.kept_of_run? hrun).2.stored id v hv with ⟨u, hu⟩
  rcases hu.account with ⟨x, time, hof, rfl⟩
  refine ⟨x, time, _, hof, hu.replay, ?_⟩
  rw [List.length_map]
  exact hu.version

end Ledger

end Bourse
