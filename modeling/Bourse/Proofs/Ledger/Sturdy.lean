import Bourse.Proofs.Ledger.Steps
import Bourse.Proofs.Time.Hours

/-!
# Operations That Do Not Break Off

Of all operations only a valuation run and the job that makes such runs can break off. A run
does where more users would be valued at a time than anybody can count, or where there is no
time that snapshots could be removed before. Both are settled when the run begins, by its
configuration and the clock. Whatever it hears from then on, it goes on until it has a result.

The job begins a run every so often, each at the time that its clock then shows. Its runs
are sturdy if its configuration is such that any run is. The job itself breaks off where the
next run is due at a time that cannot be counted. So it is sturdy up to a time from which
there is an interval left; the pause after a run that failed is never longer than that.

## Main definitions

* `ValuationConfig.IsRunnable`: a configuration that runs can be made with.
* `ValuationRun.Sturdy`: a run that does not break off.
* `ValuationJob.Sturdy`, `Operation.Sturdy`: what does not break off up to some time.
* `Ledger.Sturdy`: nothing has broken off, and nothing will up to some time.

## Theorems

* `ValuationRun.isSome_cutoff?`: there is a time that snapshots are removed before.
* `Operation.Sturdy.next_ne`: a sturdy operation does not break off now.
* `Operation.Sturdy.of_leads`: it does not break off later either.
* `Ledger.Sturdy.after`: a step of a task keeps the ledger sturdy.
-/

namespace Bourse

/-- A configuration that runs can be made with. -/
structure ValuationConfig.IsRunnable (c : ValuationConfig) : Prop where
  parallelism : c.parallelism ≤ ValuationRun.largestParallelism
  /-- Two billion hours lie within time, before and after any that 64 bits can count. -/
  history : c.maxHistoryHours.natAbs ≤ 2000000000
  /-- In the first half of the running time there is an interval left. -/
  interval : 2 * c.interval ≤ lastInstant

instance (c : ValuationConfig) : Decidable c.IsRunnable :=
  decidable_of_iff
    (c.parallelism ≤ ValuationRun.largestParallelism ∧ c.maxHistoryHours.natAbs ≤ 2000000000 ∧
      2 * c.interval ≤ lastInstant)
    ⟨fun h => ⟨h.1, h.2.1, h.2.2⟩, fun h => ⟨h.parallelism, h.history, h.interval⟩⟩

theorem Progress.crashing_of_map {f : σ → τ} {g : ρ → ρ'} {p : Progress κ σ ρ}
    (h : p.map f g = .crashing) : p = .crashing := by
  cases p with
  | crashing => rfl
  | _ => cases h

/-! ## Runs -/

namespace ValuationRun

variable {x y : ValuationRun} {m : Moment}

/-- There is a time that snapshots are removed before. -/
theorem isSome_cutoff? {config : ValuationConfig} {time : Timestamp} (h : config.IsRunnable)
    (htime : time.IsPlain) : (cutoff? config time.startOfHour).isSome = true := by
  have hhours := h.history
  have hmin : Int64.minValue.toInt = -9223372036854775808 := rfl
  have hmax : Int64.maxValue.toInt = 9223372036854775807 := rfl
  have hspan : config.maxHistoryMs? = some (config.maxHistoryHours * 3600000) := by
    rw [ValuationConfig.maxHistoryMs?, ValuationConfig.longestSpanMs, hmax, if_pos]
    omega
  have hback : -(config.maxHistoryHours * 3600000 * 1000000) =
      -(config.maxHistoryHours * 3600) * 1000000000 := by omega
  -- Times that are counted in 64 bits lie within three centuries of 1970.
  have hin : Timestamp.inRange
      (time.seconds - time.seconds % 3600 + -(config.maxHistoryHours * 3600)) = true := by
    have hnanos := htime.nanos_lt
    rcases Option.isSome_iff_exists.1 htime.near with ⟨n, hn⟩
    rcases Timestamp.of_sinceEpoch? hn with ⟨rfl, hfits⟩
    rw [Timestamp.fits, Bool.and_eq_true, decide_eq_true_iff, decide_eq_true_iff, hmin, hmax] at hfits
    rw [Timestamp.inRange, Timestamp.minSeconds, Timestamp.maxSeconds, Bool.and_eq_true,
      decide_eq_true_iff, decide_eq_true_iff]
    omega
  rw [cutoff?, hspan, Option.bind_some, hback, Timestamp.startOfHour_eq htime,
    Timestamp.shift?_whole rfl, if_pos hin]
  rfl

/-- A run that does not break off. -/
structure Sturdy (x : ValuationRun) : Prop where
  parallelism : x.config.parallelism ≤ largestParallelism
  phase : x.phase ≠ .broken

theorem sturdy_start {config : ValuationConfig} (h : config.IsRunnable) (symbols : List String)
    {time : Timestamp} (htime : time.IsPlain) : (start config symbols time).Sturdy := by
  refine ⟨h.parallelism, ?_⟩
  simp only [start, isSome_cutoff? h htime, if_true]
  exact Phase.noConfusion

theorem Sturdy.next_ne (h : x.Sturdy) : x.next ≠ .crashing := by
  -- No users at a time are taken as one.
  have hwidth : x.parallelism ≤ largestParallelism := max_le h.parallelism (by decide)
  intro hcrashing
  unfold next list at hcrashing
  split at hcrashing
  · rw [if_pos hwidth] at hcrashing
    cases hcrashing
  · cases hcrashing
  · cases hcrashing
  · split at hcrashing <;> cases hcrashing
  · cases hcrashing
  · split at hcrashing <;> cases hcrashing
  · cases hcrashing
  · next hphase => exact h.phase hphase

theorem Sturdy.enter (h : x.Sturdy) {p : Phase} (hp : p ≠ .broken) : (x.enter p).Sturdy :=
  ⟨h.parallelism, hp⟩

theorem Sturdy.of_list (h : x.Sturdy) {last : Option String} (hleads : (x.list last).Leads m y) :
    y.Sturdy := by
  cases hleads with
  | answered _ _ _ answer =>
      cases answer with
      | error e => exact h.enter Phase.noConfusion
      | ok page => exact h.enter Phase.noConfusion
  | unanswered _ _ _ _ _ hdeadline => cases hdeadline

/-- Whatever a run hears, it does not become one that breaks off. -/
theorem Sturdy.of_leads (h : x.Sturdy) (hleads : x.next.Leads m y) : y.Sturdy := by
  unfold next at hleads
  -- Only the phase matters: the settings stay as they are.
  split at hleads
  · split at hleads
    · exact h.of_list hleads
    · cases hleads
  · cases hleads with
    | reading => exact h.enter Phase.noConfusion
  · -- A price has come, or an error, or nothing in time.
    cases hleads with
    | priced _ _ _ _ answer =>
        cases answer with
        | error e => exact h.enter Phase.noConfusion
        | ok price => exact ⟨h.parallelism, Phase.noConfusion⟩
    | unpriced _ _ due _ _ _ hdeadline =>
        cases hdeadline
        exact h.enter Phase.noConfusion
  · -- The next user on the page is valued, as soon as there are not too many under way.
    split at hleads
    · cases hleads
      exact ⟨h.parallelism, Phase.noConfusion⟩
    · cases hleads
  · exact h.of_list hleads
  · split at hleads <;> cases hleads
  · cases hleads
  · cases hleads

end ValuationRun

/-! ## The job -/

namespace ValuationJob

variable {x y : ValuationJob} {m : Moment} {last : Nat}

/-- A job that does not break off up to some time, and none of whose runs does. -/
structure Sturdy (x : ValuationJob) (last : Nat) : Prop where
  config : x.config.IsRunnable
  instants : isInstant (last + x.interval) = true
  run : ∀ started run, x.phase = .running started run → started ≤ last ∧ run.Sturdy
  phase : x.phase ≠ .broken

theorem sturdy_start {config : ValuationConfig} (h : config.IsRunnable) (symbols : List String)
    {interval : Nat} (hinstants : isInstant (last + interval) = true) (now : Nat) :
    (start config symbols interval now).Sturdy last :=
  ⟨h, hinstants, fun _ _ hphase => Phase.noConfusion hphase, Phase.noConfusion⟩

/-- The next run is due at a time that can be counted. -/
theorem Sturdy.isInstant_next (h : x.Sturdy last) {started : Nat} (hstarted : started ≤ last) :
    isInstant (started + x.interval) = true :=
  isInstant_of_le h.instants (Nat.add_le_add_right hstarted x.interval)

/-- So is the next try after a run that failed. -/
theorem Sturdy.isInstant_retry (h : x.Sturdy last) {now : Nat} (hnow : now ≤ last) :
    isInstant (now + x.retry) = true :=
  isInstant_of_le h.instants (Nat.add_le_add hnow (Nat.min_le_right _ _))

theorem Sturdy.next_ne (h : x.Sturdy last) : x.next ≠ .crashing := by
  intro hcrashing
  unfold next at hcrashing
  split at hcrashing
  · cases hcrashing
  · cases hcrashing
  · next started run hphase =>
    rcases h.run started run hphase with ⟨hstarted, hrun⟩
    split at hcrashing
    · rw [if_pos (h.isInstant_next hstarted)] at hcrashing
      cases hcrashing
    · cases hcrashing
    · exact hrun.next_ne (Progress.crashing_of_map hcrashing)
  · cases hcrashing
  · next hphase => exact h.phase hphase

/-- Between two runs the job has none. -/
theorem Sturdy.enter (h : x.Sturdy last) {p : Phase} (hp : ∀ started run, p ≠ .running started run)
    (hbroken : p ≠ .broken) : (x.enter p).Sturdy last :=
  ⟨h.config, h.instants, fun started run hphase => absurd hphase (hp started run), hbroken⟩

theorem Sturdy.enter_running (h : x.Sturdy last) {started : Nat} (hstarted : started ≤ last)
    {run : ValuationRun} (hrun : run.Sturdy) : (x.enter (.running started run)).Sturdy last := by
  refine ⟨h.config, h.instants, fun started' run' hphase => ?_, Phase.noConfusion⟩
  cases hphase
  exact ⟨hstarted, hrun⟩

/-- Whatever the job hears up to then, neither it nor any of its runs breaks off, as long as the clock
shows times that can be counted. -/
theorem Sturdy.of_leads (h : x.Sturdy last) (hnow : m.now ≤ last) (htime : m.time.IsPlain)
    (hleads : x.next.Leads m y) : y.Sturdy last := by
  unfold next at hleads
  split at hleads
  · cases hleads
    exact h.enter (fun _ _ => Phase.noConfusion) Phase.noConfusion
  · cases hleads
    exact h.enter_running hnow (ValuationRun.sturdy_start h.config x.symbols htime)
  · next started run hphase =>
    rcases h.run started run hphase with ⟨hstarted, hrun⟩
    -- The run has ended well or failed, or it goes on.
    split at hleads
    · rw [if_pos (h.isInstant_next hstarted)] at hleads
      cases hleads
      exact h.enter (fun _ _ => Phase.noConfusion) Phase.noConfusion
    · cases hleads
      exact h.enter (fun _ _ => Phase.noConfusion) Phase.noConfusion
    · rcases Progress.exists_of_leads_map hleads with ⟨z, hz, rfl⟩
      exact h.enter_running hstarted (hrun.of_leads hz)
  · cases hleads
    simp only [h.isInstant_retry hnow, if_true]
    exact h.enter (fun _ _ => Phase.noConfusion) Phase.noConfusion
  · cases hleads

theorem Sturdy.ended (h : x.Sturdy last) (removed : Option Nat) : (x.ended removed).Sturdy last := by
  unfold ValuationJob.ended
  split
  · next started run hphase =>
    rcases h.run started run hphase with ⟨hstarted, hrun⟩
    exact h.enter_running hstarted ⟨hrun.parallelism, hrun.phase⟩
  · exact h

end ValuationJob

/-! ## Operations -/

namespace Operation

variable {x y : Operation} {m : Moment} {last : Nat}

/-- An operation that does not break off up to some time. -/
def Sturdy (last : Nat) : Operation → Prop
  | valuation x => x.Sturdy
  | job x => x.Sturdy last
  | _ => True

/-- A sturdy operation does not break off now. -/
theorem Sturdy.next_ne (h : x.Sturdy last) : x.next ≠ .crashing := by
  intro hcrashing
  cases x with
  | valuation x => exact ValuationRun.Sturdy.next_ne h (Progress.crashing_of_map hcrashing)
  | job x => exact ValuationJob.Sturdy.next_ne h (Progress.crashing_of_map hcrashing)
  | execution x =>
      have halone := Progress.crashing_of_map hcrashing
      unfold Execution.next at halone
      split at halone <;> cases halone
  | opening x =>
      have halone := Progress.crashing_of_map hcrashing
      unfold AccountOpening.next at halone
      split at halone <;> cases halone
  | portfolio x =>
      have halone := Progress.crashing_of_map hcrashing
      cases x <;> cases halone
  | history x =>
      have halone := Progress.crashing_of_map hcrashing
      cases x <;> cases halone
  | snapshots x =>
      have halone := Progress.crashing_of_map hcrashing
      cases x <;> cases halone
  | userValuation x =>
      have halone := Progress.crashing_of_map hcrashing
      unfold UserValuation.next at halone
      split at halone <;> cases halone

/-- It does not break off later either. -/
theorem Sturdy.of_leads (h : x.Sturdy last) (hnow : m.now ≤ last) (htime : m.time.IsPlain)
    (hleads : x.next.Leads m y) : y.Sturdy last := by
  cases x with
  | valuation x =>
      rcases Progress.exists_of_leads_map hleads with ⟨z, hz, rfl⟩
      exact ValuationRun.Sturdy.of_leads h hz
  | job x =>
      rcases Progress.exists_of_leads_map hleads with ⟨z, hz, rfl⟩
      exact ValuationJob.Sturdy.of_leads h hnow htime hz
  | _ =>
      rcases Progress.exists_of_leads_map hleads with ⟨z, hz, rfl⟩
      trivial

theorem Sturdy.ended (h : x.Sturdy last) (removed : Option Nat) : (x.ended removed).Sturdy last := by
  cases x with
  | valuation x => exact ⟨h.parallelism, h.phase⟩
  | job x => exact ValuationJob.Sturdy.ended h removed
  | _ => trivial

end Operation

/-! ## The ledger -/

namespace Ledger

variable {l l' : Ledger} {t : Task} {last : Nat}

/-- Nothing has broken off, and nothing will up to some time. -/
structure Sturdy (l : Ledger) (last : Nat) : Prop where
  tasks : l.Every (fun t => t.operation.Sturdy last)
  results : ∀ id, l.result? id ≠ some none

theorem sturdy_create (trading : TradingConfig) (valuation : ValuationConfig) :
    (create trading valuation).Sturdy last :=
  ⟨fun _ ht => absurd ht List.not_mem_nil, fun _ hnone => absurd hnone.symm (Option.some_ne_none _)⟩

theorem Sturdy.add (h : l.Sturdy last) (parent : Option Nat) {x : Operation} (hx : x.Sturdy last) :
    (l.add parent x).Sturdy last :=
  ⟨Every.add h.tasks hx, h.results⟩

/-- Errands do not break off. -/
theorem Sturdy.spawn (h : l.Sturdy last) (config : TradingConfig) (e : Errand) :
    (l.spawn (e.operation config)).2.Sturdy last := by
  refine h.add none ?_
  cases e <;> trivial

theorem sturdy_cancel (h : l.Sturdy last) (id : Nat) : (l.cancel id).Sturdy last :=
  ⟨every_cancel h.tasks id, h.results⟩

/-- The job that heeds the stop signal has not broken off. -/
theorem sturdy_heed (h : l.Sturdy last) {id : Nat} (hheed : l.heed? id = some l') : l'.Sturdy last := by
  rcases heed?_eq_some hheed with ⟨t, -, -, rfl⟩
  refine ⟨h.tasks.after (fun _ removed hold => hold.ended removed)
    (fun _ ht' => absurd ht'.symm (Option.some_ne_none _)) (fun _ _ hst => Stepped.noConfusion hst),
    fun id hnone => ?_⟩
  rcases result?_after hnone with hold | ⟨-, hended⟩
  · exact h.results id hold
  · cases hended

theorem sturdy_moveBack (h : l.Sturdy last) (id : Nat) : (l.moveBack id).Sturdy last := by
  rcases l.moveBack_eq id with ⟨tasks, hmem, heq⟩
  rw [heq]
  exact ⟨fun t ht => h.tasks t (hmem t ht), h.results⟩

/-- A step of a task up to then keeps the ledger sturdy, as long as the clock shows a time that can be
counted. -/
theorem Sturdy.after (h : l.Sturdy last) (ht : t ∈ l.tasks) {env : Surroundings} {st : Stepped}
    {d : Shared} (hnow : env.moment.now ≤ last) (htime : env.moment.time.IsPlain)
    (hdoes : t.Does env l.shared st d) :
    (({ l with shared := d } : Ledger).after t st).Sturdy last := by
  have hsturdy : t.operation.Sturdy last := h.tasks t ht
  have htasks : ({ l with shared := d } : Ledger).Every (fun t => t.operation.Sturdy last) := h.tasks
  refine ⟨htasks.after (fun _ removed hold => hold.ended removed) (fun t' ht' => ?_)
    (fun _ _ _ => trivial), fun id hnone => ?_⟩
  · -- The task goes on with the same operation or with one that this leads to.
    rcases (hdoes.task ht').2.2 with hsame | hleads
    · rw [hsame]
      exact hsturdy
    · exact hsturdy.of_leads hnow htime hleads
  · rcases result?_after hnone with hold | ⟨-, rfl⟩
    · exact h.results id hold
    · cases hdoes with
      | crashes hnext => exact hsturdy.next_ne hnext

end Ledger

end Bourse
