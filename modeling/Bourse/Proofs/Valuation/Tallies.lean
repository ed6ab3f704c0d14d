import Bourse.Proofs.Sums
import Bourse.Proofs.Valuation.Snapshots
import Bourse.Proofs.Valuation.Visits

/-!
# What Valuations Do, and What the Run Knows of It

The valuations of a run go on side by side, each in two calls, and end in any order.
The run does not remember who has ended. It counts: those under way, those that ended
well or badly, and the snapshots that were removed. These are sums over all valuations
of what each of them has come to, so the order does not matter.

No two valuations are about the same user. So the history of a user is what its own
valuation has made of it so far, unless somebody else records snapshots of that user.

## Main definitions

* `Valuing.Proper`: a valuation is at a phase that its portfolio leads to.
* `Valuing.told`: what the run knows of a valuation.
* `Survey.Tallied`: the run's counts are sums over the valuations.
* `Survey.Shows`, `Survey.Recorded`: what has become of the histories.

## Theorems

* `Survey.proper_of_run`, `Survey.tallied_of_run`, `Survey.recorded_of_run`: after every step.
* `Survey.worked_of_run`: how many steps the valuations have taken.
-/

namespace Bourse

/-- Entries that agree in what does not occur twice are the same. -/
theorem index_eq_of_nodup {α : Type u} {β : Type v} (f : α → β) {l : List α}
    (hnodup : (l.map f).Nodup) {i j : ℕ} {x y : α} (hi : l[i]? = some x) (hj : l[j]? = some y)
    (h : f x = f y) : i = j := by
  have hlt : i < (l.map f).length := by
    rw [List.length_map]
    exact (List.getElem?_eq_some_iff.1 hi).1
  refine (List.getElem?_inj hlt hnodup).1 ?_
  rw [List.getElem?_map, List.getElem?_map, hi, hj, Option.map_some, Option.map_some, h]

namespace Valuing

/-- What the portfolio of a valuation is worth at some prices. -/
def worth (prices : Table String Amount) (v : Valuing) : Except AmountError Amount :=
  v.subject.portfolio.valuation prices

/-- A phase that what a portfolio is worth leads to. -/
def Fits (worth : Except AmountError Amount) : UserValuation.Phase → Prop
  | .writing value => worth = .ok value
  | .sweeping | .finished (.ok _) => ∃ value, worth = .ok value
  | .finished (.error e) => ∃ e', worth = .error e' ∧ e = .ofAmount e'

/-- A valuation is about its user, at the hour and the prices of the run, and at a phase that the
portfolio leads to. -/
structure Proper (run : ValuationRun) (v : Valuing) : Prop where
  user : v.valuation.user = v.subject.id
  hour : v.valuation.hour = run.hour
  cutoff : v.valuation.cutoff = run.cutoff
  fits : Fits (v.worth run.prices) v.valuation.phase
  ended : v.ended = true → ∃ r, v.valuation.phase = .finished r

/-- How many snapshots a valuation has removed in the end, unless it failed. -/
def removed? (v : Valuing) : Option ℕ :=
  match v.valuation.phase with
  | .finished r => r.toOption
  | _ => none

/-- What the run knows of a valuation. -/
def told (v : Valuing) : ValuationReport :=
  if v.ended then ValuationReport.empty.record v.removed? else .empty

/-- Whether a valuation is under way, as a number. -/
def pending (v : Valuing) : ℕ := if v.ended then 0 else 1

/-- How many steps it may have taken up to now that a valuation was started and came this far. -/
def steps (v : Valuing) : ℕ :=
  match v.valuation.phase with
  | .writing _ => 1
  | .sweeping => 2
  | .finished _ => if v.ended then 4 else 3

theorem steps_le (v : Valuing) : v.steps ≤ 4 := by
  unfold steps
  split
  · omega
  · omega
  · split <;> omega

theorem one_le_steps (v : Valuing) : 1 ≤ v.steps := by
  unfold steps
  split
  · omega
  · omega
  · split <;> omega

/-- A run that goes on keeps its valuations proper. -/
theorem Proper.congr {run run' : ValuationRun} {v : Valuing} (h : v.Proper run)
    (hhour : run'.hour = run.hour) (hcutoff : run'.cutoff = run.cutoff)
    (hprices : run'.prices = run.prices) : v.Proper run' :=
  ⟨h.user, h.hour.trans hhour.symm, h.cutoff.trans hcutoff.symm, hprices ▸ h.fits, h.ended⟩

/-- A valuation begins at a phase that the portfolio leads to. -/
theorem proper_start (run : ValuationRun) (u : User) :
    Proper run ⟨u, .start u run.prices run.hour run.cutoff, false⟩ := by
  refine ⟨rfl, rfl, rfl, ?_, fun hended => Bool.noConfusion hended⟩
  rw [UserValuation.start, worth]
  cases hworth : u.portfolio.valuation run.prices with
  | ok value => exact rfl
  | error e => exact ⟨e, rfl, rfl⟩

end Valuing

namespace Survey

variable {config : ValuationConfig} {symbols : List String} {time : Timestamp} {b : Books}
  {s t : Survey} {past actions : List Action} {a : Action}

/-- Before the last price came, nothing has been valued. -/
theorem Stage.no_valuings (h : Stage symbols past s)
    (hphase : ∀ page more, s.run.phase ≠ .visiting page more) : s.valuings = [] := by
  unfold Stage at h
  split at h
  · exact h.1.valuings
  · exact h.1.valuings
  · next page more hp => exact absurd hp (hphase page more)
  · exact h.1.valuings
  · exact h.elim
  · exact h.elim

/-- A valuation that has changed is proper if it was, and the others are as they were. -/
theorem proper_set {run : ValuationRun} {valuings : List Valuing} {n : ℕ} {w : Valuing}
    (h : ∀ v ∈ valuings, v.Proper run) (hw : w.Proper run) :
    ∀ v ∈ valuings.set n w, v.Proper run := by
  intro v hv
  rcases List.mem_or_eq_of_mem_set hv with hold | rfl
  · exact h v hold
  · exact hw

theorem proper_of_move (hstage : Stage symbols past s) (h : ∀ v ∈ s.valuings, v.Proper s.run)
    (hmove : Move s a t) : ∀ v ∈ t.valuings, v.Proper t.run := by
  cases hmove with
  | timed m symbol missing hphase | priced price symbol due missing hphase
  | refused e symbol due missing hphase | late symbol due missing hphase =>
      have hnone : s.valuings = [] := hstage.no_valuings
        (fun page more => by rw [hphase]; simp only [ne_eq, reduceCtorEq, not_false_eq_true])
      intro v hv
      exact absurd (hnone ▸ hv) List.not_mem_nil
  | listed now after hphase => exact fun v hv => (h v hv).congr rfl rfl rfl
  | started u page more hphase hroom =>
      intro v hv
      rcases List.mem_append.1 hv with hold | hnew
      · exact (h v hold).congr rfl rfl rfl
      · rw [List.mem_singleton.1 hnew]
        exact Valuing.proper_start _ u
  | written n now v value hv hvphase =>
      have hproper := h v (List.mem_of_getElem? hv)
      refine proper_set h ⟨hproper.user, hproper.hour, hproper.cutoff, ?_, fun hended => ?_⟩
      · have hfits := hproper.fits
        rw [hvphase] at hfits
        exact ⟨value, hfits⟩
      · rcases hproper.ended hended with ⟨r, hr⟩
        rw [hvphase] at hr
        cases hr
  | swept n now v hv hvphase =>
      have hproper := h v (List.mem_of_getElem? hv)
      refine proper_set h ⟨hproper.user, hproper.hour, hproper.cutoff, ?_, fun _ => ⟨_, rfl⟩⟩
      have hfits := hproper.fits
      rw [hvphase] at hfits
      exact hfits
  | finished n u x r hv hvphase =>
      have hproper := h _ (List.mem_of_getElem? hv)
      exact proper_set (fun v hv => (h v hv).congr rfl rfl rfl)
        ⟨hproper.user, hproper.hour, hproper.cutoff, hproper.fits, fun _ => ⟨r, hvphase⟩⟩
  | aside now c => exact h

/-- Every valuation is about its user, at a phase that the portfolio leads to. -/
theorem proper_of_run (hcutoff : (ValuationRun.cutoff? config time.startOfHour).isSome = true)
    (h : (opened config symbols time b).run? actions = some s) :
    ∀ v ∈ s.valuings, v.Proper s.run :=
  induction (fun _ s => ∀ v ∈ s.valuings, v.Proper s.run) (fun _ hv => absurd hv List.not_mem_nil)
    (fun _ _ _ _ hrun ih hmove => proper_of_move (stage_of_run hcutoff hrun) ih hmove) h

/-! ## Counts -/

/-- The counts of the run are sums over its valuations. -/
structure Tallied (s : Survey) : Prop where
  running : s.run.running = (s.valuings.map Valuing.pending).sum
  valued : s.run.report.valued = (s.valuings.map (·.told.valued)).sum
  failed : s.run.report.failed = (s.valuings.map (·.told.failed)).sum
  pruned : s.run.report.pruned = (s.valuings.map (·.told.pruned)).sum

/-- Where the run knows of no more than before, its counts stay. -/
theorem Tallied.set (h : Tallied s) {n : ℕ} {v w : Valuing} (hv : s.valuings[n]? = some v)
    (hrun : t.run = s.run) (hvaluings : t.valuings = s.valuings.set n w)
    (hended : v.ended = false) (hended' : w.ended = false) : Tallied t := by
  have htold : v.told = .empty ∧ w.told = .empty := by
    unfold Valuing.told
    rw [hended, hended']
    exact ⟨rfl, rfl⟩
  -- A sum stays as it is where the valuation adds the same to it as before.
  have hsum : ∀ f : Valuing → ℕ, f v = f w →
      (t.valuings.map f).sum = (s.valuings.map f).sum := by
    intro f hf
    have hset := sum_map_set f hv w
    rw [hvaluings]
    omega
  refine ⟨?_, ?_, ?_, ?_⟩
  · rw [hrun, h.running, hsum _ (by rw [Valuing.pending, Valuing.pending, hended, hended'])]
  · rw [hrun, h.valued, hsum _ (by rw [htold.1, htold.2])]
  · rw [hrun, h.failed, hsum _ (by rw [htold.1, htold.2])]
  · rw [hrun, h.pruned, hsum _ (by rw [htold.1, htold.2])]

/-- A valuation that has ended is counted with what it has come to. -/
theorem Tallied.finish (h : Tallied s) {n : ℕ} {u : User} {x : UserValuation}
    {r : Except TradeError ℕ} (hv : s.valuings[n]? = some ⟨u, x, false⟩)
    (hphase : x.phase = .finished r) :
    Tallied { s with run := s.run.ended r.toOption, valuings := s.valuings.set n ⟨u, x, true⟩ } := by
  have htold : (⟨u, x, true⟩ : Valuing).told = ValuationReport.empty.record r.toOption := by
    simp only [Valuing.told, Valuing.removed?, hphase, if_true]
  -- What it has come to is added to each sum, and it was in none of them but the first.
  have hset : ∀ f : Valuing → ℕ, ((s.valuings.set n ⟨u, x, true⟩).map f).sum + f ⟨u, x, false⟩ =
      (s.valuings.map f).sum + f ⟨u, x, true⟩ := fun f => sum_map_set f hv _
  have hrunning := hset Valuing.pending
  have hvalued := hset (·.told.valued)
  have hfailed := hset (·.told.failed)
  have hpruned := hset (·.told.pruned)
  have hbefore : (⟨u, x, false⟩ : Valuing).told = .empty := rfl
  simp only [htold, hbefore] at hvalued hfailed hpruned
  rw [← h.running, Valuing.pending, Valuing.pending, if_pos rfl,
    if_neg Bool.false_ne_true] at hrunning
  rw [← h.valued] at hvalued
  rw [← h.failed] at hfailed
  rw [← h.pruned] at hpruned
  cases r with
  | ok m =>
      rw [show (ValuationReport.empty.record (Except.ok m).toOption).pruned = m from
        Nat.zero_add m] at hpruned
      exact ⟨(Nat.eq_sub_of_add_eq hrunning).symm, hvalued.symm, hfailed.symm, hpruned.symm⟩
  | error e =>
      exact ⟨(Nat.eq_sub_of_add_eq hrunning).symm, hvalued.symm, hfailed.symm, hpruned.symm⟩

/-- The counts of the run are sums over its valuations after every move. -/
theorem tallied_of_move (hproper : ∀ v ∈ s.valuings, v.Proper s.run) (h : Tallied s)
    (hmove : Move s a t) : Tallied t := by
  -- A valuation that has not come to its end is not counted as ended.
  have hgoing : ∀ {n : ℕ} {v : Valuing}, s.valuings[n]? = some v →
      (∀ r, v.valuation.phase ≠ .finished r) → v.ended = false := by
    intro n v hv hphase
    refine Bool.eq_false_iff.2 (fun hended => ?_)
    rcases (hproper v (List.mem_of_getElem? hv)).ended hended with ⟨r, hr⟩
    exact hphase r hr
  cases hmove with
  | timed m symbol missing hphase | priced price symbol due missing hphase
  | refused e symbol due missing hphase | late symbol due missing hphase
  | listed now after hphase | aside now c => exact ⟨h.running, h.valued, h.failed, h.pruned⟩
  | started u page more hphase hroom =>
      -- A valuation that has just begun counts as one under way and as nothing else.
      have hsum : ∀ f : Valuing → ℕ, ((s.valuings ++ [s.begun u]).map f).sum =
          (s.valuings.map f).sum + f (s.begun u) := by
        intro f
        rw [List.map_append, List.sum_append, List.map_singleton, List.sum_singleton]
      exact ⟨(congrArg (· + 1) h.running).trans (hsum Valuing.pending).symm,
        h.valued.trans (hsum (·.told.valued)).symm, h.failed.trans (hsum (·.told.failed)).symm,
        h.pruned.trans (hsum (·.told.pruned)).symm⟩
  | written n now v value hv hvphase =>
      have hended := hgoing hv (fun r => by rw [hvphase]; exact UserValuation.Phase.noConfusion)
      exact h.set hv rfl rfl hended hended
  | swept n now v hv hvphase =>
      have hended := hgoing hv (fun r => by rw [hvphase]; exact UserValuation.Phase.noConfusion)
      exact h.set hv rfl rfl hended hended
  | finished n u x r hv hvphase => exact h.finish hv hvphase

theorem tallied_of_run (hcutoff : (ValuationRun.cutoff? config time.startOfHour).isSome = true)
    (h : (opened config symbols time b).run? actions = some s) : Tallied s :=
  induction (fun _ s => Tallied s) ⟨rfl, rfl, rfl, rfl⟩
    (fun _ _ _ _ hrun ih hmove => tallied_of_move (proper_of_run hcutoff hrun) ih hmove) h

/-- Whether a step is one of a valuation, from its start to its end. -/
def Action.isWork : Action → Bool
  | start | value .. | finish _ => true
  | _ => false

/-- Each step of a valuation takes it further. -/
theorem worked_of_move
    (h : past.countP Action.isWork ≤ (s.valuings.map Valuing.steps).sum) (hmove : Move s a t) :
    (past ++ [a]).countP Action.isWork ≤ (t.valuings.map Valuing.steps).sum := by
  have hcount : (past ++ [a]).countP Action.isWork ≤
      past.countP Action.isWork + if a.isWork then 1 else 0 := by
    rw [List.countP_append, List.countP_singleton]
  refine hcount.trans ?_
  cases hmove with
  | timed m symbol missing hphase | priced price symbol due missing hphase
  | refused e symbol due missing hphase | late symbol due missing hphase
  | listed now after hphase | aside now c => exact h
  -- One valuation has come further, by as much as the step counts or more.
  | started u page more hphase hroom =>
      have hpos : 1 ≤ (s.begun u).steps := Valuing.one_le_steps _
      rw [List.map_append, List.sum_append, List.map_singleton, List.sum_singleton]
      exact Nat.add_le_add h hpos
  | written n now v value hv hvphase =>
      have hset := sum_map_set Valuing.steps hv { v with valuation := v.valuation.enter .sweeping }
      have hold : v.steps = 1 := by rw [Valuing.steps, hvphase]
      have hnew : Valuing.steps { v with valuation := v.valuation.enter .sweeping } = 2 := rfl
      simp only [Action.isWork, if_true]
      omega
  | swept n now v hv hvphase =>
      have hset := sum_map_set Valuing.steps hv
        { v with valuation := v.valuation.swept (.ok (s.removed v.valuation)) }
      have hold : v.steps = 2 := by rw [Valuing.steps, hvphase]
      have hnew : 3 ≤ Valuing.steps
          { v with valuation := v.valuation.swept (.ok (s.removed v.valuation)) } := by
        simp only [Valuing.steps, UserValuation.swept, UserValuation.enter]
        split <;> omega
      simp only [Action.isWork, if_true]
      omega
  | finished n u x r hv hvphase =>
      have hset := sum_map_set Valuing.steps hv ⟨u, x, true⟩
      have hold : Valuing.steps ⟨u, x, false⟩ = 3 := by
        rw [Valuing.steps, hvphase]
        rfl
      have hnew : Valuing.steps ⟨u, x, true⟩ = 4 := by
        rw [Valuing.steps, hvphase]
        rfl
      simp only [Action.isWork, if_true]
      omega

theorem worked_of_run (h : (opened config symbols time b).run? actions = some s) :
    actions.countP Action.isWork ≤ 4 * s.visited.length := by
  have hsteps : actions.countP Action.isWork ≤ (s.valuings.map Valuing.steps).sum :=
    induction (fun past s => past.countP Action.isWork ≤ (s.valuings.map Valuing.steps).sum)
      (Nat.le_refl 0) (fun _ _ _ _ _ ih hmove => worked_of_move ih hmove) h
  refine hsteps.trans ?_
  have hbound := List.sum_le_card_nsmul (s.valuings.map Valuing.steps) 4 (fun k hk => ?_)
  · rw [List.length_map, nsmul_eq_mul, Nat.cast_id, Nat.mul_comm] at hbound
    rw [visited, List.length_map]
    exact hbound
  · rcases List.mem_map.1 hk with ⟨v, -, rfl⟩
    exact v.steps_le

/-! ## Histories -/

/-- Nobody else records snapshots of a user. -/
def Untouched (past : List Action) (id : String) : Prop :=
  ∀ now c, .aside now c ∈ past → c.recorded? ≠ some id

theorem Untouched.of_snoc {id : String} (h : Untouched (past ++ [a]) id) : Untouched past id :=
  fun now c hc => h now c (List.mem_append_left _ hc)

/-- The history of a user is what the valuation has made of it so far. -/
structure Shows (b : Books) (s : Survey) (v : Valuing) : Prop where
  history : s.books.store.history v.subject.id =
    UserValuation.leaves s.run.hour s.run.cutoff (v.worth s.run.prices) v.valuation.phase
      (b.store.history v.subject.id)
  removed : ∀ n, v.removed? = some n →
    n = UserValuation.losses s.run.hour s.run.cutoff (v.worth s.run.prices)
      (b.store.history v.subject.id)

/-- What has become of the histories that nobody else records anything in. -/
structure Recorded (b : Books) (past : List Action) (s : Survey) : Prop where
  visited : ∀ v ∈ s.valuings, Untouched past v.subject.id → Shows b s v
  others : ∀ id, (∀ v ∈ s.valuings, v.subject.id ≠ id) → Untouched past id →
    s.books.store.history id = b.store.history id

/-- A valuation that goes on shows in the history of its user, and in no other. -/
theorem Recorded.set (h : Recorded b past s) (hnodup : (s.visited.map (·.id)).Nodup) {n : ℕ}
    {v w : Valuing} (hv : s.valuings[n]? = some v) (hvaluings : t.valuings = s.valuings.set n w)
    (hw : w.subject = v.subject)
    (hsettings : t.run.hour = s.run.hour ∧ t.run.cutoff = s.run.cutoff ∧
      t.run.prices = s.run.prices)
    (hothers : ∀ id, id ≠ v.subject.id → t.books.store.history id = s.books.store.history id)
    (hown : Shows b s v → Shows b t w) : Recorded b (past ++ [a]) t := by
  have hids : (s.valuings.map (·.subject.id)).Nodup := by
    rw [Survey.visited, List.map_map] at hnodup
    exact hnodup
  constructor
  · intro v' hv' huntouched
    rw [hvaluings] at hv'
    rcases List.mem_iff_getElem?.1 hv' with ⟨k, hk⟩
    by_cases hkn : n = k
    · rw [← hkn, List.getElem?_set_self (List.getElem?_eq_some_iff.1 hv).1,
        Option.some.injEq] at hk
      rw [← hk] at huntouched ⊢
      rw [hw] at huntouched
      exact hown (h.visited v (List.mem_of_getElem? hv) huntouched.of_snoc)
    · -- Another valuation is about another user, whose history is as it was.
      rw [List.getElem?_set_ne hkn] at hk
      have hne : v'.subject.id ≠ v.subject.id := fun heq =>
        hkn (index_eq_of_nodup (·.subject.id) hids hv hk heq.symm)
      have hshows := h.visited v' (List.mem_of_getElem? hk) huntouched.of_snoc
      refine ⟨?_, ?_⟩
      · rw [hothers _ hne, hsettings.1, hsettings.2.1, hsettings.2.2]
        exact hshows.history
      · rw [hsettings.1, hsettings.2.1, hsettings.2.2]
        exact hshows.removed
  · intro id hnobody huntouched
    rw [hvaluings] at hnobody
    have hbefore : ∀ v' ∈ s.valuings, v'.subject.id ≠ id := by
      intro v' hv' heq
      rcases List.mem_iff_getElem?.1 hv' with ⟨k, hk⟩
      -- The valuation that went on is still about the same user.
      by_cases hkn : n = k
      · rw [hkn, hk, Option.some.injEq] at hv
        refine hnobody w (List.mem_of_getElem? (i := n) (List.getElem?_set_self ?_)) ?_
        · rw [hkn]
          exact (List.getElem?_eq_some_iff.1 hk).1
        · rw [hw, ← hv, heq]
      · refine hnobody v' (List.mem_of_getElem? (i := k) ?_) heq
        rw [List.getElem?_set_ne hkn, hk]
    have hne : id ≠ v.subject.id := fun heq => hbefore v (List.mem_of_getElem? hv) heq.symm
    rw [hothers id hne]
    exact h.others id hbefore huntouched.of_snoc

/-- Where a step leaves the valuations, what they are worth, and the histories, it leaves what has
become of them. -/
theorem Recorded.congr (h : Recorded b past s) (hvaluings : t.valuings = s.valuings)
    (hsettings : t.run.hour = s.run.hour ∧ t.run.cutoff = s.run.cutoff ∧
      t.run.prices = s.run.prices)
    (hhistory : ∀ id, Untouched (past ++ [a]) id →
      t.books.store.history id = s.books.store.history id) : Recorded b (past ++ [a]) t := by
  constructor
  · intro v hv huntouched
    rw [hvaluings] at hv
    have hshows := h.visited v hv huntouched.of_snoc
    refine ⟨?_, ?_⟩
    · rw [hhistory _ huntouched, hsettings.1, hsettings.2.1, hsettings.2.2]
      exact hshows.history
    · rw [hsettings.1, hsettings.2.1, hsettings.2.2]
      exact hshows.removed
  · intro id hnobody huntouched
    rw [hvaluings] at hnobody
    rw [hhistory id huntouched]
    exact h.others id hnobody huntouched.of_snoc

/-- Before anything is valued, the prices do not matter to what has become of the histories. -/
theorem Recorded.of_none (h : Recorded b past s) (hnone : s.valuings = [])
    (hvaluings : t.valuings = s.valuings) (hbooks : t.books = s.books) :
    Recorded b (past ++ [a]) t := by
  constructor
  · intro v hv
    rw [hvaluings, hnone] at hv
    exact absurd hv List.not_mem_nil
  · intro id hnobody huntouched
    rw [hvaluings] at hnobody
    rw [hbooks]
    exact h.others id hnobody huntouched.of_snoc

/-- A valuation that begins has not changed the history of its user. -/
theorem shows_begun {u : User} (h : s.books.store.history u.id = b.store.history u.id) :
    Shows b s (s.begun u) := by
  cases hworth : u.portfolio.valuation s.run.prices with
  | ok value =>
      refine ⟨?_, fun n hn => ?_⟩
      · simp only [begun, Valuing.worth, UserValuation.start, hworth, UserValuation.leaves]
        exact h
      · simp only [begun, Valuing.removed?, UserValuation.start, hworth, reduceCtorEq] at hn
  | error e =>
      refine ⟨?_, fun n hn => ?_⟩
      · simp only [begun, Valuing.worth, UserValuation.start, hworth, UserValuation.leaves]
        exact h
      · simp only [begun, Valuing.removed?, UserValuation.start, hworth] at hn
        cases hn

/-- After its first call, a valuation has set the snapshot of the hour. -/
theorem shows_written {v : Valuing} {value : Amount} (hproper : v.Proper s.run)
    (hphase : v.valuation.phase = .writing value) (h : Shows b s v)
    (hrun : t.run = s.run)
    (hstore : t.books.store =
      s.books.store.putSnapshot v.valuation.user ⟨v.valuation.hour, value⟩) :
    Shows b t { v with valuation := v.valuation.enter .sweeping } := by
  have hworth : v.worth s.run.prices = .ok value := by
    have hfits := hproper.fits
    rw [hphase] at hfits
    exact hfits
  have hbefore := h.history
  rw [hphase, hworth] at hbefore
  refine ⟨?_, fun n hn => absurd hn.symm (Option.some_ne_none n)⟩
  have hworth' : Valuing.worth t.run.prices { v with valuation := v.valuation.enter .sweeping } =
      .ok value := by
    rw [hrun]
    exact hworth
  rw [hstore, Store.history_putSnapshot, if_pos hproper.user.symm, hproper.user, hproper.hour,
    hbefore, hworth', hrun]
  rfl

/-- After its second call, it has removed the snapshots before the cutoff. -/
theorem shows_swept {v : Valuing} (hproper : v.Proper s.run)
    (hphase : v.valuation.phase = .sweeping) (h : Shows b s v) (hrun : t.run = s.run)
    (hstore : t.books.store =
      (s.books.store.deleteSnapshotsBefore v.valuation.user v.valuation.cutoff).2) :
    Shows b t { v with valuation := v.valuation.swept (.ok (s.removed v.valuation)) } := by
  obtain ⟨value, hworth⟩ : ∃ value, v.worth s.run.prices = .ok value := by
    have hfits := hproper.fits
    rw [hphase] at hfits
    exact hfits
  have hbefore := h.history
  rw [hphase, hworth] at hbefore
  have hworth' : Valuing.worth t.run.prices
      { v with valuation := v.valuation.swept (.ok (s.removed v.valuation)) } = .ok value := by
    rw [hrun]
    exact hworth
  refine ⟨?_, fun n hn => ?_⟩
  · rw [hstore, Store.history_deleteSnapshotsBefore, if_pos hproper.user.symm, hproper.user,
      hproper.cutoff, hbefore, hworth', hrun]
    rfl
  · cases Option.some.inj hn
    rw [hworth', removed, Store.removed_eq, hproper.user, hproper.cutoff, hbefore, hrun]
    rfl

/-- What has become of the histories is known after every move. -/
theorem recorded_of_move (hstage : Stage symbols past s)
    (hascending : Ascending s.listed) (hdivided : Divided s)
    (hproper : ∀ v ∈ s.valuings, v.Proper s.run) (h : Recorded b past s) (hmove : Move s a t) :
    Recorded b (past ++ [a]) t := by
  have hnodup : (s.visited.map (·.id)).Nodup := by
    rw [hdivided] at hascending
    exact Ascending.nodup_ids (List.pairwise_append.1 hascending).1
  cases hmove with
  | timed m symbol missing hphase | priced price symbol due missing hphase
  | refused e symbol due missing hphase | late symbol due missing hphase =>
      refine h.of_none (hstage.no_valuings (fun page more => ?_)) rfl rfl
      rw [hphase]
      simp only [ne_eq, reduceCtorEq, not_false_eq_true]
  | listed now after hphase => exact h.congr rfl ⟨rfl, rfl, rfl⟩ (fun _ _ => rfl)
  | started u page more hphase hroom =>
      -- Who is visited now has not been visited before.
      have hnew : ∀ v ∈ s.valuings, v.subject.id ≠ u.id := by
        intro v hv
        rw [hdivided, hphase] at hascending
        have hlt := (List.pairwise_append.1 hascending).2.2 v.subject (List.mem_map_of_mem hv) u
          List.mem_cons_self
        intro heq
        rw [heq] at hlt
        exact Ordering.noConfusion (hlt.symm.trans Std.ReflCmp.compare_self)
      constructor
      · intro v hv huntouched
        rcases List.mem_append.1 hv with hold | hlast
        · have hshows := h.visited v hold huntouched.of_snoc
          exact ⟨hshows.history, hshows.removed⟩
        · rw [List.mem_singleton.1 hlast] at huntouched ⊢
          have hshows := shows_begun (h.others u.id hnew huntouched.of_snoc)
          exact ⟨hshows.history, hshows.removed⟩
      · intro id hnobody huntouched
        exact h.others id (fun v hv => hnobody v (List.mem_append_left _ hv)) huntouched.of_snoc
  | written n now v value hv hvphase =>
      have hv' := hproper v (List.mem_of_getElem? hv)
      refine h.set hnodup hv rfl rfl ⟨rfl, rfl, rfl⟩ (fun id hid => ?_)
        (fun hshows => shows_written hv' hvphase hshows rfl rfl)
      rw [Store.history_putSnapshot, hv'.user, if_neg hid]
  | swept n now v hv hvphase =>
      have hv' := hproper v (List.mem_of_getElem? hv)
      refine h.set hnodup hv rfl rfl ⟨rfl, rfl, rfl⟩ (fun id hid => ?_)
        (fun hshows => shows_swept hv' hvphase hshows rfl rfl)
      rw [Store.history_deleteSnapshotsBefore, hv'.user, if_neg hid]
  | finished n u x r hv hvphase =>
      exact h.set hnodup hv rfl rfl ⟨rfl, rfl, rfl⟩ (fun _ _ => rfl)
        (fun hshows => ⟨hshows.history, hshows.removed⟩)
  | aside now c =>
      refine h.congr rfl ⟨rfl, rfl, rfl⟩ (fun id huntouched => ?_)
      exact Call.history_perform_of_ne s.books now
        (huntouched now c (List.mem_append_right past List.mem_cons_self))

/-- What has become of the histories is known after every run. -/
theorem recorded_of_run (hids : b.store.OwnIds) (hdecent : Decent actions)
    (hcutoff : (ValuationRun.cutoff? config time.startOfHour).isSome = true)
    (h : (opened config symbols time b).run? actions = some s) : Recorded b actions s := by
  refine induction (fun past s => Decent past → Recorded b past s)
    (fun _ => ⟨fun _ hv => absurd hv List.not_mem_nil, fun _ _ _ => rfl⟩)
    (fun past a s t hrun ih hmove hdecent => ?_) h hdecent
  exact recorded_of_move (stage_of_run hcutoff hrun)
    (paged_of_run hids hdecent.of_snoc hcutoff hrun).ascending (divided_of_run hcutoff hrun)
    (proper_of_run hcutoff hrun) (ih hdecent.of_snoc) hmove

end Survey

end Bourse
