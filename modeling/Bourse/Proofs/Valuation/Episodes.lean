import Bourse.Proofs.Floor.Hours
import Bourse.Proofs.Valuation.Reports

/-!
# Histories over Time

The books live through *episodes*, one after the other: visitors come to the floor,
open accounts and trade, or a valuation run goes through the users. Clocks may show
any times, earlier or later than before, as long as they are plain.

Whatever the episodes were, a history has at most one snapshot of each hour. A run that
values a user sets the one of its hour and removes those past the cutoff. A run that
comes again in the same hour, at the same prices and portfolios, finds every history as
it would make it.

## Main definitions

* `ValuationRun.Keeping`: a run at a plain time, with a cutoff that is not after its hour.
* `Survey.Quiet`: nobody else writes documents or records snapshots meanwhile.
* `Survey.EndsWell`: a run that has the books to itself and ends well.
* `Survey.Alike`: books with the same portfolios and histories.
* `Episode`, `Episode.play?`: what happens to the books, and the books after it.
* `Episode.IsPlain`, `Episode.IsIdle`: what is asked of the times, and of an episode between runs.

## Theorems

* `ValuationRun.cutoff_eq`: the cutoff, in seconds.
* `Survey.hourly_of_run`: a run leaves snapshots of whole hours only.
* `Survey.renewed_of_run`, `Survey.unchanged_of_run`: a run, and another in the same hour.
* `Episode.orderly_of_play`: the books stay orderly.
* `Episode.spared_of_play`: where nobody is valued, histories stay as they are.
* `Episode.histories_of_play`: what histories are like after any episodes.
-/

namespace Bourse

theorem Store.Hourly.deleteSnapshotsBefore {s : Store} (h : s.Hourly) (id : String)
    (cutoff : Timestamp) : (s.deleteSnapshotsBefore id cutoff).2.Hourly := by
  intro j t v hv
  rw [Store.history_deleteSnapshotsBefore] at hv
  split at hv
  · rw [Store.get?_trimmed] at hv
    split at hv
    · exact absurd hv (by simp only [reduceCtorEq, not_false_eq_true])
    · exact h id t v hv
  · exact h j t v hv

namespace ValuationRun

variable {config : ValuationConfig} {time hour cutoff : Timestamp}

/-- The cutoff lies back from a whole second by the hours that are kept. -/
theorem cutoff_eq (hnanos : hour.nanos = 0) (hkept : 0 ≤ config.maxHistoryHours)
    (h : cutoff? config hour = some cutoff) :
    cutoff = ⟨hour.seconds - config.maxHistoryHours * 3600, 0⟩ := by
  rcases Option.bind_eq_some_iff.1 h with ⟨ms, hms, hshift⟩
  have hspan : ms = config.maxHistoryHours * 3600000 := by
    simp only [ValuationConfig.maxHistoryMs?, Option.ite_none_right_eq_some, Option.some.injEq] at hms
    exact hms.2.symm
  have hback : -(ms * 1000000) =
      -(config.maxHistoryHours * 3600 * 1000000000 + (hour.nanos : Int)) := by
    rw [hspan, hnanos]
    omega
  have hlt : hour.nanos < 1000000000 := by omega
  have hk : 0 ≤ config.maxHistoryHours * 3600 := by omega
  rw [hback, Timestamp.shift?_back hlt hk] at hshift
  simp only [Option.ite_none_right_eq_some, Option.some.injEq] at hshift
  exact hshift.2.symm

/-- A run at a plain time that keeps snapshots for no less than no time at all. -/
structure Keeping (config : ValuationConfig) (time cutoff : Timestamp) : Prop where
  plain : time.IsPlain
  kept : 0 ≤ config.maxHistoryHours
  cutoff : cutoff? config time.startOfHour = some cutoff

theorem Keeping.isSome (h : Keeping config time cutoff) :
    (cutoff? config time.startOfHour).isSome = true := by
  rw [h.cutoff]
  rfl

/-- The hour and the cutoff of a run, in seconds. -/
theorem Keeping.seconds (h : Keeping config time cutoff) :
    time.startOfHour = ⟨time.seconds - time.seconds % 3600, 0⟩ ∧
      cutoff = ⟨time.seconds - time.seconds % 3600 - config.maxHistoryHours * 3600, 0⟩ := by
  have hhour := Timestamp.startOfHour_eq h.plain
  have hcutoff := cutoff_eq (by rw [hhour]) h.kept h.cutoff
  rw [hhour] at hcutoff
  exact ⟨hhour, hcutoff⟩

/-- The snapshot of the hour is not too old itself. -/
theorem Keeping.before_eq_false (h : Keeping config time cutoff) :
    time.startOfHour.before cutoff = false := by
  have hkept := h.kept
  rw [h.seconds.1, h.seconds.2, Bool.eq_false_iff, ne_eq, Timestamp.before_iff]
  simp only []
  omega

end ValuationRun

namespace Survey

variable {config : ValuationConfig} {symbols : List String} {time cutoff : Timestamp} {b b' : Books}
  {s s' t : Survey} {past actions actions' : List Action} {a : Action} {r r' : ValuationReport}

/-- Nobody else writes documents or records snapshots. -/
def Quiet (past : List Action) : Prop :=
  ∀ now c, .aside now c ∈ past → c.isWrite = false ∧ c.isRecord = false

theorem Quiet.of_snoc (h : Quiet (past ++ [a])) : Quiet past :=
  fun now c hc => h now c (List.mem_append_left _ hc)

theorem Quiet.steady (h : Quiet past) : Steady past := fun now c hc => (h now c hc).1

theorem Quiet.decent (h : Quiet past) : Decent past := by
  intro now c hc
  have hread := (h now c hc).1
  cases c with
  | replaceUser id version u => exact absurd hread Bool.noConfusion
  | _ => exact trivial

theorem Quiet.untouched (h : Quiet past) (id : String) : Untouched past id := by
  intro now c hc hid
  have hrecord := (h now c hc).2
  cases c with
  | putSnapshot i v | deleteSnapshots i cutoff => exact Bool.noConfusion hrecord
  | _ => exact absurd hid (Option.some_ne_none id).symm

/-- A step of a run at a plain time leaves snapshots of whole hours only. -/
theorem hourly_of_move (hhour : s.run.hour.IsHour) (hproper : ∀ v ∈ s.valuings, v.Proper s.run)
    (hquiet : ∀ now c, a = .aside now c → c.isRecord = false) (hmove : Move s a t)
    (h : s.books.store.Hourly) : t.books.store.Hourly := by
  cases hmove with
  | written n now v value hv hphase =>
      refine h.putSnapshot _ ?_
      rw [(hproper v (List.mem_of_getElem? hv)).hour]
      exact hhour
  | swept n now v hv hphase => exact h.deleteSnapshotsBefore _ _
  | aside now c => exact h.of_history_eq (Call.history_perform s.books now (hquiet now c rfl))
  | _ => exact h

/-- A run at a plain time leaves snapshots of whole hours only. -/
theorem hourly_of_run (hplain : time.IsPlain)
    (hcutoff : (ValuationRun.cutoff? config time.startOfHour).isSome = true) (hquiet : Quiet actions)
    (hb : b.store.Hourly) (h : (opened config symbols time b).run? actions = some s) :
    s.books.store.Hourly := by
  refine induction (fun past s => Quiet past → s.books.store.Hourly) (fun _ => hb)
    (fun past a s t hrun ih hmove hquiet => ?_) h hquiet
  refine hourly_of_move ?_ (proper_of_run hcutoff hrun) ?_ hmove (ih hquiet.of_snoc)
  · rw [(settings_of_run hrun).2.1]
    exact Timestamp.isHour_startOfHour hplain
  · intro now c ha
    exact (hquiet now c (ha ▸ List.mem_append_right past List.mem_cons_self)).2

/-- Everybody who has an account is visited. -/
theorem Surveyed.mem_visited (h : Surveyed config symbols time cutoff b actions s r)
    (hquiet : Quiet actions) {id : String} {v : Versioned User}
    (hv : b.store.user? id = some v) : v.value ∈ s.visited := by
  rw [h.steady hquiet.steady]
  exact List.mem_map.2 ⟨(id, v), Table.mem_entries_iff.2 hv, rfl⟩

/-- A run that has the books to itself and ends well. -/
structure EndsWell (config : ValuationConfig) (symbols : List String) (time : Timestamp) (b : Books)
    (actions : List Action) (s : Survey) (r : ValuationReport) : Prop where
  quiet : Quiet actions
  run : (opened config symbols time b).run? actions = some s
  result : s.result? = some (.ok r)

/-- What a run makes of the history of a user. -/
theorem history_eq_outcome (hids : b.store.OwnIds)
    (hcutoff : ValuationRun.cutoff? config time.startOfHour = some cutoff)
    (h : EndsWell config symbols time b actions s r) {id : String} {v : Versioned User}
    (hv : b.store.user? id = some v) :
    s.books.store.history id = UserValuation.outcome time.startOfHour cutoff
      (v.value.portfolio.valuation (quoted symbols actions)) (b.store.history id) := by
  have hsurveyed := surveyed_of_run hids hcutoff h.quiet.decent h.run h.result
  have hhistory := hsurveyed.history v.value (hsurveyed.mem_visited h.quiet hv)
    (h.quiet.untouched _)
  rw [hids id v hv] at hhistory
  exact hhistory

/-- After a run that could value a user, the snapshot of the hour is there with what the portfolio
is worth, and the history goes back to the cutoff only. -/
theorem renewed_of_run (hids : b.store.OwnIds) (hkeeping : ValuationRun.Keeping config time cutoff)
    (h : EndsWell config symbols time b actions s r) {id : String} {v : Versioned User}
    {value : Amount} (hv : b.store.user? id = some v)
    (hvalue : v.value.portfolio.valuation (quoted symbols actions) = .ok value) :
    UserValuation.Renewed time.startOfHour cutoff value (b.store.history id)
      (s.books.store.history id) := by
  rw [history_eq_outcome hids hkeeping.cutoff h hv, hvalue]
  exact UserValuation.renewed_outcome hkeeping.before_eq_false

/-- Books with the same users, portfolios and histories. -/
structure Alike (b b' : Books) : Prop where
  portfolios : ∀ id, (b'.store.user? id).map (·.value.portfolio) =
    (b.store.user? id).map (·.value.portfolio)
  histories : ∀ id, b'.store.history id = b.store.history id

/-- A second run with the same settings, hour and prices, over books that are as the first has left
them, changes no history and removes nothing. -/
theorem unchanged_of_run {time' : Timestamp} (hids : b.store.OwnIds)
    (hkeeping : ValuationRun.Keeping config time cutoff)
    (h : EndsWell config symbols time b actions s r) (hids' : b'.store.OwnIds)
    (halike : Alike s.books b') (hhour : time'.startOfHour = time.startOfHour)
    (h' : EndsWell config symbols time' b' actions' s' r')
    (hquoted : quoted symbols actions' = quoted symbols actions) :
    (∀ id, s'.books.store.history id = b'.store.history id) ∧ r'.pruned = 0 := by
  have hcutoff' : ValuationRun.cutoff? config time'.startOfHour = some cutoff := by
    rw [hhour]
    exact hkeeping.cutoff
  have hquiet' := h'.quiet
  have hsurveyed := surveyed_of_run hids' hcutoff' hquiet'.decent h'.run h'.result
  -- The first run has left behind what such a valuation makes of a history.
  have hsettled : ∀ id v', b'.store.user? id = some v' → ∃ old, b'.store.history id =
      UserValuation.outcome time.startOfHour cutoff
        (v'.value.portfolio.valuation (quoted symbols actions)) old := by
    intro id v' hv'
    have hsame := halike.portfolios id
    rw [hv', user?_of_run h.quiet.steady h.run] at hsame
    rcases Option.map_eq_some_iff.1 hsame.symm with ⟨v, hv, hportfolio⟩
    refine ⟨b.store.history id, ?_⟩
    rw [halike.histories, history_eq_outcome hids hkeeping.cutoff h hv, hportfolio]
  constructor
  · intro id
    cases hv' : b'.store.user? id with
    | some v' =>
        rcases hsettled id v' hv' with ⟨old, hold⟩
        rw [history_eq_outcome hids' hcutoff' h' hv', hhour, hquoted, hold]
        exact (UserValuation.outcome_outcome hkeeping.before_eq_false _).1
    | none =>
        refine hsurveyed.others id (fun hid => ?_) (hquiet'.untouched id)
        rw [hsurveyed.steady hquiet'.steady] at hid
        simp only [List.map_map, List.mem_map] at hid
        rcases hid with ⟨e, he, rfl⟩
        have hget := Table.mem_entries_iff.1 he
        rw [Function.comp_apply, hids' e.1 e.2 hget] at hv'
        exact absurd (hv'.symm.trans hget) (Option.some_ne_none _).symm
  · rw [hsurveyed.pruned (fun u _ => hquiet'.untouched u.id)]
    refine List.sum_eq_zero (fun k hk => ?_)
    rcases List.mem_map.1 hk with ⟨u, hu, rfl⟩
    rw [hsurveyed.steady hquiet'.steady] at hu
    rcases List.mem_map.1 hu with ⟨e, he, rfl⟩
    have hget := Table.mem_entries_iff.1 he
    rcases hsettled e.1 e.2 hget with ⟨old, hold⟩
    rw [hids' e.1 e.2 hget, hhour, hquoted, hold]
    exact (UserValuation.outcome_outcome hkeeping.before_eq_false _).2

end Survey

/-! ## Episodes -/

/-- What happens to the books for a while. -/
inductive Episode where
  /-- Visitors come to the floor. -/
  | visits (config : TradingConfig) (actions : List Action)
  /-- A valuation run goes through the users. -/
  | survey (config : ValuationConfig) (symbols : List String) (time : Timestamp)
    (actions : List Survey.Action)

namespace Episode

/-- The books after an episode, where it can take place. -/
def play? (b : Books) : Episode → Option Books
  | visits config actions => (Floor.run? config ⟨b, [], []⟩ actions).map (·.books)
  | survey config symbols time actions =>
    ((Survey.opened config symbols time b).run? actions).map (·.books)

/-- All times are plain and all cutoffs exist, and a run has the books to itself. -/
def IsPlain : Episode → Prop
  | visits _ actions => ∀ a ∈ actions, a.IsPlain
  | survey config _ time actions =>
    time.IsPlain ∧ (ValuationRun.cutoff? config time.startOfHour).isSome = true ∧
      Survey.Quiet actions

variable {e : Episode} {episodes : List Episode} {b b' : Books}

/-- After an episode, documents are under their own ids and snapshots of whole hours, if they were
before. -/
theorem orderly_of_play (hplain : e.IsPlain) (hids : b.store.OwnIds) (hhours : b.store.Hourly)
    (h : play? b e = some b') : b'.store.OwnIds ∧ b'.store.Hourly := by
  cases e with
  | visits config actions =>
      rcases Option.map_eq_some_iff.1 h with ⟨f, hf, rfl⟩
      have horderly := Floor.orderly_of_run hids hhours hplain hf
      exact ⟨horderly.ids, horderly.hours⟩
  | survey config symbols time actions =>
      rcases hplain with ⟨htime, hcutoff, hquiet⟩
      rcases Option.map_eq_some_iff.1 h with ⟨s, hs, rfl⟩
      exact ⟨Survey.ownIds_of_run hids hquiet.decent hs,
        Survey.hourly_of_run htime hcutoff hquiet hhours hs⟩

/-- The same after any number of episodes. -/
theorem orderly_of_plays (hplain : ∀ e ∈ episodes, e.IsPlain) (hids : b.store.OwnIds)
    (hhours : b.store.Hourly) (h : episodes.foldlM play? b = some b') :
    b'.store.OwnIds ∧ b'.store.Hourly := by
  refine run_induction (fun past c => (∀ e ∈ past, e.IsPlain) → c.store.OwnIds ∧ c.store.Hourly)
    (fun _ => ⟨hids, hhours⟩) (fun past e c c' _ ih hplay hplain => ?_) h hplain
  rcases ih (fun e' he' => hplain e' (List.mem_append_left _ he')) with ⟨hids, hhours⟩
  exact orderly_of_play (hplain e (List.mem_append_right past List.mem_cons_self)) hids hhours hplay

/-- Whether nobody is valued in an episode: there are only visits, or a price does not come. -/
def IsIdle : Episode → Prop
  | visits .. => True
  | survey _ _ _ actions => ∃ a ∈ actions, a.isBad = true

/-- An episode in which nobody is valued changes only the histories of those whose accounts were
opened in it. -/
theorem spared_of_play (hplain : e.IsPlain) (hidle : e.IsIdle) (hids : b.store.OwnIds)
    (h : play? b e = some b') :
    b.store.Grown b'.store ∧ ∀ id, b'.store.history id = b.store.history id ∨
      b.store.Opened b'.store id := by
  cases e with
  | visits config actions =>
      rcases Option.map_eq_some_iff.1 h with ⟨f, hf, rfl⟩
      have hsparing := Floor.sparing_of_run hf
      exact ⟨hsparing.grown, hsparing.histories⟩
  | survey config symbols time actions =>
      rcases hplain with ⟨-, hcutoff, hquiet⟩
      rcases Option.map_eq_some_iff.1 h with ⟨s, hs, rfl⟩
      refine ⟨Store.grown_of_user?_eq (Survey.user?_of_run hquiet.steady hs), fun id => .inl ?_⟩
      rcases (Survey.exists_error_iff (Survey.stage_of_run hcutoff hs)).2 hidle with ⟨e, he⟩
      exact (Survey.spared_of_error hids hquiet.decent hcutoff hs he).2 id (hquiet.untouched id)

/-- The same of any number of such episodes. -/
theorem spared_of_plays (hplain : ∀ e ∈ episodes, e.IsPlain) (hidle : ∀ e ∈ episodes, e.IsIdle)
    (hids : b.store.OwnIds) (hhours : b.store.Hourly) (h : episodes.foldlM play? b = some b') :
    b.store.Grown b'.store ∧ ∀ id, b'.store.history id = b.store.history id ∨
      b.store.Opened b'.store id := by
  refine run_induction (fun past c => (∀ e ∈ past, e.IsPlain) → (∀ e ∈ past, e.IsIdle) →
    b.store.Grown c.store ∧ ∀ id, c.store.history id = b.store.history id ∨
      b.store.Opened c.store id) (fun _ _ => ?_)
    (fun past e c c' hpast ih hplay hplain hidle => ?_) h hplain hidle
  · exact ⟨Store.grown_of_user?_eq (fun _ => rfl), fun _ => .inl rfl⟩
  · have hplain' : ∀ e' ∈ past, e'.IsPlain := fun e' he' => hplain e' (List.mem_append_left _ he')
    have hlast : e ∈ past ++ [e] := List.mem_append_right past List.mem_cons_self
    rcases ih hplain' (fun e' he' => hidle e' (List.mem_append_left _ he')) with ⟨hgrown, hbefore⟩
    have hids' := (orderly_of_plays hplain' hids hhours hpast).1
    rcases spared_of_play (hplain e hlast) (hidle e hlast) hids' hplay with ⟨hgrown', hafter⟩
    refine ⟨hgrown.trans hgrown', fun id => ?_⟩
    rcases hafter id with hsame | hopened
    · rw [hsame]
      exact (hbefore id).imp_right (fun hopened => hopened.mono hgrown')
    · exact .inr (hopened.of_grown hgrown)

/-- A history in which all snapshots are of whole hours has them in order, at least an hour
apart. -/
theorem snapshots_of_hourly {s : Store} (h : s.Hourly) (id : String) :
    (s.snapshots id).Pairwise (fun x y => x.timestamp.before y.timestamp = true ∧
      x.timestamp.seconds + 3600 ≤ y.timestamp.seconds) ∧
    ∀ x ∈ s.snapshots id, x.timestamp.IsHour := by
  have hhour : ∀ e ∈ (s.history id).entries, e.1.IsHour :=
    fun e he => h id e.1 e.2 (Table.mem_entries_iff.1 he)
  constructor
  · refine List.pairwise_map.2 ((s.history id).ascending.imp_of_mem (fun {x y} hx hy hlt => ?_))
    have hbefore : x.1.before y.1 = true := decide_eq_true hlt
    exact ⟨hbefore, (hhour x hx).add_le (hhour y hy) hbefore⟩
  · intro x hx
    rcases List.mem_map.1 hx with ⟨e, he, rfl⟩
    exact hhour e he

/-- Accounts, trades and valuation runs, one after the other and at any times: every history is in
order, of whole hours, and an hour apart. After a run that could value a user, the snapshot of the
hour is there with what the portfolio is worth and none is older than the hours that are kept, while
the others are as they were. And the next run that ends well, if it comes in the same hour, at the
same prices and over the same portfolios, changes nothing and removes nothing. -/
theorem histories_of_play {ttl : Nat} (hplain : ∀ e ∈ episodes, e.IsPlain)
    (h : episodes.foldlM play? ⟨.empty, .empty ttl⟩ = some b) :
    (∀ id, (b.store.snapshots id).Pairwise (fun x y => x.timestamp.before y.timestamp = true ∧
        x.timestamp.seconds + 3600 ≤ y.timestamp.seconds) ∧
      ∀ x ∈ b.store.snapshots id, x.timestamp.IsHour) ∧
    ∀ config symbols time cutoff actions s r, ValuationRun.Keeping config time cutoff →
      Survey.EndsWell config symbols time b actions s r →
      time.startOfHour = ⟨time.seconds - time.seconds % 3600, 0⟩ ∧
      cutoff = ⟨time.seconds - time.seconds % 3600 - config.maxHistoryHours * 3600, 0⟩ ∧
      (∀ id v value, b.store.user? id = some v →
        v.value.portfolio.valuation (Survey.quoted symbols actions) = .ok value →
        UserValuation.Renewed time.startOfHour cutoff value (b.store.history id)
          (s.books.store.history id)) ∧
      ∀ (more : List Episode) b' time' actions' s' r', (∀ e ∈ more, e.IsPlain) →
        (∀ e ∈ more, e.IsIdle) → more.foldlM play? s.books = some b' →
        (∀ id, (b'.store.user? id).map (·.value.portfolio) =
          (s.books.store.user? id).map (·.value.portfolio)) →
        time'.IsPlain → time'.seconds / 3600 = time.seconds / 3600 →
        Survey.EndsWell config symbols time' b' actions' s' r' →
        Survey.quoted symbols actions' = Survey.quoted symbols actions →
        (∀ id, s'.books.store.history id = b'.store.history id) ∧ r'.pruned = 0 := by
  have hempty : (Store.empty).OwnIds ∧ (Store.empty).Hourly :=
    ⟨Store.ownIds_iff.2 (fun _ he => absurd he List.not_mem_nil), fun _ _ _ hv => by cases hv⟩
  rcases orderly_of_plays hplain hempty.1 hempty.2 h with ⟨hids, hhours⟩
  refine ⟨snapshots_of_hourly hhours, ?_⟩
  intro config symbols time cutoff actions s r hkeeping hrun
  have hquiet := hrun.quiet
  refine ⟨hkeeping.seconds.1, hkeeping.seconds.2, ?_, ?_⟩
  · exact fun id v value hv hvalue => Survey.renewed_of_run hids hkeeping hrun hv hvalue
  · intro more b' time' actions' s' r' hplain' hidle hmore hportfolios htime' hsame hrun' hquoted
    have hids' := Survey.ownIds_of_run hids hquiet.decent hrun.run
    have hhours' := Survey.hourly_of_run hkeeping.plain hkeeping.isSome hquiet hhours hrun.run
    have halike : Survey.Alike s.books b' := by
      refine ⟨hportfolios, fun id => ?_⟩
      refine ((spared_of_plays hplain' hidle hids' hhours' hmore).2 id).resolve_right ?_
      -- Somebody new would have a portfolio that was not there.
      rintro ⟨hnone, v, hv⟩
      have hportfolio := hportfolios id
      rw [hnone, hv] at hportfolio
      cases hportfolio
    have hhour := (Timestamp.startOfHour_eq_iff htime' hkeeping.plain).2 hsame
    exact Survey.unchanged_of_run hids hkeeping hrun
      (orderly_of_plays hplain' hids' hhours' hmore).1 halike hhour hrun' hquoted

/-- An hour of snapshots is kept. -/
def brief : ValuationConfig := { ValuationConfig.standard with maxHistoryHours := 1 }

/-- A run over the books of one user. -/
def valuing (time : Timestamp) : List Survey.Action :=
  [.hear (.clock ⟨0, time⟩), .hear (.price (.ok (.ofUnits 30000))), .call 0, .start, .value 0 0,
    .value 0 0, .finish 0]

/-- An account is opened just before 1970 and valued two hours after it, and then somebody whose
clock is behind trades on it. -/
def story : List Episode :=
  [.visits .standard [.enter (.account ⟨"alice", "Alice", ""⟩), .call 0 0,
      .hear 0 (.clock ⟨0, ⟨-1, 5⟩⟩), .call 0 0, .call 0 0],
    .survey .standard ["BTC"] ⟨7384, 5⟩ (valuing ⟨7384, 5⟩),
    .visits .standard [.enter (.trade 0 "alice" ⟨.buy, "BTC", some (.ofUnits 1)⟩ false),
      .hear 0 (.price (.ok (.ofUnits 20000))), .hear 0 (.clock ⟨1, ⟨4002, 0⟩⟩), .call 0 1, .call 0 1,
      .call 0 1]]

/-- The user comes back, and a price does not come. -/
def between : List Episode :=
  [.visits .standard [.enter (.account ⟨"alice", "Alicia", ""⟩), .call 0 0],
    .survey .standard ["BTC"] ⟨-7384, 5⟩ [.hear (.clock ⟨0, ⟨-7384, 5⟩⟩), .hear .late]]

/-- The snapshot from before 1970 is removed, that of the third hour stays, and that of the fourth
is set. At the end of the fourth hour there is nothing more to do. -/
theorem histories_of_play_story :
    ∃ b s b' s', story.foldlM play? ⟨.empty, .empty 1000⟩ = some b ∧
      Survey.EndsWell brief ["BTC"] ⟨10801, 0⟩ b (valuing ⟨10801, 0⟩) s ⟨1, 0, 1⟩ ∧
      between.foldlM play? s.books = some b' ∧
      Survey.EndsWell brief ["BTC"] ⟨14399, 999999999⟩ b' (valuing ⟨14399, 999999999⟩) s' ⟨1, 0, 0⟩ ∧
      (b.store.history "alice").entries =
        [(⟨-3600, 0⟩, .ofUnits 100000), (⟨7200, 0⟩, .ofUnits 100000)] ∧
      (∀ x ∈ b.store.snapshots "alice", x.timestamp.IsHour) ∧
      UserValuation.Renewed ⟨10800, 0⟩ ⟨7200, 0⟩ (.ofUnits 110000) (b.store.history "alice")
        (s.books.store.history "alice") ∧
      s'.books.store.history "alice" = b'.store.history "alice" := by
  have hall : (story.foldlM play? ⟨.empty, .empty 1000⟩).bind (fun b =>
      ((Survey.opened brief ["BTC"] ⟨10801, 0⟩ b).run? (valuing ⟨10801, 0⟩)).bind (fun s =>
        (between.foldlM play? s.books).bind (fun b' =>
          ((Survey.opened brief ["BTC"] ⟨14399, 999999999⟩ b').run?
            (valuing ⟨14399, 999999999⟩)).map (fun s' =>
              ([s.result?, s'.result?], decide (b'.store.users = s.books.store.users),
                (b.store.user? "alice").map (fun v =>
                  v.value.portfolio.valuation (Survey.quoted ["BTC"] (valuing ⟨10801, 0⟩)))))))) =
      some ([some (.ok ⟨1, 0, 1⟩), some (.ok ⟨1, 0, 0⟩)], true, some (.ok (.ofUnits 110000))) := by
    decide +kernel
  have hbefore : (story.foldlM play? ⟨.empty, .empty 1000⟩).map
      (fun b => (b.store.history "alice").entries) =
      some [(⟨-3600, 0⟩, .ofUnits 100000), (⟨7200, 0⟩, .ofUnits 100000)] := by
    decide +kernel
  rcases Option.bind_eq_some_iff.1 hall with ⟨b, hb, hafter⟩
  rcases Option.bind_eq_some_iff.1 hafter with ⟨s, hs, hafter⟩
  rcases Option.bind_eq_some_iff.1 hafter with ⟨b', hb', hafter⟩
  rcases Option.map_eq_some_iff.1 hafter with ⟨s', hs', hends⟩
  simp only [Prod.mk.injEq, List.cons.injEq, and_true] at hends
  rcases hends with ⟨⟨hr, hr'⟩, husers, halice⟩
  rw [hb] at hbefore
  have hentries := Option.some.inj hbefore
  rcases Option.map_eq_some_iff.1 halice with ⟨v, hv, hvalue⟩
  have hquiet : ∀ time, Survey.Quiet (valuing time) := by
    intro time now c hc
    simp only [valuing, List.mem_cons, reduceCtorEq, List.not_mem_nil, or_self] at hc
  have hplain : ∀ e ∈ story, e.IsPlain := by
    intro e he
    simp only [story, List.mem_cons, List.not_mem_nil, or_false] at he
    rcases he with rfl | rfl | rfl
    · change ∀ a ∈ _, Action.IsPlain a
      decide
    · exact ⟨by decide, by decide, hquiet _⟩
    · change ∀ a ∈ _, Action.IsPlain a
      decide
  have hplain' : ∀ e ∈ between, e.IsPlain ∧ e.IsIdle := by
    intro e he
    simp only [between, List.mem_cons, List.not_mem_nil, or_false] at he
    rcases he with rfl | rfl
    · refine ⟨?_, trivial⟩
      change ∀ a ∈ _, Action.IsPlain a
      decide
    · refine ⟨⟨by decide, by decide, fun now c hc => ?_⟩, .hear .late,
        List.mem_cons_of_mem _ List.mem_cons_self, rfl⟩
      simp only [List.mem_cons, reduceCtorEq, List.not_mem_nil, or_self] at hc
  have hrun := Survey.EndsWell.mk (hquiet _) hs hr
  have hrun' := Survey.EndsWell.mk (hquiet _) hs' hr'
  rcases histories_of_play hplain hb with ⟨horder, hruns⟩
  rcases hruns _ _ _ ⟨7200, 0⟩ _ _ _ ⟨by decide, by decide, rfl⟩ hrun with ⟨-, -, hrenewed, hagain⟩
  have hportfolios : ∀ id, (b'.store.user? id).map (·.value.portfolio) =
      (s.books.store.user? id).map (·.value.portfolio) := by
    intro id
    rw [Store.user?, of_decide_eq_true husers]
    rfl
  refine ⟨b, s, b', s', hb, hrun, hb', hrun', hentries, (horder "alice").2,
    hrenewed "alice" v _ hv hvalue, ?_⟩
  exact (hagain between b' _ _ s' _ (fun e he => (hplain' e he).1) (fun e he => (hplain' e he).2) hb'
    hportfolios (by decide) (by decide) hrun' rfl).1 "alice"

end Episode

end Bourse
