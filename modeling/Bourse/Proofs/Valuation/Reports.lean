import Bourse.Proofs.Valuation.Tallies

/-!
# What a Run Comes To

A valuation run over books that others use at the same time comes to an end, because
each of its steps uses up something: a symbol without a price, a page, or a step of a
valuation. When a price does not come, it fails, and no history was changed. Otherwise
its report says of all whom it visited how many could be valued, and the history of each
has the snapshot of the hour and none from before the cutoff.

## Main definitions

* `Survey.CanGoOn`: the run or one of its valuations can take a step.
* `Survey.quoted`: the prices that came in, by symbol.
* `Survey.Steady`: nobody else writes a document.
* `Survey.Surveyed`: what a run has done when it ends well.

## Theorems

* `Survey.canGoOn_of_none`: a run that has not ended can go on.
* `Survey.heard_of_run`, `Survey.countP_isOwn`: how many steps it takes.
* `Survey.spared_of_error`: what it has done when it fails.
* `Survey.surveyed_of_run`: what it has done when it ends well.
* `Survey.outcome_of_run`: how a run goes, whatever others do.
-/

namespace Bourse

namespace Survey

variable {config : ValuationConfig} {symbols : List String} {time cutoff : Timestamp} {b : Books}
  {s t : Survey} {past actions : List Action} {a : Action}

/-! ## A run goes on -/

/-- Whether the run or one of its valuations can take a step. -/
def CanGoOn (s : Survey) : Prop := ∃ a, Action.isOwn a = true ∧ (s.step? a).isSome = true

/-- A valuation that is under way can take a step. -/
theorem canGoOn_of_pending {n : ℕ} {v : Valuing} (hv : s.valuings[n]? = some v)
    (hended : v.ended = false) : s.CanGoOn := by
  rcases v with ⟨u, x, ended⟩
  cases hended
  cases hphase : x.phase with
  | writing value | sweeping =>
      refine ⟨.value n 0, rfl, ?_⟩
      simp only [step?, hv, UserValuation.next, hphase]
      rfl
  | finished r =>
      refine ⟨.finish n, rfl, ?_⟩
      simp only [step?, hv, UserValuation.next, hphase]
      rfl

/-- Where the run counts some that are under way, there is one. -/
theorem Tallied.canGoOn (h : Tallied s) (hpos : 0 < s.run.running) : s.CanGoOn := by
  by_contra hnone
  have hzero : (s.valuings.map Valuing.pending).sum = 0 := by
    refine List.sum_eq_zero (fun k hk => ?_)
    rcases List.mem_map.1 hk with ⟨v, hv, rfl⟩
    rcases List.mem_iff_getElem?.1 hv with ⟨n, hn⟩
    cases hended : v.ended with
    | true => exact if_pos hended
    | false => exact absurd (canGoOn_of_pending hn hended) hnone
  rw [h.running, hzero] at hpos
  exact Nat.lt_irrefl 0 hpos

/-- A run that has not ended can go on. -/
theorem canGoOn_of_none (hadmitted : s.run.parallelism ≤ ValuationRun.largestParallelism)
    (hstage : Stage symbols past s) (htallied : Tallied s) (h : s.result? = none) :
    s.CanGoOn := by
  cases hphase : s.run.phase with
  | asking missing =>
      cases missing with
      | nil =>
          refine ⟨.call 0, rfl, ?_⟩
          simp only [step?, ValuationRun.next, hphase, if_pos hadmitted, ValuationRun.list]
          rfl
      | cons symbol missing =>
          refine ⟨.hear (.clock ⟨0, ⟨0, 0⟩⟩), rfl, ?_⟩
          simp only [step?, ValuationRun.next, hphase]
          rfl
  | pricing symbol due missing =>
      refine ⟨.hear .late, rfl, ?_⟩
      simp only [step?, ValuationRun.next, hphase]
      rfl
  | visiting page more =>
      cases page with
      | cons u page =>
          by_cases hroom : s.run.running < s.run.parallelism
          · refine ⟨.start, rfl, ?_⟩
            simp only [step?, ValuationRun.next, hphase, if_pos hroom]
            rfl
          · -- All places are taken, so somebody is under way.
            have hplace : 0 < s.run.parallelism :=
              Nat.lt_of_lt_of_le Nat.one_pos (Nat.le_max_right _ _)
            exact htallied.canGoOn (Nat.lt_of_lt_of_le hplace (Nat.le_of_not_lt hroom))
      | nil =>
          cases more with
          | some last =>
              refine ⟨.call 0, rfl, ?_⟩
              simp only [step?, ValuationRun.next, hphase, ValuationRun.list]
              rfl
          | none =>
              refine htallied.canGoOn (Nat.pos_of_ne_zero (fun hzero => ?_))
              rw [result?, ValuationRun.next, hphase] at h
              simp only [hzero, if_true, reduceCtorEq] at h
  | finished r =>
      rw [result?, ValuationRun.next, hphase] at h
      exact absurd h (by simp only [reduceCtorEq, not_false_eq_true])
  | broken =>
      rw [Stage, hphase] at hstage
      exact hstage.elim

/-! ## A run comes to an end -/

/-- Whether a step brings the run something that it waits for. -/
def Action.isHearing : Action → Bool
  | hear _ => true
  | _ => false

/-- How much is still to be heard: the time and a price for each symbol. -/
def unheard : ValuationRun.Phase → ℕ
  | .asking missing => 2 * missing.length
  | .pricing _ _ missing => 2 * missing.length + 1
  | _ => 0

theorem heard_of_move (hmove : Move s a t)
    (h : past.countP Action.isHearing + unheard s.run.phase ≤ 2 * symbols.length) :
    (past ++ [a]).countP Action.isHearing + unheard t.run.phase ≤ 2 * symbols.length := by
  rw [List.countP_append, List.countP_singleton]
  cases hmove with
  | timed m symbol missing hphase =>
      rw [hphase, unheard, List.length_cons] at h
      simp only [Action.isHearing, if_true, unheard]
      omega
  | priced price symbol due missing hphase =>
      rw [hphase, unheard] at h
      simp only [Action.isHearing, if_true, unheard]
      omega
  | refused e symbol due missing hphase | late symbol due missing hphase =>
      rw [hphase, unheard] at h
      simp only [Action.isHearing, if_true, ValuationRun.fail, ValuationRun.enter, unheard]
      omega
  | listed now after hphase =>
      exact (Nat.le_add_right _ _).trans h
  | started u page more hphase hroom => exact (Nat.le_add_right _ _).trans h
  | written n now v value hv hvphase | swept n now v hv hvphase | finished n u x r hv hvphase
  | aside now c => exact h

/-- The time and a price are heard for each symbol, and nothing more. -/
theorem heard_of_run (hcutoff : (ValuationRun.cutoff? config time.startOfHour).isSome = true)
    (h : (opened config symbols time b).run? actions = some s) :
    actions.countP Action.isHearing ≤ 2 * symbols.length := by
  have hall := induction (fun past s => past.countP Action.isHearing + unheard s.run.phase ≤
    2 * symbols.length) ?_ (fun _ _ _ _ _ ih hmove => heard_of_move hmove ih) h
  · exact (Nat.le_add_right _ _).trans hall
  · have hphase : (opened config symbols time b).run.phase = .asking symbols := if_pos hcutoff
    rw [hphase]
    exact Nat.le_of_eq (Nat.zero_add _)

/-- The run hears, asks for pages, and lets valuations work. -/
theorem countP_isOwn (actions : List Action) : actions.countP Action.isOwn =
    actions.countP Action.isHearing + actions.countP Action.isPage +
      actions.countP Action.isWork := by
  induction actions with
  | nil => rfl
  | cons a rest ih =>
      rw [List.countP_cons, List.countP_cons, List.countP_cons, List.countP_cons, ih]
      cases a <;> simp only [Action.isOwn, Action.isHearing, Action.isPage, Action.isWork, if_true,
        Bool.false_eq_true, if_false] <;> omega

/-! ## What a run has done -/

/-- The prices that came in, by symbol. -/
def quoted (symbols : List String) (past : List Action) : Table String Amount :=
  Table.ofList (symbols.zip (heard past))

/-- Nobody else writes a document. -/
def Steady (past : List Action) : Prop := ∀ now c, .aside now c ∈ past → c.isWrite = false

/-- What a run has done when it ends well. What a user is worth is what the document that was
listed comes to at the prices that came in. -/
structure Surveyed (config : ValuationConfig) (symbols : List String) (time cutoff : Timestamp)
    (b : Books) (past : List Action) (s : Survey) (r : ValuationReport) : Prop where
  quoted : symbols.length = (heard past).length
  /-- Nobody is visited twice. -/
  ascending : Ascending s.visited
  once : ∀ id, (∃ v, b.store.user? id = some v) → (s.visited.map (·.id)).count id = 1
  stored : ∀ u ∈ s.visited, Stored config symbols time b past u
  steady : Steady past → s.visited = b.store.users.entries.map (·.2.value)
  total : r.valued + r.failed = s.visited.length
  valued : r.valued =
    s.visited.countP (fun u => (u.portfolio.valuation (Survey.quoted symbols past)).isOk)
  pruned : (∀ u ∈ s.visited, Untouched past u.id) →
    r.pruned = (s.visited.map (fun u => UserValuation.losses time.startOfHour cutoff
      (u.portfolio.valuation (Survey.quoted symbols past)) (b.store.history u.id))).sum
  history : ∀ u ∈ s.visited, Untouched past u.id →
    s.books.store.history u.id = UserValuation.outcome time.startOfHour cutoff
      (u.portfolio.valuation (Survey.quoted symbols past)) (b.store.history u.id)
  others : ∀ id, id ∉ s.visited.map (·.id) → Untouched past id →
    s.books.store.history id = b.store.history id

theorem sum_map_toNat {α : Type u} (p : α → Bool) (l : List α) :
    (l.map (fun x => (p x).toNat)).sum = l.countP p := by
  induction l with
  | nil => rfl
  | cons x rest ih =>
      rw [List.map_cons, List.sum_cons, ih, List.countP_cons, Nat.add_comm]
      cases p x <;> rfl

/-- A valuation that has ended was counted by whether the portfolio has a value. -/
theorem told_of_ended {run : ValuationRun} {v : Valuing} (h : v.Proper run) (hended : v.ended = true) :
    v.told.valued = (v.worth run.prices).isOk.toNat ∧
      v.told.failed = (!(v.worth run.prices).isOk).toNat := by
  rcases h.ended hended with ⟨r, hr⟩
  have hfits := h.fits
  rw [hr] at hfits
  rw [Valuing.told, if_pos hended, Valuing.removed?, hr]
  cases r with
  | ok n =>
      rcases hfits with ⟨value, hworth⟩
      rw [hworth]
      exact ⟨rfl, rfl⟩
  | error e =>
      rcases hfits with ⟨e', hworth, -⟩
      rw [hworth]
      exact ⟨rfl, rfl⟩

/-- The snapshots it has removed are those that the history has lost. -/
theorem pruned_of_ended {v : Valuing} (h : v.Proper s.run) (hended : v.ended = true)
    (hshows : Shows b s v) :
    v.told.pruned = UserValuation.losses s.run.hour s.run.cutoff (v.worth s.run.prices)
      (b.store.history v.subject.id) := by
  rcases h.ended hended with ⟨r, hr⟩
  cases r with
  | ok n =>
      have hremoved : v.removed? = some n := by
        rw [Valuing.removed?, hr]
        rfl
      rw [← hshows.removed n hremoved, Valuing.told, if_pos hended, hremoved]
      exact Nat.zero_add n
  | error e =>
      have hfits := h.fits
      rw [hr] at hfits
      rcases hfits with ⟨e', hworth, -⟩
      rw [Valuing.told, if_pos hended, Valuing.removed?, hr, hworth]
      rfl

/-- In the end, its history is what the valuation makes of it. -/
theorem history_of_ended {v : Valuing} (h : v.Proper s.run) (hended : v.ended = true)
    (hshows : Shows b s v) :
    s.books.store.history v.subject.id = UserValuation.outcome s.run.hour s.run.cutoff
      (v.worth s.run.prices) (b.store.history v.subject.id) := by
  rcases h.ended hended with ⟨r, hr⟩
  rw [hshows.history, hr]
  cases v.worth s.run.prices <;> rfl

/-- Where the run counts nobody who is under way, all have ended. -/
theorem Tallied.ended (h : Tallied s) (hnone : s.run.running = 0) : ∀ v ∈ s.valuings, v.ended = true := by
  intro v hv
  have hzero := List.sum_eq_zero_iff.1 (h.running.symm.trans hnone) v.pending (List.mem_map_of_mem hv)
  cases hended : v.ended with
  | true => rfl
  | false =>
      rw [Valuing.pending, hended] at hzero
      exact absurd hzero Nat.one_ne_zero

/-- Where nobody else writes, the documents stay as they are. -/
theorem user?_of_run (hsteady : Steady actions)
    (h : (opened config symbols time b).run? actions = some s) :
    ∀ id, s.books.store.user? id = b.store.user? id := by
  refine induction (fun past s => Steady past → ∀ id, s.books.store.user? id = b.store.user? id)
    (fun _ _ => rfl) (fun past a s t _ ih hmove hsteady id => ?_) h hsteady
  rw [← ih (fun now c hc => hsteady now c (List.mem_append_left _ hc)) id]
  rcases books_of_move hmove with heq | ⟨now, c, heq, hc⟩
  · rw [heq]
  · rw [heq, Call.user?_perform s.books now]
    rcases hc with rfl | hread
    · exact hsteady now c (List.mem_append_right past List.mem_cons_self)
    · exact hread

/-- Where nobody else writes, those visited are the users of the beginning, by their ids. -/
theorem visited_eq_of_steady (hids : b.store.OwnIds) (hsteady : Steady actions)
    (hascending : Ascending s.visited)
    (hcovers : ∀ id, (∃ v, b.store.user? id = some v) → id ∈ s.visited.map (·.id))
    (hstored : ∀ u ∈ s.visited, Stored config symbols time b actions u) :
    s.visited = b.store.users.entries.map (·.2.value) := by
  have hfirst : ∀ u ∈ s.visited, ∃ v, b.store.user? u.id = some v ∧ v.value = u := by
    intro u hu
    rcases hstored u hu with ⟨before, m, version, ⟨more, rfl⟩, hm, hget⟩
    rw [user?_of_run (fun now c hc => hsteady now c (List.mem_append_left _ hc)) hm] at hget
    exact ⟨⟨version, u⟩, hget, rfl⟩
  rw [← b.store.usersPast_none]
  have hall := Store.ascending_usersPast hids none
  refine List.Perm.eq_of_pairwise (fun u w _ _ hlt hgt => ?_) hascending hall ?_
  · have hswap : compare u.id w.id = (compare w.id u.id).swap := Std.OrientedCmp.eq_swap
    rw [hswap, hgt] at hlt
    cases hlt
  · refine (List.perm_ext_iff_of_nodup (List.Nodup.of_map _ hascending.nodup_ids)
      (List.Nodup.of_map _ hall.nodup_ids)).2 (fun u => ?_)
    rw [Store.mem_usersPast hids]
    constructor
    · exact fun hu => ⟨rfl, hfirst u hu⟩
    · rintro ⟨-, v, hv, rfl⟩
      -- Whoever is visited under this id has the same document.
      rcases List.mem_map.1 (hcovers v.value.id ⟨v, hv⟩) with ⟨w, hw, hid⟩
      rcases hfirst w hw with ⟨v', hv', rfl⟩
      rw [hid, hv] at hv'
      rw [Option.some.inj hv']
      exact hw

/-- A run that fails has not begun to value anyone, and no history has changed. -/
theorem spared_of_error (hids : b.store.OwnIds) (hdecent : Decent actions)
    (hcutoff : (ValuationRun.cutoff? config time.startOfHour).isSome = true)
    (h : (opened config symbols time b).run? actions = some s) {e : TradeError}
    (he : s.result? = some (.error e)) :
    s.valuings = [] ∧ ∀ id, Untouched actions id →
      s.books.store.history id = b.store.history id := by
  have hnone := (cause_of_error (stage_of_run hcutoff h) he).1.valuings
  refine ⟨hnone, fun id huntouched => ?_⟩
  refine (recorded_of_run hids hdecent hcutoff h).others id (fun v hv => ?_) huntouched
  rw [hnone] at hv
  exact absurd hv List.not_mem_nil

/-- What a run has done when it ends well. -/
theorem surveyed_of_run (hids : b.store.OwnIds)
    (hcutoff : ValuationRun.cutoff? config time.startOfHour = some cutoff) (hdecent : Decent actions)
    (h : (opened config symbols time b).run? actions = some s) {r : ValuationReport}
    (hr : s.result? = some (.ok r)) : Surveyed config symbols time cutoff b actions s r := by
  have hsome : (ValuationRun.cutoff? config time.startOfHour).isSome = true := by rw [hcutoff]; rfl
  have hstage := stage_of_run hsome h
  have hpaged := paged_of_run hids hdecent hsome h
  have hdivided := divided_of_run hsome h
  have hproper := proper_of_run hsome h
  have htallied := tallied_of_run hsome h
  have hrecorded := recorded_of_run hids hdecent hsome h
  rcases phase_of_ok hstage hr with ⟨hphase, hrunning, rfl⟩
  rcases settings_of_run h with ⟨-, hhour, hcut⟩
  rw [hcutoff, Option.getD_some] at hcut
  have hpriced : Priced symbols [] actions s := by
    rw [Stage, hphase] at hstage
    exact hstage
  -- At the end the last page is empty, so whoever was listed was visited.
  have hlisted : s.listed = s.visited := by
    rw [Divided, hphase] at hdivided
    exact hdivided.trans (List.append_nil _)
  have hascending : Ascending s.visited := ascending_visited hpaged hdivided
  have hcovers : ∀ id, (∃ v, b.store.user? id = some v) → id ∈ s.visited.map (·.id) := by
    rw [Paged, hphase, hlisted] at hpaged
    exact hpaged.2
  have hstored : ∀ u ∈ s.visited, Stored config symbols time b actions u :=
    fun u hu => (stored_of_run hids hdecent h u (hlisted ▸ hu)).1
  have hended := htallied.ended hrunning
  have hprices : s.run.prices = quoted symbols actions := hpriced.all.2
  have hvalued : s.run.report.valued =
      s.visited.countP (fun u => (u.portfolio.valuation (quoted symbols actions)).isOk) := by
    rw [htallied.valued, visited, List.countP_map, ← sum_map_toNat]
    refine congrArg List.sum (List.map_congr_left (fun v hv => ?_))
    rw [(told_of_ended (hproper v hv) (hended v hv)).1, hprices]
    rfl
  have hfailed : s.run.report.failed =
      s.visited.countP (fun u => !(u.portfolio.valuation (quoted symbols actions)).isOk) := by
    rw [htallied.failed, visited, List.countP_map, ← sum_map_toNat]
    refine congrArg List.sum (List.map_congr_left (fun v hv => ?_))
    rw [(told_of_ended (hproper v hv) (hended v hv)).2, hprices]
    rfl
  constructor
  case quoted => exact hpriced.all.1
  case ascending => exact hascending
  case once =>
    exact fun id hid => List.count_eq_one_of_mem hascending.nodup_ids (hcovers id hid)
  case stored => exact hstored
  case steady => exact fun hsteady => visited_eq_of_steady hids hsteady hascending hcovers hstored
  case total =>
    rw [hvalued, hfailed, List.length_eq_countP_add_countP
      (fun u => (User.portfolio u |>.valuation (quoted symbols actions)).isOk)]
    refine congrArg (_ + ·) (List.countP_congr (fun u _ => ?_))
    simp only [Bool.not_eq_true', Bool.not_eq_true, decide_eq_true_eq]
  case valued => exact hvalued
  case pruned =>
    intro huntouched
    rw [htallied.pruned, visited, List.map_map]
    refine congrArg List.sum (List.map_congr_left (fun v hv => ?_))
    have hv' := huntouched v.subject (List.mem_map_of_mem hv)
    rw [pruned_of_ended (hproper v hv) (hended v hv) (hrecorded.visited v hv hv'), hhour, hcut, hprices]
    rfl
  case history =>
    intro u hu huntouched
    rcases List.mem_map.1 hu with ⟨v, hv, rfl⟩
    rw [history_of_ended (hproper v hv) (hended v hv) (hrecorded.visited v hv huntouched), hhour, hcut,
      hprices]
    rfl
  case others =>
    intro id hnobody
    refine hrecorded.others id (fun v hv heq => hnobody ?_)
    rw [← heq, visited, List.map_map]
    exact List.mem_map_of_mem hv

/-- A valuation run over books that others use meanwhile.

It always goes on, with no more pages than it takes to go through the users and one more, until it
ends; and it fails exactly if a price does not come or does not come in time, before it has valued
anyone. Otherwise it visits whoever was there at the beginning once and nobody twice, and the report
and the histories are as they should be. -/
theorem outcome_of_run (hids : b.store.OwnIds)
    (hcutoff : ValuationRun.cutoff? config time.startOfHour = some cutoff)
    (hadmitted : max config.parallelism 1 ≤ ValuationRun.largestParallelism)
    (hdecent : Decent actions) (h : (opened config symbols time b).run? actions = some s) :
    (s.result? = none → s.CanGoOn) ∧
    actions.countP Action.isPage ≤ s.books.store.users.size / max config.pageSize 1 + 1 ∧
    actions.countP Action.isOwn ≤ 2 * symbols.length +
      (s.books.store.users.size / max config.pageSize 1 + 1) + 4 * s.books.store.users.size ∧
    ((∀ now u, .aside now (.createUser u) ∉ actions) →
      s.books.store.users.size = b.store.users.size) ∧
    ((∃ e, s.result? = some (.error e)) ↔ ∃ a ∈ actions, a.isBad = true) ∧
    (∀ e, s.result? = some (.error e) →
      (∃ a ∈ actions, ∃ symbol ∈ symbols, a.failure? symbol = some e) ∧
      s.valuings = [] ∧ ∀ id, Untouched actions id →
        s.books.store.history id = b.store.history id) ∧
    ∀ r, s.result? = some (.ok r) → Surveyed config symbols time cutoff b actions s r := by
  have hsome : (ValuationRun.cutoff? config time.startOfHour).isSome = true := by rw [hcutoff]; rfl
  have hstage := stage_of_run hsome h
  have hpaged := paged_of_run hids hdecent hsome h
  have hsettings := settings_of_run h
  have hlisted := listed_le hpaged.ascending (fun u hu => (stored_of_run hids hdecent h u hu).2)
  have hpages : actions.countP Action.isPage ≤
      s.books.store.users.size / max config.pageSize 1 + 1 := by
    have hcounted := (counted_of_run hids hdecent hsome h).le
    rw [ValuationRun.pageSize, hsettings.1] at hcounted
    exact hcounted.trans (Nat.add_le_add_right (Nat.div_le_div_right hlisted) 1)
  refine ⟨?_, hpages, ?_, fun hnone => size_of_run hnone h, exists_error_iff hstage, ?_, ?_⟩
  · refine canGoOn_of_none ?_ hstage (tallied_of_run hsome h)
    rw [ValuationRun.parallelism, hsettings.1]
    exact hadmitted
  · -- Steps of the run itself are news and pages, and each valuation takes four at most.
    have hheard := heard_of_run hsome h
    have hworked := worked_of_run h
    have hvisited : s.visited.length ≤ s.books.store.users.size := by
      have hdivided := congrArg List.length (divided_of_run hsome h)
      rw [List.length_append] at hdivided
      omega
    rw [countP_isOwn]
    omega
  · intro e he
    exact ⟨(cause_of_error hstage he).2, spared_of_error hids hdecent hsome h he⟩
  · exact fun r hr => surveyed_of_run hids hcutoff hdecent h hr

/-- A user with cash and a position. -/
def holder (id : String) (size : Int64) : User :=
  .opened id id "" ⟨0, 0⟩ ⟨.ofUnits 100, Table.empty.insert "BTC" (.ofUnits size)⟩

/-- One user at a time is fetched and valued, and an hour of snapshots is kept. -/
def narrow : ValuationConfig :=
  { ValuationConfig.standard with maxHistoryHours := 1, parallelism := 0, pageSize := 0 }

/-- A user with snapshots of two hours. -/
def early : Books :=
  let s := (Store.empty.createUser (holder "amy" 2)).2
  ⟨(s.putSnapshot "amy" ⟨⟨0, 0⟩, .ofUnits 50⟩).putSnapshot "amy" ⟨⟨3600, 0⟩, .ofUnits 60⟩,
    .empty 1000⟩

/-- While the run goes from page to page, others open accounts. The second user has more than can be
valued. -/
def growing : List Action :=
  [.hear (.clock ⟨0, ⟨7384, 5⟩⟩), .hear (.price (.ok (.ofUnits 1000000000))), .call 0, .start,
    .value 0 0, .aside 0 (.createUser (holder "bob" 10000000000)), .value 0 0, .finish 0, .call 0,
    .start, .aside 0 (.createUser (holder "cat" 3)), .finish 1, .call 0, .start, .value 2 0,
    .value 2 0, .finish 2, .call 0]

/-- All three are visited, and the second has no value. Of the first, the snapshot of the hour is
there and that of two hours before is not. -/
theorem outcome_of_run_growing :
    ∃ s, (opened narrow ["BTC"] ⟨7384, 5⟩ early).run? growing = some s ∧
      s.result? = some (.ok ⟨2, 1, 1⟩) ∧
      Surveyed narrow ["BTC"] ⟨7384, 5⟩ ⟨3600, 0⟩ early growing s ⟨2, 1, 1⟩ ∧
      s.visited = [holder "amy" 2, holder "bob" 10000000000, holder "cat" 3] ∧
      (s.books.store.history "amy").entries =
        [(⟨3600, 0⟩, .ofUnits 60), (⟨7200, 0⟩, .ofUnits 2000000100)] ∧
      growing.countP Action.isPage ≤ s.books.store.users.size / 1 + 1 := by
  have hrun : ((opened narrow ["BTC"] ⟨7384, 5⟩ early).run? growing).map
      (fun s => (s.result?, s.visited)) = some (some (.ok ⟨2, 1, 1⟩),
        [holder "amy" 2, holder "bob" 10000000000, holder "cat" 3]) := by
    decide +kernel
  obtain ⟨s, hs, hends⟩ := Option.map_eq_some_iff.1 hrun
  obtain ⟨hr, hvisited⟩ := Prod.mk.inj hends
  have haside : ∀ now c, .aside now c ∈ growing → c.recorded? = none ∧ c.IsProper := by
    intro now c hc
    simp only [growing, List.mem_cons, reduceCtorEq, Action.aside.injEq, List.not_mem_nil, false_or,
      or_false] at hc
    rcases hc with ⟨-, rfl⟩ | ⟨-, rfl⟩ <;> exact ⟨rfl, trivial⟩
  rcases outcome_of_run (Store.ownIds_iff.2 (by decide)) rfl (by decide)
    (fun now c hc => (haside now c hc).2) hs with ⟨-, hpages, -, -, -, -, hsurvey⟩
  have hsurveyed := hsurvey _ hr
  refine ⟨s, hs, hr, hsurveyed, hvisited, ?_, hpages⟩
  have hamy : holder "amy" 2 ∈ s.visited := hvisited ▸ List.mem_cons_self
  have hhistory := hsurveyed.history _ hamy (fun now c hc => by
    rw [(haside now c hc).1]
    exact Option.some_ne_none _ |>.symm)
  rw [show (holder "amy" 2).id = "amy" from rfl] at hhistory
  rw [hhistory]
  decide +kernel

end Survey

end Bourse
