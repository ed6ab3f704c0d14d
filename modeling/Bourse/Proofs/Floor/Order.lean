import Bourse.Proofs.Floor.Logs

/-!
# The Three Orders of Trades

A trade reads the clocks, is committed, and is logged, one after the other, and
between any two of these steps other trades of the user may take theirs. So the trades
of one user have three orders: of their timestamps, of the versions that they made,
and of their entries in the log. The replay of a document follows the second and the
log is read in the third, and nothing in the steps ties the one to the other.

Two trades of which one has written its entry before the other goes on are in order
all the same. If that was before the other was committed, they stand in the log as
they were committed; if it was before the other read the clocks, and the clocks do not
go back, their timestamps agree too. Where that holds of any two trades of a user, all
three orders are one, and the log can be replayed.

## Main definitions

* `Floor.readings`: who has read the clocks in a run, and what they showed.
* `Floor.Forward`: the time of day never goes back from one reading to the next.
* `Execution.Clocked`: a trade whose timestamp is what its reading showed.
* `Floor.BookedBefore`, `Floor.OverBefore`: a trade that was in the log before another
  was committed, or before the other had read the clocks.

## Theorems

* `clocked_of_run?`: every trade has read the clocks once, and keeps what they showed.
* `sublist_of_bookedBefore`: when two trades stand in the log as they were committed.
* `loggings_eq_of_pairwise`: when all of them do.
* `order_of_run`: the three orders after any run.
-/

namespace Bourse

/-- A trade with the visitor who committed it, as the journal of a log has it. -/
def Commit.signed (c : Commit) : Nat × TradeRecord := (c.visitor, c.trade)

/-- What the clocks show, to somebody who hears them. -/
def News.moment? : News → Option Moment
  | clock m => some m
  | _ => none

/-- Who reads the clocks in a step, and what they show. -/
def Action.reading? : Action → Option (Nat × Moment)
  | hear n news => news.moment?.map (fun m => (n, m))
  | _ => none

/-! ## The clock of a trade -/

namespace Execution

/-- A trade that knows the times it has read, the list of which is given: none before it reads the
clocks, and from then on the one that its entry in the log will have. -/
def Clocked (times : List Timestamp) (x : Execution) : Prop :=
  match x.phase with
  | .pricing _ | .timing _ => times = []
  | .reading _ m | .storing _ m _ _ => times = [m.time]
  | .logging o | .invalidating o | .pruning o | .finished (.ok o) => times = [o.timestamp]
  | .finished (.error _) => True

theorem clocked_start (config : TradingConfig) (now : Nat) (user : String) (request : TradeRequest)
    (prunes : Bool) : (start config now user request prunes).Clocked [] := by
  unfold start
  split
  · exact rfl
  · exact trivial

/-- What a trade hears is added to what it knows. -/
theorem Clocked.of_hear? {times : List Timestamp} {x y : Execution} {news : News}
    (hx : x.Clocked times) (h : (@next UserValuation x).hear? news = some y) :
    y.Clocked (times ++ (news.moment?.map (·.time)).toList) := by
  rw [Clocked] at hx
  cases hphase : x.phase with
  | pricing due =>
      rw [hphase] at hx
      rw [next, hphase] at h
      cases news with
      | clock m => cases h
      | price answer =>
          rw [← Option.some.inj h, hx]
          cases answer with
          | ok price => exact rfl
          | error e => exact trivial
      | late =>
          rw [← Option.some.inj h]
          exact trivial
  | timing price =>
      rw [hphase] at hx
      rw [next, hphase] at h
      cases news with
      | clock m =>
          rw [← Option.some.inj h, hx]
          exact rfl
      | price answer | late => cases h
  | reading price m | storing price m version u =>
      rw [next, hphase] at h
      cases news with
      | late =>
          rw [← Option.some.inj h]
          exact trivial
      | clock m' | price answer => cases h
  | logging o | invalidating o | pruning o | finished r =>
      rw [next, hphase] at h
      cases news <;> cases h

/-- No call makes a trade forget the time that it has read. -/
theorem Clocked.of_asks {times : List Timestamp} {x : Execution} {c : Call}
    {resume : Except StoreError c.Result → Execution} (hx : x.Clocked times) (h : x.Asks c resume)
    (r : Except StoreError c.Result) : (resume r).Clocked times := by
  rw [Clocked] at hx
  cases h with
  | document price m hphase =>
      rw [hphase] at hx
      rcases x.cases_of_read price m r with ⟨v, u, -, -, hr⟩ | ⟨e, hr⟩
      · rw [hr]
        exact hx
      · rw [hr]
        exact trivial
  | commit price m version u hphase =>
      rw [hphase] at hx
      rcases x.cases_of_stored price m r with ⟨v, -, hr⟩ | ⟨e, hr⟩
      · rw [hr]
        exact hx
      · rw [hr]
        exact trivial
  | log o hphase =>
      rw [hphase] at hx
      exact hx
  | invalidate o hphase =>
      rw [hphase] at hx
      cases hp : x.prunes <;> exact hx
  | prune o hphase =>
      rw [hphase] at hx
      exact hx

/-- A committed trade has read the clocks once, and its entry says what they showed. -/
theorem Clocked.times_eq {times : List Timestamp} {x : Execution} {t : TradeRecord}
    (hx : x.Clocked times) (h : x.committed? = some t) : times = [t.timestamp] := by
  rw [Clocked] at hx
  rw [committed?] at h
  cases hphase : x.phase with
  | logging o | invalidating o | pruning o =>
      rw [hphase] at hx h
      rw [← Option.some.inj h]
      exact hx
  | finished r =>
      rw [hphase] at hx h
      cases r with
      | ok o =>
          rw [← Option.some.inj h]
          exact hx
      | error e => cases h
  | pricing due | timing price | reading price m | storing price m version u =>
      rw [hphase] at h
      cases h

/-- What a trade has written is what it has committed. -/
theorem committed?_of_logged? {x : Execution} {t : TradeRecord} (h : x.logged? = some t) :
    x.committed? = some t := by
  rw [logged?] at h
  rw [committed?]
  cases hphase : x.phase with
  | invalidating o | pruning o =>
      rw [hphase] at h
      exact h
  | finished r =>
      rw [hphase] at h
      cases r with
      | ok o => exact h
      | error e => cases h
  | pricing due | timing price | reading price m | storing price m version u | logging o =>
      rw [hphase] at h
      cases h

end Execution

/-! ## Lists without repetitions -/

/-- In a list without repetitions, of two entries only one is before the other. -/
theorem eq_of_sublist_pairs {α : Type} {l : List α} (hl : l.Nodup) {a b : α}
    (hab : [a, b].Sublist l) (hba : [b, a].Sublist l) : a = b := by
  induction l with
  | nil => cases hab
  | cons x rest ih =>
      rcases List.nodup_cons.1 hl with ⟨hx, hrest⟩
      cases hab with
      | cons _ hab =>
          cases hba with
          | cons _ hba => exact ih hrest hab hba
          | cons_cons _ _ => exact absurd (hab.subset (by simp only [List.mem_cons, true_or, or_true])) hx
      | cons_cons _ _ =>
          cases hba with
          | cons _ hba => exact absurd (hba.subset (by simp only [List.mem_cons, true_or, or_true])) hx
          | cons_cons _ _ => rfl

/-- What an operation has written for a user it has committed. -/
theorem Operation.mem_committed_of_mem_logged {x : Operation} {id : String} {t : TradeRecord}
    (h : t ∈ x.logged id) : t ∈ x.committed id := by
  cases x with
  | execution x =>
      simp only [logged, committed] at h ⊢
      split_ifs at h ⊢ with hx
      · exact Option.mem_toList.2 (Execution.committed?_of_logged? (Option.mem_toList.1 h))
      · exact h
  | _ => exact h

/-! ## Readings of a run -/

/-- What a visitor becomes a trade by is a trade of the same visitor. -/
theorem Operation.execution_of_hear? {x : Operation} {news : News} {y : Execution}
    (h : x.next.hear? news = some (.execution y)) :
    ∃ w, x = .execution w ∧ (@Execution.next UserValuation w).hear? news = some y := by
  cases x with
  | execution w =>
      rcases exists_of_hear? h with ⟨z, hz, heq⟩
      rw [Operation.execution.inj heq]
      exact ⟨w, rfl, hz⟩
  | _ =>
      rcases exists_of_hear? h with ⟨z, -, heq⟩
      cases heq

namespace Floor

open Journal

variable {config : TradingConfig} {f f' : Floor} {actions : List Action} {id : String}

/-- The readings of the clocks in a run: by whom, and what they showed. -/
def readings (actions : List Action) : List (Nat × Moment) :=
  actions.filterMap Action.reading?

/-- The times of day that a visitor has read. -/
def timesRead (actions : List Action) (n : Nat) : List Timestamp :=
  ((readings actions).filter (fun e => e.1 = n)).map (·.2.time)

/-- The time of day never goes back from one reading to a later one. -/
def Forward (actions : List Action) : Prop :=
  (readings actions).Pairwise (fun a b => b.2.time.before a.2.time = false)

instance (actions : List Action) : Decidable (Forward actions) :=
  inferInstanceAs (Decidable (List.Pairwise _ _))

theorem readings_append (past rest : List Action) :
    readings (past ++ rest) = readings past ++ readings rest :=
  List.filterMap_append

theorem timesRead_append (past rest : List Action) (n : Nat) :
    timesRead (past ++ rest) n = timesRead past n ++ timesRead rest n := by
  simp only [timesRead, readings_append, List.filter_append, List.map_append]

/-- What a visitor hears is read by that visitor and by no other. -/
theorem timesRead_hear (n k : Nat) (news : News) :
    timesRead [.hear n news] k = if k = n then (news.moment?.map (·.time)).toList else [] := by
  cases news with
  | clock m =>
      have hone : readings [.hear n (.clock m)] = [(n, m)] := rfl
      by_cases hk : k = n
      · simp only [timesRead, hone, hk, decide_true, List.filter_cons_of_pos]
        rfl
      · simp only [timesRead, hone, if_neg hk, Ne.symm hk, decide_false, Bool.false_eq_true,
          not_false_eq_true, List.filter_cons_of_neg]
        rfl
  | price answer | late => split_ifs <;> rfl

/-- Trades know what they have read, and nobody has read the clocks who is yet to come. -/
structure Clocked (actions : List Action) (f : Floor) : Prop where
  trades : ∀ (n : Nat) (x : Execution) (present : Bool),
    f.visits[n]? = some ⟨.execution x, present⟩ → x.Clocked (timesRead actions n)
  later : ∀ n, f.visits.length ≤ n → timesRead actions n = []

theorem clocked_opened (config : TradingConfig) : Clocked [] (opened config) := by
  refine ⟨fun n x present hx => ?_, fun n _ => rfl⟩
  rw [opened, List.getElem?_nil] at hx
  cases hx

/-- A step in which nobody reads the clocks adds nothing to what anybody has read. -/
theorem timesRead_concat_of_none {a : Action} (h : a.reading? = none) (past : List Action)
    (n : Nat) : timesRead (past ++ [a]) n = timesRead past n := by
  have hnone : readings [a] = [] := List.filterMap_cons_none h
  simp only [timesRead, readings_append, hnone, List.append_nil]

/-- Every trade goes on knowing what it has read, whatever step is taken. -/
theorem clocked_of_move {a : Action} {past : List Action} (hup : f.Upright config)
    (hf : Clocked past f) (h : Move config f a f') : Clocked (past ++ [a]) f' := by
  cases h with
  | enter e =>
      refine ⟨fun n x present hx => ?_, fun n hn => ?_⟩
      · rw [timesRead_concat_of_none rfl]
        rw [getElem?_concat_eq] at hx
        split_ifs at hx with hn
        · -- It has just come, so it has read nothing.
          rw [hf.later n (le_of_eq hn.symm)]
          have hstart := (Visit.mk.inj (Option.some.inj hx)).1
          cases e with
          | trade now user request prunes =>
              rw [← Operation.execution.inj hstart]
              exact Execution.clocked_start config now user request prunes
          | _ => cases hstart
        · exact hf.trades n x present hx
      · rw [timesRead_concat_of_none rfl]
        rw [List.length_append, List.length_singleton] at hn
        exact hf.later n (by omega)
  | hear n news x y hx hy =>
      refine ⟨fun k z present hz => ?_, fun k hk => ?_⟩
      · rw [timesRead_append, timesRead_hear]
        by_cases hkn : k = n
        · rw [goOn, hkn, getElem?_set_visit hx] at hz
          rcases Visit.mk.inj (Option.some.inj hz) with ⟨rfl, -⟩
          rcases Operation.execution_of_hear? hy with ⟨w, rfl, hw⟩
          rw [if_pos hkn, hkn]
          exact (hf.trades n w true hx).of_hear? hw
        · rw [goOn, getElem?_set_eq hx, if_neg hkn] at hz
          rw [if_neg hkn, List.append_nil]
          exact hf.trades k z present hz
      · rw [goOn, List.length_set] at hk
        have hn := (List.getElem?_eq_some_iff.1 hx).1
        rw [timesRead_append, timesRead_hear, if_neg (by omega), hf.later k hk, List.append_nil]
  | call n now x c d resume hx hnext =>
      refine ⟨fun k z present hz => ?_, fun k hk => ?_⟩
      · rw [timesRead_concat_of_none rfl]
        by_cases hkn : k = n
        · rw [called, hkn, getElem?_set_visit hx] at hz
          have hresume := (Visit.mk.inj (Option.some.inj hz)).1
          rw [hkn]
          rcases Operation.cases_of_booking (hup n _ hx) hnext with
            ⟨w, l, rfl, hasks, hl⟩ | ⟨w, l, -, -, hl⟩ | ⟨-, -, hapart⟩
          · rw [hl] at hresume
            rw [← Operation.execution.inj hresume]
            exact (hf.trades n w true hx).of_asks hasks _
          · rw [hl] at hresume
            cases hresume
          · have hnot := hapart (c.perform f.books now).1
            rw [hresume] at hnot
            exact Bool.noConfusion hnot
        · rw [called, getElem?_set_eq hx, if_neg hkn] at hz
          exact hf.trades k z present hz
      · rw [called, List.length_set] at hk
        rw [timesRead_concat_of_none rfl]
        exact hf.later k hk
  | leave n x hx =>
      refine ⟨fun k z present hz => ?_, fun k hk => ?_⟩
      · rw [timesRead_concat_of_none rfl]
        rw [getElem?_set_eq hx] at hz
        split_ifs at hz with hkn
        · rcases Visit.mk.inj (Option.some.inj hz) with ⟨rfl, -⟩
          rw [hkn]
          exact hf.trades n z true hx
        · exact hf.trades k z present hz
      · rw [List.length_set] at hk
        rw [timesRead_concat_of_none rfl]
        exact hf.later k hk
  | sweep now =>
      refine ⟨fun n x present hx => ?_, fun n hn => ?_⟩
      · rw [timesRead_concat_of_none rfl]
        exact hf.trades n x present hx
      · rw [timesRead_concat_of_none rfl]
        exact hf.later n hn

/-- After any run every trade knows what it has read. -/
theorem clocked_of_run? (h : (opened config).run? config actions = some f) : Clocked actions f :=
  moment_induction Clocked (clocked_opened config)
    (fun _ _ _ _ hg hclocked hmove => clocked_of_move (kept_of_run? hg).1 hclocked hmove) h

/-! ## Commits and entries of one visitor -/

theorem mem_share_of_mem_commits {c : Commit} (hf : f.Kept config) (hc : c ∈ f.commits id) :
    c.trade ∈ f.share id c.visitor := by
  rw [← hf.shares id c.visitor]
  exact List.mem_map.2 ⟨c, List.mem_filter.2 ⟨hc, decide_eq_true rfl⟩, rfl⟩

theorem exists_commit_of_mem_share {n : Nat} {t : TradeRecord} (hf : f.Kept config)
    (ht : t ∈ f.share id n) : ∃ c ∈ f.commits id, c.visitor = n ∧ c.trade = t := by
  rw [← hf.shares id n] at ht
  rcases List.mem_map.1 ht with ⟨c, hc, hct⟩
  rcases List.mem_filter.1 hc with ⟨hmem, hn⟩
  exact ⟨c, hmem, of_decide_eq_true hn, hct⟩

/-- A committed trade has read the clocks once, and they showed its timestamp. -/
theorem timesRead_of_mem_commits {c : Commit} (hkept : f.Kept config) (hf : Clocked actions f)
    (hc : c ∈ f.commits id) : timesRead actions c.visitor = [c.trade.timestamp] := by
  rcases exists_of_mem_share (mem_share_of_mem_commits hkept hc) with ⟨x, present, hx, -, hcommitted⟩
  exact (hf.trades c.visitor x present hx).times_eq hcommitted

theorem mem_readers_of_timesRead {n : Nat} {t : Timestamp} (h : timesRead actions n = [t]) :
    n ∈ (readings actions).map (·.1) := by
  have ht : t ∈ timesRead actions n := by
    rw [h]
    exact List.mem_singleton_self t
  rcases List.mem_map.1 ht with ⟨e, he, -⟩
  rcases List.mem_filter.1 he with ⟨hmem, hn⟩
  exact List.mem_map.2 ⟨e, hmem, of_decide_eq_true hn⟩

theorem length_share_le (f : Floor) (id : String) (n : Nat) : (f.share id n).length ≤ 1 := by
  unfold share
  split
  · next w hw =>
    rcases w with ⟨op, present⟩
    cases op with
    | execution x =>
        simp only [Operation.committed]
        split_ifs
        · cases x.committed? <;> simp only [Option.toList_none, Option.toList_some, List.length_nil,
            List.length_singleton, Nat.zero_le, le_refl]
        · exact Nat.zero_le _
    | _ => exact Nat.zero_le _
  · exact Nat.zero_le _

/-- Nobody has committed two trades. -/
theorem nodup_visitors (hf : f.Kept config) (id : String) :
    ((f.commits id).map (·.visitor)).Nodup := by
  rw [List.nodup_iff_count_le_one]
  intro n
  have hlength := f.length_share_le id n
  rw [← hf.shares id n, List.length_map] at hlength
  rw [List.count_eq_countP, List.countP_map, List.countP_eq_length_filter]
  simpa only [Function.comp_def, beq_eq_decide] using hlength

/-- The trades committed so far are the first ones from then on. -/
theorem commits_isPrefix (h : f.run? config actions = some f') (id : String) :
    f.commits id <+: f'.commits id :=
  (journal_isPrefix h).filterMap _

/-- The entries written so far are the first ones from then on. -/
theorem loggings_isPrefix (h : f.run? config actions = some f') (id : String) :
    loggings id f.journal <+: loggings id f'.journal :=
  (journal_isPrefix h).flatMap _

/-- Whoever has written an entry has committed the trade that it tells of. -/
theorem exists_commit_of_mem_loggings {n : Nat} {t : TradeRecord} (hkept : f.Kept config)
    (hf : f.Logged config id) (h : (n, t) ∈ loggings id f.journal) :
    ∃ c ∈ f.commits id, c.visitor = n ∧ c.trade = t := by
  have ht : t ∈ f.logged id n := by
    rw [← hf.shares n]
    exact List.mem_map.2 ⟨(n, t), List.mem_filter.2 ⟨h, decide_eq_true rfl⟩, rfl⟩
  refine exists_commit_of_mem_share hkept ?_
  rw [logged] at ht
  rw [share]
  cases hw : f.visits[n]? with
  | none =>
      rw [hw] at ht
      exact ht
  | some w =>
      rw [hw] at ht
      exact Operation.mem_committed_of_mem_logged ht

/-! ## One trade before another -/

/-- At some moment of a run a trade was in the log of its user, and another was not committed
yet. -/
def BookedBefore (config : TradingConfig) (actions : List Action) (id : String) (c d : Commit) :
    Prop :=
  ∃ past g, past <+: actions ∧ (opened config).run? config past = some g ∧
    c.signed ∈ loggings id g.journal ∧ d ∉ g.commits id

/-- At some moment of a run a trade was in the log of its user, and whoever committed another had
not read the clocks yet. -/
def OverBefore (config : TradingConfig) (actions : List Action) (id : String) (c d : Commit) :
    Prop :=
  ∃ past g, past <+: actions ∧ (opened config).run? config past = some g ∧
    c.signed ∈ loggings id g.journal ∧ d.visitor ∉ (readings past).map (·.1)

/-- A trade is committed after it has read the clocks. -/
theorem OverBefore.bookedBefore {c d : Commit} (h : OverBefore config actions id c d) :
    BookedBefore config actions id c d := by
  rcases h with ⟨past, g, hpast, hg, hc, hd⟩
  refine ⟨past, g, hpast, hg, hc, fun hmem => hd ?_⟩
  exact mem_readers_of_timesRead
    (timesRead_of_mem_commits (kept_of_run? hg).2 (clocked_of_run? hg) hmem)

theorem exists_rest {past : List Action} {g : Floor} (hpast : past <+: actions)
    (hg : (opened config).run? config past = some g)
    (h : (opened config).run? config actions = some f) :
    ∃ rest, past ++ rest = actions ∧ g.run? config rest = some f := by
  rcases hpast with ⟨rest, rfl⟩
  rw [run?_append, hg, Option.bind_some] at h
  exact ⟨rest, rfl, h⟩

/-- Of two trades, of which the first read the clocks before the second did, the first did so in
the run before the second. -/
theorem OverBefore.sublist {c d : Commit} (hbefore : OverBefore config actions id c d)
    (h : (opened config).run? config actions = some f) (hd : d ∈ f.commits id) :
    [c.visitor, d.visitor].Sublist ((readings actions).map (·.1)) := by
  rcases hbefore with ⟨past, g, hpast, hg, hc, hnot⟩
  rcases hpast with ⟨rest, rfl⟩
  rcases exists_commit_of_mem_loggings (kept_of_run? hg).2 ((booked_of_run? hg).logged id) hc with
    ⟨c', hc', hvisitor, -⟩
  have hfirst := mem_readers_of_timesRead
    (timesRead_of_mem_commits (kept_of_run? hg).2 (clocked_of_run? hg) hc')
  have hsecond := mem_readers_of_timesRead
    (timesRead_of_mem_commits (kept_of_run? h).2 (clocked_of_run? h) hd)
  rw [hvisitor] at hfirst
  rw [readings_append, List.map_append, List.mem_append] at hsecond
  rw [readings_append, List.map_append]
  exact (List.singleton_sublist.2 hfirst).append
    (List.singleton_sublist.2 (hsecond.resolve_left hnot))

/-- Two trades of which one was in the log before the other was committed stand in the log one
before the other. -/
theorem sublist_of_bookedBefore {c d : Commit} (h : (opened config).run? config actions = some f)
    (hrest : f.AtRest id) (hd : d ∈ f.commits id) (hbefore : BookedBefore config actions id c d) :
    [c.signed, d.signed].Sublist (loggings id f.journal) := by
  rcases hbefore with ⟨past, g, hpast, hg, hc, hnot⟩
  rcases exists_rest hpast hg h with ⟨rest, -, hrun⟩
  have hkept := (kept_of_run? h).2
  have hlater : d.signed ∈ loggings id f.journal :=
    ((perm_of_atRest ((booked_of_run? h).logged id) hkept hrest).mem_iff).2
      (List.mem_map.2 ⟨d, hd, rfl⟩)
  rcases loggings_isPrefix hrun id with ⟨more, hmore⟩
  rw [← hmore] at hlater ⊢
  -- Its entry is not among those written by then, as it was not committed.
  have habsent : d.signed ∉ loggings id g.journal := by
    intro hmem
    rcases exists_commit_of_mem_loggings (kept_of_run? hg).2 ((booked_of_run? hg).logged id) hmem
      with ⟨d', hd', hvisitor, -⟩
    have hsame := List.inj_on_of_nodup_map (nodup_visitors hkept id)
      ((commits_isPrefix hrun id).subset hd') hd hvisitor
    exact hnot (hsame ▸ hd')
  exact (List.singleton_sublist.2 hc).append
    (List.singleton_sublist.2 ((List.mem_append.1 hlater).resolve_left habsent))

/-- A log in which any two trades stand as they were committed lists the trades as they were
committed. -/
theorem loggings_eq_of_pairwise (h : (opened config).run? config actions = some f)
    (hrest : f.AtRest id) (hbefore : (f.commits id).Pairwise (BookedBefore config actions id)) :
    loggings id f.journal = (f.commits id).map Commit.signed := by
  have hkept := (kept_of_run? h).2
  have hperm := perm_of_atRest ((booked_of_run? h).logged id) hkept hrest
  have hnodup : (loggings id f.journal).Nodup := by
    refine hperm.nodup_iff.2 (List.Nodup.of_map Prod.fst ?_)
    rw [List.map_map]
    exact nodup_visitors hkept id
  -- Both lists are in the order of the first, in which of two entries only one is before the other.
  have hwritten : (loggings id f.journal).Pairwise
      (fun a b => [a, b].Sublist (loggings id f.journal)) :=
    List.pairwise_iff_forall_sublist.2 (fun hab => hab)
  have hcommitted : ((f.commits id).map Commit.signed).Pairwise
      (fun a b => [a, b].Sublist (loggings id f.journal)) := by
    rw [List.pairwise_map]
    exact hbefore.imp_of_mem (fun hc hd hcd => sublist_of_bookedBefore h hrest hd hcd)
  exact hperm.eq_of_pairwise (fun a b _ _ hab hba => eq_of_sublist_pairs hnodup hab hba)
    hwritten hcommitted

theorem time_eq_of_mem_readings {n : Nat} {m : Moment} {t : Timestamp}
    (hmem : (n, m) ∈ readings actions) (htimes : timesRead actions n = [t]) : m.time = t := by
  have htime : m.time ∈ timesRead actions n :=
    List.mem_map.2 ⟨(n, m), List.mem_filter.2 ⟨hmem, decide_eq_true rfl⟩, rfl⟩
  rw [htimes] at htime
  exact List.mem_singleton.1 htime

/-- Trades that have read the clocks one after the other have timestamps that do not go back. -/
theorem before_eq_false {c d : Commit} (h : (opened config).run? config actions = some f)
    (hforward : Forward actions) (hc : c ∈ f.commits id) (hd : d ∈ f.commits id)
    (hreaders : [c.visitor, d.visitor].Sublist ((readings actions).map (·.1))) :
    d.trade.timestamp.before c.trade.timestamp = false := by
  have htimes : ∀ e ∈ f.commits id, timesRead actions e.visitor = [e.trade.timestamp] :=
    fun e he => timesRead_of_mem_commits (kept_of_run? h).2 (clocked_of_run? h) he
  rcases List.sublist_map_iff.1 hreaders with ⟨pair, hpair, heq⟩
  obtain ⟨⟨n, m⟩, ⟨k, m'⟩, rfl⟩ : ∃ a b, pair = [a, b] := by
    rw [← List.length_eq_two, ← List.length_map (·.1), ← heq]
    rfl
  simp only [List.map_cons, List.map_nil, List.cons.injEq, and_true] at heq
  rcases heq with ⟨rfl, rfl⟩
  have hfirst := time_eq_of_mem_readings (hpair.subset (List.mem_cons_self ..)) (htimes c hc)
  have hsecond := time_eq_of_mem_readings
    (hpair.subset (List.mem_cons_of_mem _ (List.mem_cons_self ..))) (htimes d hd)
  rw [← hfirst, ← hsecond]
  exact List.pairwise_iff_forall_sublist.1 hforward hpair

/-- Any number of trades, openings of accounts and readings, whose steps come in any order and of
which any may be given up. When no trade of a user is under way and nothing was pruned from the log,
the log holds the trades committed, one entry for each, in the order in which the entries were
written. Replaying the trades on the document that was opened, in the order of the versions that
they made, gives the portfolio, and the last of them is the last trade that the document tells of.

The log may have another order. Of two trades it has the one first that was logged before the other
was committed, and if the time of day never goes back then of two trades that read it one after the
other the second has no earlier timestamp. If of any two trades the first was logged before the
other read the time, then the log lists the trades as they were committed, with timestamps that do
not go back, its newest entry is the last trade that the document tells of, and replaying it gives
the portfolio. -/
theorem order_of_run (h : (opened config).run? config actions = some f)
    (hforward : Forward actions) (hrest : f.AtRest id) (hwhole : removals id f.journal = 0) :
    f.books.store.log id = (loggings id f.journal).map (·.2) ∧
    (loggings id f.journal).Perm ((f.commits id).map Commit.signed) ∧
    (∀ c ∈ f.commits id, ∀ d ∈ f.commits id, BookedBefore config actions id c d →
      [c.signed, d.signed].Sublist (loggings id f.journal)) ∧
    (∀ c ∈ f.commits id, ∀ d ∈ f.commits id,
      [c.visitor, d.visitor].Sublist ((readings actions).map (·.1)) →
      d.trade.timestamp.before c.trade.timestamp = false) ∧
    ∀ v, f.books.store.user? id = some v → ∃ u, f.openings id = [u] ∧
      (f.commits id).Pairwise (fun c d => c.version < d.version) ∧
      u.portfolio.replay ((f.commits id).map (·.trade)) = .ok v.value.portfolio ∧
      v.value.tradeStats.lastTrade = (f.commits id).getLast?.map (·.trade.timestamp) ∧
      ((f.commits id).Pairwise (OverBefore config actions id) →
        f.books.store.log id = (f.commits id).map (·.trade) ∧
        (f.books.store.log id).Pairwise (fun r s => s.timestamp.before r.timestamp = false) ∧
        v.value.tradeStats.lastTrade = (f.books.store.log id).getLast?.map (·.timestamp) ∧
        u.portfolio.replay (f.books.store.log id) = .ok v.value.portfolio) := by
  have hbooked := booked_of_run? h
  have hkept := (kept_of_run? h).2
  have hlog : f.books.store.log id = (loggings id f.journal).map (·.2) := by
    rw [(hbooked.told id).log, hwhole, List.drop_zero]
  refine ⟨hlog, perm_of_atRest (hbooked.logged id) hkept hrest,
    fun c _ d hd hcd => sublist_of_bookedBefore h hrest hd hcd,
    fun c hc d hd hcd => before_eq_false h hforward hc hd hcd, fun v hv => ?_⟩
  rcases hkept.stored id v hv with ⟨u, hu⟩
  have hreplay := (User.isReplay_of_replay hu.replay).portfolio
  have hlast : v.value.tradeStats.lastTrade = (f.commits id).getLast?.map (·.trade.timestamp) := by
    rcases hu.account with ⟨y, time, -, rfl⟩
    rw [User.lastTrade_of_replay hu.replay, List.getLast?_map, Option.map_map]
    exact Option.or_none
  refine ⟨u, hu.openings, ?_, hreplay, hlast, fun hover => ?_⟩
  · have hversions := hu.versions
    rw [← List.pairwise_map, hversions]
    exact List.pairwise_lt_range'
  -- No two of them overlap, so the log has the order of the commits and the rest follows.
  have hsame : f.books.store.log id = (f.commits id).map (·.trade) := by
    rw [hlog, loggings_eq_of_pairwise h hrest (hover.imp OverBefore.bookedBefore), List.map_map]
    rfl
  refine ⟨hsame, ?_, ?_, ?_⟩
  · rw [hsame, List.pairwise_map]
    exact hover.imp_of_mem (fun hc hd hcd => before_eq_false h hforward hc hd (hcd.sublist h hd))
  · rw [hsame, hlast, List.getLast?_map, Option.map_map]
    rfl
  · rw [hsame]
    exact hreplay

/-- An account, a purchase, and a sale that comes when the purchase is done. -/
def inTurn : List Action :=
  [.enter (.account ⟨"alice", "Alice", ""⟩), .call 0 0, .hear 0 (.clock ⟨0, ⟨0, 0⟩⟩), .call 0 0,
    .enter (.trade 0 "alice" ⟨.buy, "BTC", some (.ofUnits 1)⟩ false),
    .hear 1 (.price (.ok (.ofUnits 30000))), .hear 1 (.clock ⟨1, ⟨1, 0⟩⟩),
    .call 1 1, .call 1 1, .call 1 1, .call 1 1] ++
  [.enter (.trade 1 "alice" ⟨.sell, "BTC", some (.ofUnits 1)⟩ false),
    .hear 2 (.price (.ok (.ofUnits 40000))), .hear 2 (.clock ⟨2, ⟨2, 0⟩⟩),
    .call 2 2, .call 2 2, .call 2 2, .call 2 2]

/-- The purchase is over before the sale begins, so the log tells of both as they were committed. -/
theorem order_of_run_inTurn :
    ∃ f v u, (opened .standard).run? .standard inTurn = some f ∧ Forward inTurn ∧
      f.AtRest "alice" ∧ removals "alice" f.journal = 0 ∧
      f.books.store.user? "alice" = some v ∧ f.openings "alice" = [u] ∧
      (f.commits "alice").map (·.visitor) = [1, 2] ∧
      f.books.store.log "alice" = (f.commits "alice").map (·.trade) ∧
      (f.books.store.log "alice").map (·.timestamp) = [⟨1, 0⟩, ⟨2, 0⟩] ∧
      v.value.tradeStats.lastTrade = some ⟨2, 0⟩ ∧
      u.portfolio.replay (f.books.store.log "alice") = .ok v.value.portfolio := by
  obtain ⟨f, v, c, d, g, hrun, hv, hrest, hwhole, hcommits, hvisitors, htimes, hg, hc, hd⟩ :
      ∃ f v c d g, (opened .standard).run? .standard inTurn = some f ∧
        f.books.store.user? "alice" = some v ∧ f.AtRest "alice" ∧
        removals "alice" f.journal = 0 ∧ f.commits "alice" = [c, d] ∧
        (f.commits "alice").map (·.visitor) = [1, 2] ∧
        (f.books.store.log "alice").map (·.timestamp) = [⟨1, 0⟩, ⟨2, 0⟩] ∧
        (opened .standard).run? .standard (inTurn.take 11) = some g ∧
        c.signed ∈ loggings "alice" g.journal ∧
        d.visitor ∉ (readings (inTurn.take 11)).map (·.1) :=
    ⟨_, _, _, _, _, rfl, rfl, by decide +kernel, rfl, rfl, rfl, rfl, rfl,
      List.mem_singleton_self _, by decide +kernel⟩
  have hforward : Forward inTurn := by decide +kernel
  have hover : (f.commits "alice").Pairwise (OverBefore .standard inTurn "alice") := by
    rw [hcommits, List.pairwise_pair]
    exact ⟨_, g, List.take_prefix 11 _, hg, hc, hd⟩
  rcases order_of_run hrun hforward hrest hwhole with ⟨-, -, -, -, hdocument⟩
  rcases hdocument v hv with ⟨u, hopenings, -, -, -, horder⟩
  rcases horder hover with ⟨hlog, -, hlast, hreplay⟩
  refine ⟨f, v, u, hrun, hforward, hrest, hwhole, hv, hopenings, hvisitors, hlog, htimes, ?_,
    hreplay⟩
  rw [hlast, ← List.getLast?_map, htimes]
  rfl

/-- A purchase and a sale, of which the sale is committed after the purchase and logged before it.
The time of day goes on all the while. -/
def overtaken : List Action :=
  [.enter (.account ⟨"alice", "Alice", ""⟩), .call 0 0, .hear 0 (.clock ⟨0, ⟨0, 0⟩⟩), .call 0 0,
    .enter (.trade 0 "alice" ⟨.buy, "BTC", some (.ofUnits 1)⟩ false),
    .hear 1 (.price (.ok (.ofUnits 30000))), .hear 1 (.clock ⟨1, ⟨1, 0⟩⟩), .call 1 1, .call 1 1,
    .enter (.trade 1 "alice" ⟨.sell, "BTC", some (.ofUnits 1)⟩ false),
    .hear 2 (.price (.ok (.ofUnits 30000))), .hear 2 (.clock ⟨2, ⟨2, 0⟩⟩), .call 2 2, .call 2 2,
    .call 2 2, .call 2 2, .call 1 3, .call 1 3]

/-- The log then tells of the sale first: not in the order of the commits, with timestamps that go
back, and with the purchase as the newest entry although the sale was the last trade. There was
nothing to sell in the beginning, so the log cannot be replayed. -/
theorem log_not_in_order :
    ∃ f v u, (opened .standard).run? .standard overtaken = some f ∧ Forward overtaken ∧
      f.AtRest "alice" ∧ removals "alice" f.journal = 0 ∧
      f.books.store.user? "alice" = some v ∧ f.openings "alice" = [u] ∧
      f.books.store.log "alice" ≠ (f.commits "alice").map (·.trade) ∧
      ¬ (f.books.store.log "alice").Pairwise (fun r s => s.timestamp.before r.timestamp = false) ∧
      v.value.tradeStats.lastTrade ≠ (f.books.store.log "alice").getLast?.map (·.timestamp) ∧
      ∃ e, u.portfolio.replay (f.books.store.log "alice") = .error e :=
  ⟨_, _, _, rfl, by decide +kernel, by decide +kernel, rfl, rfl, rfl, by decide +kernel,
    by decide +kernel, by decide +kernel, _, rfl⟩

end Floor

end Bourse
