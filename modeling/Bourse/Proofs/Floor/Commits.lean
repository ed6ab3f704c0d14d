import Bourse.Proofs.Floor.Journal

/-!
# Every Document Is a Replay

Whatever order the steps of any number of visitors come in, a stored document is
the one that was created, with the trades committed to it replayed one after the
other. No update is lost and none is made twice, and a trade that conflicted, failed
or was given up before its commit has left no trace.

The invariant speaks about all documents at once. What it needs of the visitors is
only that a copy about to be stored comes from the version it says it comes from,
which `Floor.Upright` gives and `effect_of_move` has used up; so the steps do not
appear here any more.

## Main definitions

* `Floor.Descends`: a document that comes from a creation and the trades committed.
* `Floor.Kept`: what is known of the documents on the floor.

## Theorems

* `kept_of_effect`: no step breaks what is known.
* `kept_of_run?`: it is known after every run from the beginning.
* `portfolio_eq_replay`: portfolios, versions and counts after any run.
-/

namespace Bourse

namespace Floor

/-- A document that comes from the one created under its id by the trades committed to it since,
each of which made the next version. -/
structure Descends (config : TradingConfig) (f : Floor) (id : String) (v : Versioned User)
    (u : User) : Prop where
  account : ∃ x time, AccountOpening.IsOf config x ∧ u = x.account time
  openings : f.openings id = [u]
  key : u.id = id
  replay : u.replay ((f.commits id).map (·.trade)) = .ok v.value
  version : v.version = 1 + (f.commits id).length
  versions : (f.commits id).map (·.version) = List.range' 2 (f.commits id).length

/-- What is known of the documents on the floor: each of them descends from its creation, where
there is none nothing has happened, and the visitors agree with the journal on what they did. -/
structure Kept (config : TradingConfig) (f : Floor) : Prop where
  absent : ∀ id, f.books.store.user? id = none → f.openings id = [] ∧ f.commits id = []
  stored : ∀ id v, f.books.store.user? id = some v → ∃ u, f.Descends config id v u
  shares : ∀ id n, ((f.commits id).filter (fun c => c.visitor = n)).map (·.trade) = f.share id n

variable {config : TradingConfig} {f f' : Floor}

theorem kept_opened (config : TradingConfig) : (opened config).Kept config := by
  refine ⟨fun id _ => ⟨rfl, rfl⟩, fun id v hv => ?_, fun id n => rfl⟩
  exact absurd hv (by simp only [opened, Store.empty, Store.user?, Table.get?_empty, reduceCtorEq,
    not_false_eq_true])

/-- A document descends from what it did as long as the journal says the same about it. -/
theorem Descends.of_same {id : String} {v : Versioned User} {u : User}
    (h : f.Descends config id v u) (hcommits : f'.commits id = f.commits id)
    (hopenings : f'.openings id = f.openings id) : f'.Descends config id v u := by
  refine ⟨h.account, ?_, h.key, ?_, ?_, ?_⟩
  · rw [hopenings, h.openings]
  · rw [hcommits, h.replay]
  · rw [hcommits, h.version]
  · rw [hcommits, h.versions]

/-- A trade committed to a document is replayed last. -/
theorem Descends.commit {id : String} {v : Versioned User} {u u' : User} {n : Nat}
    {t : TradeRecord} (h : f.Descends config id v u) (htrade : v.value.trade t = .ok u')
    (hcommits : f'.commits id = f.commits id ++ [⟨n, v.version + 1, t⟩])
    (hopenings : f'.openings id = f.openings id) : f'.Descends config id ⟨v.version + 1, u'⟩ u := by
  have hlength : (f'.commits id).length = (f.commits id).length + 1 := by
    rw [hcommits, List.length_append, List.length_singleton]
  refine ⟨h.account, ?_, h.key, ?_, ?_, ?_⟩
  · rw [hopenings, h.openings]
  · rw [hcommits, List.map_append, List.map_singleton]
    -- The trade was made on the document as it was, that is, after all the others.
    exact User.replay_concat h.replay htrade
  · rw [hlength, ← Nat.add_assoc, ← h.version]
  · rw [hlength, hcommits, List.map_append, List.map_singleton, h.versions, h.version,
      List.range'_concat]
    simp only [Nat.one_mul, List.append_cancel_left_eq, List.cons.injEq, and_true]
    omega

/-- Where there is still no document, nothing has happened. -/
theorem absent_of_effect (hf : f.Kept config) (h : Effect config f f') (id : String)
    (hid : f'.books.store.user? id = none) : f'.openings id = [] ∧ f'.commits id = [] := by
  cases h with
  | none huser hcommits hopenings hshare =>
      rw [huser] at hid
      rw [hopenings, hcommits]
      exact hf.absent id hid
  | opening x time hof hfree huser hcommits hopenings hshare =>
      rw [huser] at hid
      split_ifs at hid with hx
      rw [hopenings, hcommits, if_neg (Ne.symm hx), List.append_nil]
      exact hf.absent id hid
  | commit n i w t u' hstored htrade huser hcommits hopenings hbefore hshare =>
      rw [huser] at hid
      split_ifs at hid with hi
      rw [hopenings, hcommits, if_neg (Ne.symm hi), List.append_nil]
      exact hf.absent id hid

/-- A document still descends from its creation, or descends from it now. -/
theorem descends_of_effect (hf : f.Kept config) (h : Effect config f f') (id : String)
    (v : Versioned User) (hv : f'.books.store.user? id = some v) :
    ∃ u, f'.Descends config id v u := by
  cases h with
  | none huser hcommits hopenings hshare =>
      rw [huser] at hv
      rcases hf.stored id v hv with ⟨u, hu⟩
      exact ⟨u, hu.of_same (hcommits id) (hopenings id)⟩
  | opening x time hof hfree huser hcommits hopenings hshare =>
      rw [huser] at hv
      split_ifs at hv with hx
      · -- Before its creation there was nothing to replay.
        subst hx
        rcases hf.absent _ hfree with ⟨hno, hnoCommits⟩
        rw [← Option.some.inj hv]
        refine ⟨x.account time, ⟨x, time, hof, rfl⟩, ?_, rfl, ?_, ?_, ?_⟩
        · rw [hopenings, hno, if_pos rfl, List.nil_append]
        · rw [hcommits, hnoCommits]
          rfl
        · rw [hcommits, hnoCommits]
          rfl
        · rw [hcommits, hnoCommits]
          rfl
      · rcases hf.stored id v hv with ⟨u, hu⟩
        refine ⟨u, hu.of_same (hcommits id) ?_⟩
        rw [hopenings, if_neg (Ne.symm hx), List.append_nil]
  | commit n i w t u' hstored htrade huser hcommits hopenings hbefore hshare =>
      rw [huser] at hv
      split_ifs at hv with hi
      · subst hi
        rcases hf.stored id w hstored with ⟨u, hu⟩
        rw [← Option.some.inj hv]
        refine ⟨u, hu.commit (n := n) (t := t) htrade ?_ (hopenings id)⟩
        rw [hcommits, if_pos rfl]
      · rcases hf.stored id v hv with ⟨u, hu⟩
        refine ⟨u, hu.of_same ?_ (hopenings id)⟩
        rw [hcommits, if_neg (Ne.symm hi), List.append_nil]

/-- The visitors still agree with the journal: whoever commits has committed nothing before, and
says so from now on. -/
theorem shares_of_effect (hf : f.Kept config) (h : Effect config f f') (id : String) (k : Nat) :
    ((f'.commits id).filter (fun c => c.visitor = k)).map (·.trade) = f'.share id k := by
  cases h with
  | none huser hcommits hopenings hshare =>
      rw [hcommits, hshare]
      exact hf.shares id k
  | opening x time hof hfree huser hcommits hopenings hshare =>
      rw [hcommits, hshare]
      exact hf.shares id k
  | commit n i w t u' hstored htrade huser hcommits hopenings hbefore hshare =>
      rw [hcommits, hshare, List.filter_append, List.map_append, hf.shares id k]
      by_cases hk : k = n
      · subst hk
        rw [if_pos rfl, hbefore, List.nil_append]
        split_ifs with hi
        · simp only [decide_true, List.filter_cons_of_pos, List.filter_nil, List.map_cons,
            List.map_nil]
        · rfl
      · -- The commit of another is left out of the count.
        rw [if_neg hk]
        split_ifs with hi
        · simp only [Ne.symm hk, decide_false, Bool.false_eq_true, not_false_eq_true,
            List.filter_cons_of_neg, List.filter_nil, List.map_nil, List.append_nil]
        · rw [List.filter_nil, List.map_nil, List.append_nil]

/-- No step breaks what is known. -/
theorem kept_of_effect (hf : f.Kept config) (h : Effect config f f') : f'.Kept config :=
  ⟨absent_of_effect hf h, descends_of_effect hf h, shares_of_effect hf h⟩

/-- Visitors are upright and documents descend from their creations, after any steps. -/
theorem kept_of_run? {actions : List Action}
    (h : (opened config).run? config actions = some f) : f.Upright config ∧ f.Kept config := by
  refine run?_induction (fun f => f.Upright config ∧ f.Kept config) (fun _ => True)
    (fun g a g' _ hg hmove => ?_) (fun _ _ => trivial)
    ⟨upright_opened config, kept_opened config⟩ h
  exact ⟨upright_of_move hg.1 hmove, kept_of_effect hg.2 (effect_of_move hg.1 hmove)⟩

/-- What somebody has committed for a user was committed by a trade of that user. -/
theorem exists_of_mem_share {id : String} {n : Nat} {t : TradeRecord} (h : t ∈ f.share id n) :
    ∃ x present, f.visits[n]? = some ⟨.execution x, present⟩ ∧ x.user = id ∧
      x.committed? = some t := by
  unfold share at h
  split at h
  · next w hw =>
    rcases w with ⟨op, present⟩
    cases op with
    | execution x =>
        simp only [Operation.committed] at h
        split_ifs at h with hx
        · exact ⟨x, present, hw, hx, Option.mem_toList.1 h⟩
        · exact absurd h List.not_mem_nil
    | _ => exact absurd h List.not_mem_nil
  · exact absurd h List.not_mem_nil

/-- Any number of trades, openings of accounts and readings, whose steps come in any order and of
which any may be given up: the portfolio of every document is the one it was created with after
the trades committed to it, in the order of the versions that they made; the version is one more
than their number, and the count is their number. A trade whose state does not say that it is
committed has committed nothing, and each of the others has committed just what it says. -/
theorem portfolio_eq_replay {actions : List Action}
    (h : (opened config).run? config actions = some f) :
    (∀ id v, f.books.store.user? id = some v →
      ∃ u, f.openings id = [u] ∧
        u.portfolio.replay ((f.commits id).map (·.trade)) = .ok v.value.portfolio ∧
        (f.commits id).map (·.version) = List.range' 2 (f.commits id).length ∧
        v.version = 1 + (f.commits id).length ∧
        v.value.tradeStats.count = (f.commits id).length) ∧
    (∀ n x present, f.visits[n]? = some ⟨.execution x, present⟩ → ∀ id,
      ((f.commits id).filter (fun c => c.visitor = n)).map (·.trade) =
        if x.user = id then x.committed?.toList else []) ∧
    ∀ id, ∀ c ∈ f.commits id, ∃ x present,
      f.visits[c.visitor]? = some ⟨.execution x, present⟩ ∧ x.user = id ∧
        x.committed? = some c.trade := by
  rcases kept_of_run? h with ⟨-, hkept⟩
  refine ⟨fun id v hv => ?_, fun n x present hx id => ?_, fun id c hc => ?_⟩
  · rcases hkept.stored id v hv with ⟨u, hu⟩
    have hreplay := User.isReplay_of_replay hu.replay
    refine ⟨u, hu.openings, hreplay.portfolio, hu.versions, hu.version, ?_⟩
    -- A document is created before its first trade.
    rcases hu.account with ⟨y, time, -, rfl⟩
    rw [hreplay.count, List.length_map]
    exact Nat.zero_add _
  · rw [hkept.shares id n, share, hx]
    rfl
  · have hmem : c.trade ∈ f.share id c.visitor := by
      rw [← hkept.shares id c.visitor]
      exact List.mem_map.2 ⟨c, List.mem_filter.2 ⟨hc, decide_eq_true rfl⟩, rfl⟩
    exact exists_of_mem_share hmem

/-- Two purchases that each cost more than half of the cash, of which both read the document before
either stores its copy. -/
def race : List Action :=
  [.enter (.account ⟨"alice", "Alice", ""⟩), .call 0 0, .hear 0 (.clock ⟨0, ⟨0, 0⟩⟩), .call 0 0,
    .enter (.trade 0 "alice" ⟨.buy, "BTC", some (.ofUnits 1)⟩ false),
    .enter (.trade 0 "alice" ⟨.buy, "BTC", some (.ofUnits 1)⟩ false),
    .hear 1 (.price (.ok (.ofUnits 60000))), .hear 2 (.price (.ok (.ofUnits 60000))),
    .hear 1 (.clock ⟨1, ⟨1, 0⟩⟩), .hear 2 (.clock ⟨1, ⟨1, 0⟩⟩),
    .call 1 1, .call 2 1, .call 2 2, .call 1 2]

/-- Of the two the one that stores first is replayed, and the other has left no trace. -/
theorem portfolio_eq_replay_race :
    ∃ f v u, (opened .standard).run? .standard race = some f ∧
      f.books.store.user? "alice" = some v ∧ f.openings "alice" = [u] ∧
      (f.commits "alice").map (·.visitor) = [2] ∧
      u.portfolio.replay ((f.commits "alice").map (·.trade)) = .ok v.value.portfolio ∧
      v.value.portfolio.cash = .ofUnits 40000 ∧ v.version = 2 ∧
      v.value.tradeStats.count = 1 ∧
      ((f.commits "alice").filter (fun c => c.visitor = 1)).map (·.trade) = [] := by
  obtain ⟨f, v, hrun, hv, hcash, hlength, hvisitors, x, hx, hnone⟩ : ∃ f v,
      (opened .standard).run? .standard race = some f ∧ f.books.store.user? "alice" = some v ∧
        v.value.portfolio.cash = .ofUnits 40000 ∧ (f.commits "alice").length = 1 ∧
        (f.commits "alice").map (·.visitor) = [2] ∧
        ∃ x, f.visits[1]? = some ⟨.execution x, true⟩ ∧ x.committed? = none :=
    ⟨_, _, rfl, rfl, by decide +kernel, rfl, rfl, _, rfl, rfl⟩
  rcases portfolio_eq_replay hrun with ⟨hdocuments, htrades, -⟩
  rcases hdocuments "alice" v hv with ⟨u, hopenings, hreplay, -, hversion, hcount⟩
  rw [hlength] at hversion hcount
  refine ⟨f, v, u, hrun, hv, hopenings, hvisitors, hreplay, hcash, hversion, hcount, ?_⟩
  rw [htrades 1 x true hx "alice", hnone]
  exact ite_self []

end Floor

end Bourse
