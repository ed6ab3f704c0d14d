import Bourse.Proofs.Floor.Histories

/-!
# Cached Histories at Rest

What the cache serves for a user when no trade of the user is under way, next to what
the log holds by then. A trade changes the log twice, when its entry is written and
when the log is pruned, and makes the cached history invalid once, in between. So a
list that is read and saved between the invalidation and the pruning stays in the
cache, and has entries that the log has no more: `hit_ne_trades_straggling`.

That is all that can go wrong. A list that is served was read since the last
invalidation, and at rest every entry was written before one; so the list has every
entry that the log has. What else it has are the entries pruned since it was read, at
its old end, and each of them was pruned by a trade that stood at its pruning then.

## Main definitions

* `Visit.isPruning`, `Floor.Pruning`: a trade is about to prune the log of a user.
* `Visit.isOver`: a visitor has come to the end.

## Theorems

* `loggings_eq_of_atRest`: at rest nothing was written since the last invalidation.
* `removals_eq_of_not_pruning`: nobody prunes before another invalidation but who was about to.
* `hit_of_atRest`: what the cache serves at rest.
-/

namespace Bourse

namespace Execution

/-- Whether a trade is about to prune the log. -/
def isPruning (x : Execution) : Bool :=
  match x.phase with
  | .pruning _ => true
  | _ => false

/-- A trade removes entries from the log of its own user, by its pruning. -/
theorem isPruning_of_removed {x : Execution} {c : Call}
    {resume : Except StoreError c.Result → Execution} (h : x.Asks c resume) {id : String}
    {answer : Except StoreError c.Result} (hne : c.removed id answer ≠ 0) :
    x.user = id ∧ x.isPruning = true := by
  cases h with
  | prune o hphase =>
      refine ⟨?_, by rw [isPruning, hphase]⟩
      by_contra hid
      refine hne ?_
      cases answer with
      | ok k => exact if_neg hid
      | error e => rfl
  | _ => exact absurd rfl hne

theorem isPruning_of_not_logged {x : Execution} (h : x.logged? = none) : x.isPruning = false := by
  unfold isPruning
  split
  · next o ho =>
    rw [logged?, ho] at h
    exact absurd h (by simp only [reduceCtorEq, not_false_eq_true])
  · rfl

/-- A trade comes to its pruning by making the cached history invalid. -/
theorem invalidates_of_isPruning {x : Execution} {c : Call}
    {resume : Except StoreError c.Result → Execution} (h : x.Asks c resume)
    {answer : Except StoreError c.Result} (hpruning : (resume answer).isPruning = true) :
    c = .invalidateHistory x.user := by
  have hlogged := logged?_of_asks h answer
  cases h with
  | document price m hphase | commit price m version u hphase =>
      have hnone : x.logged? = none := by rw [logged?, hphase]
      rw [hnone] at hlogged
      rw [isPruning_of_not_logged (Option.toList_eq_nil_iff.1 hlogged)] at hpruning
      exact absurd hpruning Bool.false_ne_true
  | invalidate o hphase => rfl
  | log o hphase | prune o hphase => exact absurd hpruning Bool.false_ne_true

/-- A trade that is over has settled what it has written. -/
theorem settled?_of_isOver {x : Execution} (h : x.isOver = true) : x.settled? = x.logged? := by
  unfold isOver at h
  split at h
  · next result hresult =>
    rw [settled?, logged?, hresult]
    cases result with
    | ok o => rfl
    | error e => rfl
  · exact absurd h Bool.false_ne_true

end Execution

/-- Whether a visitor is a trade of a user that is about to prune the log. -/
def Visit.isPruning (id : String) : Visit → Bool
  | ⟨.execution x, present⟩ => present && decide (x.user = id) && x.isPruning
  | _ => false

/-- Whether a visitor has come to the end of its operation. -/
def Visit.isOver (w : Visit) : Bool :=
  match w.operation.next with
  | .finished _ => true
  | _ => false

theorem Operation.length_logged_le (id : String) (x : Operation) : (x.logged id).length ≤ 1 := by
  cases x with
  | execution w =>
      simp only [logged]
      split
      · cases w.logged? with
        | none => exact Nat.zero_le _
        | some r => exact le_refl _
      · exact Nat.zero_le _
  | _ => exact Nat.zero_le _

namespace Floor

open Journal

variable {config : TradingConfig} {f f' : Floor} {id : String}

/-- Some trade of a user is about to prune the log. -/
def Pruning (f : Floor) (id : String) : Prop :=
  ∃ w ∈ f.visits, w.isPruning id = true

/-! ## Nothing was written -/

theorem length_logged_le (f : Floor) (id : String) (n : Nat) : (f.logged id n).length ≤ 1 := by
  unfold Floor.logged
  split
  · next w _ => exact w.operation.length_logged_le id
  · exact Nat.zero_le _

/-- At rest every entry was written before the cached history was made invalid once more. -/
theorem settled_of_atRest (hf : f.Coherent config) (hrest : f.AtRest id) {n : Nat}
    {r : TradeRecord} (h : r ∈ f.logged id n) : Settled id (n, r) f.journal := by
  unfold Floor.logged at h
  split at h
  · next w hw =>
    rcases w with ⟨x, present⟩
    cases x with
    | execution x =>
        simp only [Operation.logged] at h
        split at h
        · next hx =>
          have hlogged := Option.mem_toList.1 h
          have hcommitted : x.committed? ≠ none := by
            intro hnone
            rw [Execution.logged?_of_not_committed hnone] at hlogged
            exact absurd hlogged (by simp only [reduceCtorEq, not_false_eq_true])
          have hover : x.isOver = true := by
            have hrests := hrest _ (List.mem_of_getElem? hw)
            simp only [Visit.rests, hx, ne_eq, not_true_eq_false, decide_false, Bool.false_or,
              Bool.or_eq_true, Bool.and_eq_true, Option.isNone_iff_eq_none, hcommitted, and_false,
              or_false] at hrests
            exact hrests
          rw [← hx]
          refine hf.sound n _ hw r ?_
          rw [Execution.settled?_of_isOver hover]
          exact hlogged
        · exact absurd h List.not_mem_nil
    | _ => exact absurd h List.not_mem_nil
  · exact absurd h List.not_mem_nil

/-- At rest nothing was written to the log since the cached history was last made invalid. -/
theorem loggings_eq_of_atRest (hf : f.Coherent config) (hrest : f.AtRest id) {calls : List Entry}
    (hcalls : calls <+: f.journal) (hle : invalidations id f.journal ≤ invalidations id calls) :
    loggings id f.journal = loggings id calls := by
  rcases hcalls with ⟨later, hlater⟩
  have hall : loggings id f.journal = loggings id calls ++ loggings id later := by
    rw [← hlater, loggings_append]
  cases hnew : loggings id later with
  | nil => rw [hall, hnew, List.append_nil]
  | cons entry rest =>
      -- An entry written since would be there before as well, and nobody writes two.
      rcases entry with ⟨n, r⟩
      have hwritten : (n, r) ∈ loggings id later := by
        rw [hnew]
        exact List.mem_cons_self
      have hshares := (hf.booked.logged id).shares n
      rw [hall, List.filter_append, List.map_append] at hshares
      have hmine (l : List (Nat × TradeRecord)) (h : (n, r) ∈ l) :
          1 ≤ ((l.filter (fun e => e.1 = n)).map (·.2)).length := by
        rw [List.length_map]
        exact List.length_pos_of_mem (List.mem_filter.2 ⟨h, decide_eq_true rfl⟩)
      have hlogged : r ∈ f.logged id n := by
        rw [← hshares]
        refine List.mem_append_right _ (List.mem_map.2 ⟨(n, r), ?_, rfl⟩)
        exact List.mem_filter.2 ⟨hwritten, decide_eq_true rfl⟩
      have hearlier := settled_of_atRest hf hrest hlogged calls ⟨later, hlater⟩ hle
      have hlength := congrArg List.length hshares
      rw [List.length_append] at hlength
      have := hmine _ hwritten
      have := hmine _ hearlier
      have := f.length_logged_le id n
      omega

/-! ## Nothing was pruned -/

theorem not_pruning_of_set (hf : ¬ f.Pruning id) {n : Nat} {v : Visit}
    (hset : f'.visits = f.visits.set n v) (hv : v.isPruning id = false) : ¬ f'.Pruning id := by
  rintro ⟨u, hu, hpruning⟩
  rw [hset] at hu
  rcases List.mem_or_eq_of_mem_set hu with hold | rfl
  · exact hf ⟨u, hold, hpruning⟩
  · rw [hv] at hpruning
    exact absurd hpruning Bool.false_ne_true

theorem isPruning_of_apart {x : Operation} (h : x.isApart = true) (present : Bool) :
    Visit.isPruning id ⟨x, present⟩ = false := by
  cases x with
  | execution w => exact Bool.noConfusion h
  | _ => rfl

theorem isPruning_of_not_committed {x : Execution} (h : x.committed? = none) (present : Bool) :
    Visit.isPruning id ⟨.execution x, present⟩ = false := by
  have hpruning := Execution.isPruning_of_not_logged (Execution.logged?_of_not_committed h)
  simp only [Visit.isPruning, hpruning, Bool.and_false]

theorem isPruning_of_errand (e : Errand) :
    Visit.isPruning id ⟨e.operation config, true⟩ = false := by
  cases e with
  | trade now user request prunes =>
      simp only [Errand.operation, Execution.start]
      split
      · exact isPruning_of_not_committed rfl true
      · exact isPruning_of_not_committed rfl true
  | _ => rfl

/-- A call removes nothing from the log if nobody is about to prune it, and brings nobody to it
without making the cached history invalid. -/
theorem removed_of_not_pruning (hf : f.Booked config) (hnot : ¬ f.Pruning id) {n : Nat}
    {x : Operation} {c : Call} {d : Deadline Operation}
    {resume : Except StoreError c.Result → Operation} (hx : f.visits[n]? = some ⟨x, true⟩)
    (hnext : x.next = .calling c d resume) (answer : Except StoreError c.Result) :
    c.removed id answer = 0 ∧
      (c = .invalidateHistory id ∨ Visit.isPruning id ⟨resume answer, true⟩ = false) := by
  rcases Operation.cases_of_booking (hf.upright n _ hx) hnext with
    ⟨w, k, rfl, hasks, hresume⟩ | ⟨w, k, rfl, hasks, hresume⟩ | ⟨-, hc, hapart⟩
  · refine ⟨?_, ?_⟩
    · by_contra hne
      rcases Execution.isPruning_of_removed hasks hne with ⟨hid, hpruning⟩
      refine hnot ⟨_, List.mem_of_getElem? hx, ?_⟩
      simp only [Visit.isPruning, hid, hpruning, decide_true, Bool.and_self]
    · rw [hresume]
      cases hpruning : Visit.isPruning id ⟨.execution (k answer), true⟩ with
      | false => exact Or.inr rfl
      | true =>
          simp only [Visit.isPruning, Bool.true_and, Bool.and_eq_true,
            decide_eq_true_eq] at hpruning
          rw [(Execution.same_of_asks hasks _).user] at hpruning
          left
          rw [← hpruning.1]
          exact Execution.invalidates_of_isPruning hasks hpruning.2
  · rw [hresume]
    cases hasks with
    | _ => exact ⟨rfl, Or.inr rfl⟩
  · exact ⟨Call.removed_of_not_booking hc id _, Or.inr (isPruning_of_apart (hapart _) true)⟩

/-- Nobody prunes a log before the cached history is made invalid once more, if nobody was about
to. -/
theorem not_pruning_of_move {a : Action} (hf : f.Booked config) (h : Move config f a f')
    (hnot : ¬ f.Pruning id) :
    invalidations id f.journal < invalidations id f'.journal ∨
      (removals id f'.journal = removals id f.journal ∧ ¬ f'.Pruning id) := by
  cases h with
  | enter e =>
      refine Or.inr ⟨rfl, ?_⟩
      rintro ⟨u, hu, hpruning⟩
      rcases List.mem_append.1 hu with hold | hnew
      · exact hnot ⟨u, hold, hpruning⟩
      · rw [List.mem_singleton.1 hnew, isPruning_of_errand] at hpruning
        exact absurd hpruning Bool.false_ne_true
  | hear n news x y hx hy =>
      refine Or.inr ⟨rfl, not_pruning_of_set hnot rfl ?_⟩
      rcases Operation.cases_of_hear? (hf.upright n _ hx) hy with
        ⟨w, w', -, rfl, -, -, hnone⟩ | ⟨-, hapart⟩
      · exact isPruning_of_not_committed hnone true
      · exact isPruning_of_apart hapart true
  | call n now x c d resume hx hnext =>
      rcases removed_of_not_pruning hf hnot hx hnext (c.perform f.books now).1 with
        ⟨hremoved, hc | hpruning⟩
      · left
        simp only [called, invalidations_append, invalidations_singleton, if_pos hc]
        omega
      · refine Or.inr ⟨?_, not_pruning_of_set hnot rfl hpruning⟩
        simp only [called, removals_append, removals_singleton, hremoved, Nat.add_zero]
  | leave n x hx =>
      refine Or.inr ⟨rfl, not_pruning_of_set hnot rfl ?_⟩
      cases x with
      | execution w => simp only [Visit.isPruning, Bool.false_and]
      | _ => rfl
  | sweep now => exact Or.inr ⟨rfl, hnot⟩

/-- From a moment when nobody is about to prune the log, nothing is removed from it until the cached
history is made invalid once more. -/
theorem removals_eq_of_not_pruning {actions : List Action} (hf : f.Booked config)
    (hnot : ¬ f.Pruning id) (h : f.run? config actions = some f')
    (hle : invalidations id f'.journal ≤ invalidations id f.journal) :
    removals id f'.journal = removals id f.journal := by
  -- On the actions: the first step makes nothing invalid, for nothing is unmade later.
  induction actions generalizing f with
  | nil => rw [Option.some.inj h]
  | cons a rest ih =>
      rw [run?] at h
      split at h
      · next g hg =>
        have hmove := step?_eq_some hg
        have hgrows : invalidations id g.journal ≤ invalidations id f'.journal :=
          invalidations_le_of_isPrefix (journal_isPrefix h)
        rcases not_pruning_of_move hf hmove hnot with hmore | ⟨hremovals, hnot'⟩
        · omega
        · have hfirst : invalidations id f.journal ≤ invalidations id g.journal := by
            rcases journal_of_move hmove with heq | ⟨e, heq⟩
            · rw [heq]
            · rw [heq]
              exact invalidations_le_of_isPrefix (List.prefix_append _ _)
          rw [ih (booked_of_move hf hmove) hnot' h (hle.trans hfirst), hremovals]
      · exact absurd h (by simp only [reduceCtorEq, not_false_eq_true])

/-! ## At rest -/

/-- Any number of readings of trade histories and of trades, whose steps come in any order together
with sweeps of the cache, and of which any may be given up. When no trade of a user is under way and
none was given up after its commit, a list that the cache serves for the user is what the log held
when a reading listed it, since the last time that the cached history was made invalid. It begins
with the whole log, newest entry first, and what follows are the entries pruned since it was read.
There are none if no trade of the user was about to prune the log when it was read. -/
theorem hit_of_atRest {actions : List Action} (h : (opened config).run? config actions = some f)
    {user : String} (hrest : f.AtRest user) {now : Nat} {l : List TradeRecord}
    (hhit : (f.books.histories.get now user).1 = .hit l) :
    ∃ g, ListedAt config actions user g ∧ l = g.books.store.trades user ∧
      invalidations user g.journal = invalidations user f.journal ∧
      l = f.books.store.trades user ++ ((g.books.store.log user).take
        (removals user f.journal - removals user g.journal)).reverse ∧
      (¬ g.Pruning user → l = f.books.store.trades user) := by
  have hcoherent := coherent_of_run? h
  rcases exists_listedAt h (wasLog_of_hit hcoherent hhit) with ⟨g, hlisted, hcalls, rfl, hle⟩
  rcases hlisted with ⟨past, n, now', generation, hpast, hg, hlisting⟩
  have hbooked := booked_of_run? hg
  have hsame := loggings_eq_of_atRest hcoherent hrest hcalls hle
  have hlog := (hcoherent.booked.told user).log
  have hlog' := (hbooked.told user).log
  refine ⟨g, ⟨past, n, now', generation, hpast, hg, hlisting⟩, rfl,
    le_antisymm (invalidations_le_of_isPrefix hcalls) hle, ?_, fun hnot => ?_⟩
  · -- The log has lost what was removed since, from its old end.
    have hremovals : removals user g.journal ≤ removals user f.journal := by
      rcases hcalls with ⟨later, hlater⟩
      rw [← hlater, removals_append]
      exact Nat.le_add_right _ _
    have hdropped : f.books.store.log user = (g.books.store.log user).drop
        (removals user f.journal - removals user g.journal) := by
      rw [hlog, hlog', hsame, List.drop_drop, Nat.add_sub_cancel' hremovals]
    rw [Store.trades, Store.trades, hdropped, ← List.reverse_append, List.take_append_drop]
  · rcases (List.prefix_append past _).trans hpast with ⟨rest, hactions⟩
    rw [← hactions, run?_append, hg, Option.bind_some] at h
    rw [Store.trades, Store.trades, hlog, hlog', hsame,
      removals_eq_of_not_pruning hbooked hnot h hle]

/-- A purchase, and a sale that prunes its log only after a reading has listed and saved it. -/
def straggling : List Action :=
  [.enter (.account ⟨"alice", "Alice", ""⟩), .call 0 0, .hear 0 (.clock ⟨0, ⟨0, 0⟩⟩), .call 0 0,
    .call 0 0,
    .enter (.trade 0 "alice" ⟨.buy, "BTC", some (.ofUnits 2)⟩ true),
    .hear 1 (.price (.ok (.ofUnits 30000))), .hear 1 (.clock ⟨1, ⟨1, 0⟩⟩),
    .call 1 2, .call 1 2, .call 1 3, .call 1 3, .call 1 3,
    .enter (.trade 3 "alice" ⟨.sell, "BTC", some (.ofUnits 1)⟩ true),
    .hear 2 (.price (.ok (.ofUnits 40000))), .hear 2 (.clock ⟨4, ⟨4, 0⟩⟩),
    .call 2 5, .call 2 5, .call 2 6, .call 2 6,
    .enter (.history "alice"), .call 3 7, .call 3 7, .call 3 7, .call 2 8]

/-- Everybody has come to the end, and the cache serves two entries where the log holds one. -/
theorem hit_ne_trades_straggling :
    ∃ f l, (opened shortLogs).run? shortLogs straggling = some f ∧
      (∀ w ∈ f.visits, w.present = true ∧ w.isOver = true) ∧
      (f.books.histories.get 9 "alice").1 = .hit l ∧ l.length = 2 ∧
      (f.books.store.trades "alice").length = 1 ∧ l ≠ f.books.store.trades "alice" := by
  obtain ⟨f, l, hrun, hover, hhit, hlength, htrades⟩ : ∃ f l,
      (opened shortLogs).run? shortLogs straggling = some f ∧
        (∀ w ∈ f.visits, w.present = true ∧ w.isOver = true) ∧
        (f.books.histories.get 9 "alice").1 = .hit l ∧ l.length = 2 ∧
        (f.books.store.trades "alice").length = 1 :=
    ⟨_, _, rfl, by decide +kernel, rfl, rfl, rfl⟩
  refine ⟨f, l, hrun, hover, hhit, hlength, htrades, fun heq => ?_⟩
  rw [← heq, hlength] at htrades
  exact absurd htrades (by decide)

/-- The second entry is the one that the sale has pruned since, and the sale was about to. -/
theorem hit_of_atRest_straggling :
    ∃ f g l r, (opened shortLogs).run? shortLogs straggling = some f ∧ f.AtRest "alice" ∧
      (f.books.histories.get 9 "alice").1 = .hit l ∧
      ListedAt shortLogs straggling "alice" g ∧ l = g.books.store.trades "alice" ∧
      l = f.books.store.trades "alice" ++ [r] ∧ g.Pruning "alice" := by
  obtain ⟨f, l, hrun, hrest, hhit, hlength, htrades⟩ : ∃ f l,
      (opened shortLogs).run? shortLogs straggling = some f ∧ f.AtRest "alice" ∧
        (f.books.histories.get 9 "alice").1 = .hit l ∧ l.length = 2 ∧
        (f.books.store.trades "alice").length = 1 :=
    ⟨_, _, rfl, by decide +kernel, rfl, rfl, rfl⟩
  rcases hit_of_atRest hrun hrest hhit with ⟨g, hlisted, hl, -, hextra, hnone⟩
  obtain ⟨r, hr⟩ : ∃ r, ((g.books.store.log "alice").take
      (removals "alice" f.journal - removals "alice" g.journal)).reverse = [r] := by
    have hsplit := congrArg List.length hextra
    rw [List.length_append, hlength, htrades] at hsplit
    exact List.length_eq_one_iff.1 (by omega)
  rw [hr] at hextra
  refine ⟨f, g, l, r, hrun, hrest, hhit, hlisted, hl, hextra, ?_⟩
  by_contra hnot
  rw [← hnone hnot, hlength] at htrades
  exact absurd htrades (by decide)

end Floor

end Bourse
