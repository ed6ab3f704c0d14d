import Bourse.Proofs.Floor.Logs

/-!
# The Histories That Are Read

What a reading of the trade history is told, whatever order the steps of any number of
readings and trades come in. It is the log of the user as it was at one moment, and
that moment is no earlier than the last time the cached history was made invalid
before the reading began.

A moment is a beginning of the journal, because what the journal says about the log of
a user says it of every beginning too. How late a moment is, as far as a user is
concerned, is how often the user's cached history had been made invalid by then. So a
list is as old as it may be if it was the log at a moment with enough invalidations,
which is `Journal.WasLog`, and that stays true whatever calls come later.

Three facts carry each other from step to step. A list that is kept was the log since
the last invalidation. A reading that has been told a generation cannot have been told
more invalidations than there were, so what it lists was the log since that many. And
what it saves is kept only if there have been no more of them by then.

## Main definitions

* `Journal.WasLog`: a list that was the log of a user late enough.
* `Journal.Settled`: an entry that was added before the last invalidations.
* `HistoryReading.Fills`, `HistoryReading.Since`: what is known of a reading.
* `Floor.Coherent`: what is known of the cached histories.
* `Floor.ListedAt`: a moment of a run at which a log is listed.
* `Floor.LogSince`: a list that was the log at such a moment.

## Theorems

* `coherent_of_move`, `coherent_of_run?`: what is known after every step and any run.
* `readsSince_of_run?`: what is known of a reading, from its first step to its last.
* `history_of_run`: what a reading of the history is told.
-/

namespace Bourse

/-! ## Moments of the journal -/

namespace Journal

/-- A list that was the log of a user, newest entry first, when it was listed by one of the calls,
and by then the cached history of the user had been made invalid at least so many times. -/
def WasLog (id : String) (times : Nat) (l : List TradeRecord) (journal : List Entry) : Prop :=
  ∃ calls e, calls ++ [e] <+: journal ∧ e.call = .listTrades id ∧
    times ≤ invalidations id calls ∧
    l = (((loggings id calls).map (·.2)).drop (removals id calls)).reverse

/-- An entry that had been added to the log of a user before the cached history was last made
invalid: it was there at every moment that is late enough. -/
def Settled (id : String) (entry : Nat × TradeRecord) (journal : List Entry) : Prop :=
  ∀ calls, calls <+: journal → invalidations id journal ≤ invalidations id calls →
    entry ∈ loggings id calls

variable {id : String} {calls journal : List Entry}

theorem invalidations_le_of_isPrefix (h : calls <+: journal) :
    invalidations id calls ≤ invalidations id journal :=
  h.sublist.countP_le

theorem mem_loggings_of_isPrefix {entry : Nat × TradeRecord} (h : calls <+: journal)
    (hentry : entry ∈ loggings id calls) : entry ∈ loggings id journal := by
  rcases h with ⟨later, rfl⟩
  rw [loggings_append]
  exact List.mem_append_left _ hentry

theorem WasLog.isPrefix {times : Nat} {l : List TradeRecord} (h : WasLog id times l calls)
    (hcalls : calls <+: journal) : WasLog id times l journal := by
  rcases h with ⟨first, e, hfirst, he, htimes, hl⟩
  exact ⟨first, e, hfirst.trans hcalls, he, htimes, hl⟩

theorem WasLog.of_le {times fewer : Nat} {l : List TradeRecord} (h : WasLog id times l journal)
    (hfewer : fewer ≤ times) : WasLog id fewer l journal := by
  rcases h with ⟨first, e, hfirst, he, htimes, hl⟩
  exact ⟨first, e, hfirst, he, hfewer.trans htimes, hl⟩

/-- A settled entry is in the log's past at every moment with as many invalidations, earlier or
later. -/
theorem Settled.mem_of_le {entry : Nat × TradeRecord} {past all : List Entry}
    (h : Settled id entry past) (hpast : past <+: all) (hcalls : calls <+: all)
    (hle : invalidations id past ≤ invalidations id calls) : entry ∈ loggings id calls := by
  rcases List.prefix_or_prefix_of_prefix hcalls hpast with hearlier | hlater
  · exact h calls hearlier hle
  · exact mem_loggings_of_isPrefix hlater (h past (List.prefix_refl _) le_rfl)

theorem Settled.isPrefix {entry : Nat × TradeRecord} (h : Settled id entry calls)
    (hcalls : calls <+: journal) : Settled id entry journal := by
  intro first hfirst hle
  exact h.mem_of_le hcalls hfirst ((invalidations_le_of_isPrefix hcalls).trans hle)

/-- What has been added is settled when the cached history is made invalid. -/
theorem settled_of_invalidation {entry : Nat × TradeRecord} {e : Entry}
    (hentry : entry ∈ loggings id journal) (he : e.call = .invalidateHistory id) :
    Settled id entry (journal ++ [e]) := by
  intro first hfirst hle
  rcases List.prefix_concat_iff.1 hfirst with rfl | hfirst
  · exact mem_loggings_of_isPrefix (List.prefix_append _ _) hentry
  · -- Before this call there were fewer.
    have hfewer : invalidations id first ≤ invalidations id journal :=
      invalidations_le_of_isPrefix hfirst
    rw [invalidations_append, invalidations_singleton, if_pos he] at hle
    omega

end Journal

open Journal

/-! ## Trades -/

/-- The log entry of a trade that has made the cached history invalid since it was written. -/
def Execution.settled? (x : Execution) : Option TradeRecord :=
  match x.phase with
  | .pruning o | .finished (.ok o) => some o.record
  | _ => none

theorem Execution.logged?_of_settled? {x : Execution} {r : TradeRecord}
    (h : x.settled? = some r) : x.logged? = some r := by
  unfold settled? at h
  unfold logged?
  split at h
  · next o ho =>
    rw [ho]
    exact h
  · next o ho =>
    rw [ho]
    exact h
  · exact absurd h (by simp only [reduceCtorEq, not_false_eq_true])

/-- An entry is settled by the call that makes the cached history invalid, and by no other. -/
theorem Execution.settled?_of_asks {x : Execution} {c : Call}
    {resume : Except StoreError c.Result → Execution} (h : x.Asks c resume)
    {answer : Except StoreError c.Result} {r : TradeRecord}
    (hr : (resume answer).settled? = some r) :
    x.settled? = some r ∨ (c = .invalidateHistory x.user ∧ x.logged? = some r) := by
  have hlogged := congrArg (r ∈ ·) (logged?_of_asks h answer)
  rw [logged?_of_settled? hr] at hlogged
  cases h with
  | document price m hphase | commit price m version u hphase =>
      -- Nothing has been written before the commit.
      have hnone : x.logged? = none := by rw [logged?, hphase]
      rw [hnone] at hlogged
      exact absurd (hlogged.mp (List.mem_singleton_self r)) List.not_mem_nil
  | log o hphase => exact absurd hr (by simp only [settled?, enter, reduceCtorEq, not_false_eq_true])
  | invalidate o hphase =>
      refine Or.inr ⟨rfl, ?_⟩
      have hsome : x.logged? = some o.record := by rw [logged?, hphase]
      rw [hsome] at hlogged ⊢
      rw [List.mem_singleton.1 (hlogged.mp (List.mem_singleton_self r))]
  | prune o hphase =>
      refine Or.inl ?_
      rw [settled?, hphase]
      exact hr

/-! ## Readings -/

namespace HistoryReading

/-- What a reading of the history saves was the log since the generation that it was told. -/
def Fills (journal : List Entry) : HistoryReading → Prop
  | listing user (some g) => g ≤ invalidations user journal
  | saving user g l => WasLog user g l journal
  | _ => True

/-- What a reading of the history of a user has read was the log of the user, not before the cached
history had been made invalid so many times. -/
def Since (user : String) (times : Nat) (journal : List Entry) : HistoryReading → Prop
  | looking u => u = user
  | listing u _ => u = user
  | saving u _ l => u = user ∧ WasLog user times l journal
  | finished r => ∃ l, r = .ok l ∧ WasLog user times l journal

theorem Fills.isPrefix {x : HistoryReading} {calls journal : List Entry} (h : x.Fills calls)
    (hcalls : calls <+: journal) : x.Fills journal := by
  cases x with
  | listing user generation =>
      cases generation with
      | some g => exact le_trans h (invalidations_le_of_isPrefix hcalls)
      | none => exact trivial
  | saving user g l => exact WasLog.isPrefix h hcalls
  | looking user | finished r => exact trivial

theorem Since.isPrefix {x : HistoryReading} {user : String} {times : Nat}
    {calls journal : List Entry} (h : x.Since user times calls) (hcalls : calls <+: journal) :
    x.Since user times journal := by
  cases x with
  | looking u => exact h
  | listing u g => exact h
  | saving u g l => exact ⟨h.1, h.2.isPrefix hcalls⟩
  | finished r =>
      rcases h with ⟨l, hr, hl⟩
      exact ⟨l, hr, hl.isPrefix hcalls⟩

end HistoryReading

/-! ## Visitors -/

/-- What is known of a visitor by its number: the entry of a trade is settled when the trade says
so, and a reading saves what was the log since the generation that it was told. -/
def Operation.Sound (n : Nat) (journal : List Entry) : Operation → Prop
  | execution x => ∀ r, x.settled? = some r → Settled x.user (n, r) journal
  | history x => x.Fills journal
  | _ => True

theorem Operation.Sound.isPrefix {n : Nat} {x : Operation} {calls journal : List Entry}
    (h : x.Sound n calls) (hcalls : calls <+: journal) : x.Sound n journal := by
  cases x with
  | execution w =>
      intro r hr
      exact (h r hr).isPrefix hcalls
  | history w => exact HistoryReading.Fills.isPrefix h hcalls
  | _ => exact trivial

theorem Operation.sound_of_apart {x : Operation} (h : x.isApart = true) (n : Nat)
    (journal : List Entry) : x.Sound n journal := by
  cases x with
  | execution w | history w => exact Bool.noConfusion h
  | _ => exact trivial

theorem Operation.sound_of_not_committed {x : Execution} (h : x.committed? = none) (n : Nat)
    (journal : List Entry) : (execution x).Sound n journal := by
  intro r hr
  have hlogged := Execution.logged?_of_settled? hr
  rw [Execution.logged?_of_not_committed h] at hlogged
  exact absurd hlogged (by simp only [reduceCtorEq, not_false_eq_true])

namespace Floor

variable {config : TradingConfig} {f f' : Floor} {id : String}

/-- A list that is kept was the log since the last time it was made invalid. -/
def Cached (f : Floor) (id : String) : Prop :=
  ∀ e, (f.books.histories.slot id).cached = some e →
    WasLog id (invalidations id f.journal) e.trades f.journal

/-- What is known of the cached histories, and of who reads and who makes them invalid. -/
structure Coherent (config : TradingConfig) (f : Floor) : Prop where
  booked : f.Booked config
  cached : ∀ id, f.Cached id
  sound : ∀ (n : Nat) (w : Visit), f.visits[n]? = some w → w.operation.Sound n f.journal

/-! ## Calls -/

theorem mem_loggings_of_logged (hf : f.Logged config id) {n : Nat} {r : TradeRecord}
    (h : r ∈ f.logged id n) : (n, r) ∈ loggings id f.journal := by
  rw [← hf.shares n] at h
  rcases List.mem_map.1 h with ⟨⟨m, r'⟩, hmem, rfl⟩
  rcases List.mem_filter.1 hmem with ⟨hmem, hm⟩
  rw [← of_decide_eq_true hm]
  exact hmem

/-- Who lists the log is told what the journal says of it. -/
theorem wasLog_of_trades (hf : f.Told id) {e : Entry} (he : e.call = .listTrades id) {times : Nat}
    (h : times ≤ invalidations id f.journal) :
    WasLog id times (f.books.store.trades id) (f.journal ++ [e]) := by
  refine ⟨f.journal, e, List.prefix_refl _, he, h, ?_⟩
  rw [← hf.log]
  rfl

/-- A list that is served was the log since the last time it was made invalid. -/
theorem wasLog_of_hit (hf : f.Coherent config) {now : Nat} {l : List TradeRecord}
    (h : (f.books.histories.get now id).1 = .hit l) :
    WasLog id (invalidations id f.journal) l f.journal := by
  rcases HistoryCache.cached_of_hit h with ⟨e, he, rfl⟩
  exact hf.cached id e he

/-- A reading that is told a generation is told how often the cached history was made invalid. -/
theorem fills_of_asks (hf : f.Coherent config) {x : HistoryReading} {c : Call}
    {resume : Except StoreError c.Result → HistoryReading} (h : x.Asks c resume)
    (hx : x.Fills f.journal) (now : Nat) {e : Entry} (he : e.call = c) :
    (resume (c.perform f.books now).1).Fills (f.journal ++ [e]) := by
  cases h with
  | lookUp user =>
      simp only [Call.perform]
      cases hget : (f.books.histories.get now user).1 with
      | hit l => exact trivial
      | miss g =>
          have hg := HistoryCache.generation_of_miss hget
          rw [(hf.booked.told user).generation] at hg
          exact hg.ge.trans (invalidations_le_of_isPrefix (List.prefix_append _ _))
  | list user generation =>
      cases generation with
      | none => exact trivial
      | some g => exact wasLog_of_trades (hf.booked.told user) he hx
  | save user g l => exact trivial

/-- What a reading is told was the log since any number of invalidations that there have been. -/
theorem since_of_asks (hf : f.Coherent config) {x : HistoryReading} {c : Call}
    {resume : Except StoreError c.Result → HistoryReading} (h : x.Asks c resume) {times : Nat}
    (htimes : times ≤ invalidations id f.journal) (hx : x.Since id times f.journal) (now : Nat)
    {e : Entry} (he : e.call = c) :
    (resume (c.perform f.books now).1).Since id times (f.journal ++ [e]) := by
  cases h with
  | lookUp user =>
      simp only [Call.perform]
      cases hget : (f.books.histories.get now user).1 with
      | hit l =>
          rw [hx] at hget
          have hlog := (wasLog_of_hit hf hget).of_le htimes
          exact ⟨l, rfl, hlog.isPrefix (List.prefix_append _ _)⟩
      | miss g => exact hx
  | list user generation =>
      have hlog : WasLog id times (f.books.store.trades user) (f.journal ++ [e]) := by
        rw [hx] at he ⊢
        exact wasLog_of_trades (hf.booked.told id) he htimes
      cases generation with
      | none => exact ⟨_, rfl, hlog⟩
      | some g => exact ⟨hx, hlog⟩
  | save user g l => exact ⟨l, rfl, hx.2.isPrefix (List.prefix_append _ _)⟩

/-- After a call the list that is kept was kept before, or it was saved by a reading that was told
of all invalidations there have been. -/
theorem cached_of_call (hf : f.Coherent config) {n now : Nat} {x : Operation} {c : Call}
    {d : Deadline Operation} {resume : Except StoreError c.Result → Operation}
    (hx : f.visits[n]? = some ⟨x, true⟩) (hnext : x.next = .calling c d resume) (id : String) :
    (f.called n now x c resume).Cached id := by
  intro e he
  have hcalls : f.journal <+: (f.called n now x c resume).journal := List.prefix_append _ _
  -- Either way this call makes nothing invalid.
  have hsame (hc : c ≠ .invalidateHistory id) :
      invalidations id (f.called n now x c resume).journal = invalidations id f.journal := by
    simp only [called, invalidations_append, invalidations_singleton, if_neg hc, Nat.add_zero]
  rcases Call.cached_perform he with ⟨hc, hkept⟩ | hsaved
  · rw [hsame hc]
    exact (hf.cached id e hkept).isPrefix hcalls
  · rw [hsame (by rw [hsaved]; simp only [ne_eq, reduceCtorEq, not_false_eq_true])]
    subst hsaved
    rcases Operation.cases_of_booking (hf.booked.upright n _ hx) hnext with
      ⟨w, k, -, hasks, -⟩ | ⟨w, k, rfl, hasks, -⟩ | ⟨-, hc, -⟩
    · cases hasks
    · cases hasks with
      | save user g l =>
          rw [← (hf.booked.told id).generation]
          exact WasLog.isPrefix (hf.sound n _ hx) hcalls
    · exact Bool.noConfusion hc

theorem sound_of_call (hf : f.Coherent config) {n now : Nat} {x : Operation} {c : Call}
    {d : Deadline Operation} {resume : Except StoreError c.Result → Operation}
    (hx : f.visits[n]? = some ⟨x, true⟩) (hnext : x.next = .calling c d resume) :
    (resume (c.perform f.books now).1).Sound n (f.called n now x c resume).journal := by
  have hcalls : f.journal <+: (f.called n now x c resume).journal := List.prefix_append _ _
  rcases Operation.cases_of_booking (hf.booked.upright n _ hx) hnext with
    ⟨w, k, rfl, hasks, hresume⟩ | ⟨w, k, rfl, hasks, hresume⟩ | ⟨-, -, hapart⟩
  · rw [hresume]
    intro r hr
    rw [(Execution.same_of_asks hasks _).user]
    rcases Execution.settled?_of_asks hasks hr with hbefore | ⟨hc, hlogged⟩
    · exact (hf.sound n _ hx r hbefore).isPrefix hcalls
    · refine settled_of_invalidation (mem_loggings_of_logged (hf.booked.logged w.user) ?_) hc
      simp only [logged, hx, Operation.logged, if_true, hlogged]
      exact List.mem_singleton_self r
  · rw [hresume]
    exact fills_of_asks hf hasks (hf.sound n _ hx) now rfl
  · exact Operation.sound_of_apart (hapart _) n _

/-! ## Steps and runs -/

/-- The visitors stay sound when one of them goes on soundly. -/
theorem sound_of_set (hf : f.Coherent config) {n : Nat} {v w : Visit}
    (hw : f.visits[n]? = some w) (hset : f'.visits = f.visits.set n v)
    (hcalls : f.journal <+: f'.journal) (hv : v.operation.Sound n f'.journal) (k : Nat) (u : Visit)
    (hu : f'.visits[k]? = some u) : u.operation.Sound k f'.journal := by
  rw [hset, getElem?_set_eq hw] at hu
  split_ifs at hu with hk
  · rw [← Option.some.inj hu, hk]
    exact hv
  · exact (hf.sound k u hu).isPrefix hcalls

theorem sound_of_enter (hf : f.Coherent config) (e : Errand) (k : Nat) (u : Visit)
    (hu : (f.visits ++ [⟨e.operation config, true⟩])[k]? = some u) :
    u.operation.Sound k f.journal := by
  rw [getElem?_concat_eq] at hu
  split_ifs at hu
  · rw [← Option.some.inj hu]
    cases e with
    | trade now user request prunes =>
        simp only [Errand.operation, Execution.start]
        split
        · exact Operation.sound_of_not_committed rfl k _
        · exact Operation.sound_of_not_committed rfl k _
    | _ => exact trivial
  · exact hf.sound k u hu

/-- No step breaks what is known of the cached histories. -/
theorem coherent_of_move {a : Action} (hf : f.Coherent config) (h : Move config f a f') :
    f'.Coherent config := by
  have hbooked := booked_of_move hf.booked h
  cases h with
  | enter e => exact ⟨hbooked, hf.cached, sound_of_enter hf e⟩
  | hear n news x y hx hy =>
      have hsound : y.Sound n f.journal := by
        rcases Operation.cases_of_hear? (hf.booked.upright n _ hx) hy with
          ⟨w, w', -, rfl, -, -, hnone⟩ | ⟨-, hapart⟩
        · exact Operation.sound_of_not_committed hnone n _
        · exact Operation.sound_of_apart hapart n _
      exact ⟨hbooked, hf.cached, sound_of_set hf hx rfl (List.prefix_refl _) hsound⟩
  | call n now x c d resume hx hnext =>
      refine ⟨hbooked, cached_of_call hf hx hnext, ?_⟩
      exact sound_of_set hf hx rfl (List.prefix_append _ _) (sound_of_call hf hx hnext)
  | leave n x hx =>
      have hsound : x.Sound n f.journal := hf.sound n _ hx
      exact ⟨hbooked, hf.cached, sound_of_set hf hx rfl (List.prefix_refl _) hsound⟩
  | sweep now =>
      refine ⟨hbooked, fun id e he => ?_, hf.sound⟩
      exact hf.cached id e ((f.books.histories.faded_purge now id).2 e he)

theorem coherent_opened (config : TradingConfig) : (opened config).Coherent config := by
  refine ⟨booked_opened config, fun id e he => ?_, fun n w hw => ?_⟩
  · exact absurd he (by simp only [opened, HistoryCache.slot, HistoryCache.empty, Table.get?_empty,
      Option.getD_none, reduceCtorEq, not_false_eq_true])
  · exact absurd hw (by simp only [opened, List.getElem?_nil, reduceCtorEq, not_false_eq_true])

theorem coherent_of_run? {actions : List Action}
    (h : (opened config).run? config actions = some f) : f.Coherent config :=
  run?_induction (fun f => f.Coherent config) (fun _ => True)
    (fun _ _ _ _ hg hmove => coherent_of_move hg hmove) (fun _ _ => trivial)
    (coherent_opened config) h

/-- A visitor that reads the history of a user, and has not read anything older than some number of
invalidations that there have been. -/
def ReadsSince (f : Floor) (n : Nat) (user : String) (times : Nat) : Prop :=
  times ≤ invalidations user f.journal ∧ ∃ (x : HistoryReading) (present : Bool),
    f.visits[n]? = some ⟨.history x, present⟩ ∧ x.Since user times f.journal

/-- It goes on so, whoever takes the next step. -/
theorem readsSince_of_move {a : Action} (hf : f.Coherent config) (h : Move config f a f') {n : Nat}
    {user : String} {times : Nat} (hreads : f.ReadsSince n user times) :
    f'.ReadsSince n user times := by
  rcases hreads with ⟨htimes, x, present, hx, hsince⟩
  cases h with
  | enter e =>
      refine ⟨htimes, x, present, ?_, hsince⟩
      have hlt := (List.getElem?_eq_some_iff.1 hx).1
      rw [getElem?_concat_eq, if_neg (by omega), hx]
  | hear m news y z hy hz =>
      refine ⟨htimes, x, present, ?_, hsince⟩
      -- A reading hears of nothing, so it is somebody else who does.
      have hne : n ≠ m := by
        rintro rfl
        rw [(visit_unique hx hy).1.symm] at hz
        rcases Operation.cases_of_hear? (hf.booked.upright n _ hx) hz with
          ⟨w, w', hw, -⟩ | ⟨hapart, -⟩
        · exact Operation.noConfusion hw
        · exact Bool.noConfusion hapart
      rw [goOn, getElem?_set_eq hy, if_neg hne, hx]
  | call m now y c d resume hy hnext =>
      have hcalls : f.journal <+: (f.called m now y c resume).journal := List.prefix_append _ _
      refine ⟨htimes.trans (invalidations_le_of_isPrefix hcalls), ?_⟩
      by_cases hn : n = m
      · subst hn
        rw [← (visit_unique hx hy).1] at hnext
        rcases Operation.cases_of_booking (hf.booked.upright n _ hx) hnext with
          ⟨w, k, hw, -⟩ | ⟨w, k, hw, hasks, hresume⟩ | ⟨hapart, -⟩
        · exact Operation.noConfusion hw
        · rw [← Operation.history.inj hw] at hasks
          refine ⟨k (c.perform f.books now).1, true, ?_, ?_⟩
          · rw [called, getElem?_set_visit hy, hresume]
          · exact since_of_asks hf hasks htimes hsince now rfl
        · exact Bool.noConfusion hapart
      · refine ⟨x, present, ?_, hsince.isPrefix hcalls⟩
        rw [called, getElem?_set_eq hy, if_neg hn, hx]
  | leave m y hy =>
      refine ⟨htimes, ?_⟩
      by_cases hn : n = m
      · subst hn
        rw [← (visit_unique hx hy).1]
        exact ⟨x, false, getElem?_set_visit hx _, hsince⟩
      · exact ⟨x, present, by rw [getElem?_set_eq hy, if_neg hn, hx], hsince⟩
  | sweep now => exact ⟨htimes, x, present, hx, hsince⟩

theorem readsSince_of_run? {actions : List Action} (hf : f.Coherent config) {n : Nat}
    {user : String} {times : Nat} (hreads : f.ReadsSince n user times)
    (h : f.run? config actions = some f') : f'.ReadsSince n user times :=
  (run?_induction (fun g => g.Coherent config ∧ g.ReadsSince n user times) (fun _ => True)
    (fun _ _ _ _ hg hmove =>
      ⟨coherent_of_move hg.1 hmove, readsSince_of_move hg.1 hmove hg.2⟩)
    (fun _ _ => trivial) ⟨hf, hreads⟩ h).2

/-! ## What is read -/

/-- A moment of a run at which a reading lists the log of a user. -/
def ListedAt (config : TradingConfig) (actions : List Action) (user : String) (g : Floor) : Prop :=
  ∃ past n now generation, past ++ [.call n now] <+: actions ∧
    (opened config).run? config past = some g ∧
    g.visits[n]? = some ⟨.history (.listing user generation), true⟩

/-- A list that was the log of a user, newest entry first, when a reading listed it, and that was
not before the last time that the cached history had been made invalid by another moment. Of every
trade that had made it so by then, the list has the entry unless that had been pruned. -/
def LogSince (config : TradingConfig) (actions : List Action) (f : Floor) (user : String)
    (l : List TradeRecord) : Prop :=
  ∃ g, ListedAt config actions user g ∧ l = g.books.store.trades user ∧
    invalidations user f.journal ≤ invalidations user g.journal ∧
    ∀ (n : Nat) (x : Execution) (present : Bool) (r : TradeRecord),
      f.visits[n]? = some ⟨.execution x, present⟩ → x.user = user → x.settled? = some r →
      r ∈ l ∨ (n, r) ∈ (loggings user g.journal).take (removals user g.journal)

/-- The log at a late moment of the journal was the log at a moment of the run. -/
theorem exists_listedAt {actions : List Action} (h : (opened config).run? config actions = some f)
    {user : String} {times : Nat} {l : List TradeRecord} (hlog : WasLog user times l f.journal) :
    ∃ g, ListedAt config actions user g ∧ g.journal <+: f.journal ∧
      l = g.books.store.trades user ∧ times ≤ invalidations user g.journal := by
  rcases hlog with ⟨calls, ⟨n, x, c, answer⟩, hcalls, rfl, htimes, rfl⟩
  rcases exists_moment h hcalls with ⟨past, now, g, d, resume, hpast, hg, rfl, hx, hnext⟩
  have hbooked := booked_of_run? hg
  refine ⟨g, ?_, (List.prefix_append _ _).trans hcalls, ?_, htimes⟩
  · rcases Operation.cases_of_booking (hbooked.upright n _ hx) hnext with
      ⟨w, k, -, hasks, -⟩ | ⟨w, k, rfl, hasks, -⟩ | ⟨-, hc, -⟩
    · cases hasks
    · cases hasks with
      | list user generation => exact ⟨past, n, now, generation, hpast, hg, hx⟩
    · exact Bool.noConfusion hc
  · rw [← (hbooked.told user).log]
    rfl

/-- What was the log late enough has every entry that was settled, but for those pruned. -/
theorem logSince_of_wasLog {before after : List Action} {s : Floor} {user : String}
    {l : List TradeRecord} (hs : (opened config).run? config before = some s)
    (hf : s.run? config after = some f)
    (h : WasLog user (invalidations user s.journal) l f.journal) :
    LogSince config (before ++ after) s user l := by
  have hrun : (opened config).run? config (before ++ after) = some f := by
    rw [run?_append, hs, Option.bind_some, hf]
  rcases exists_listedAt hrun h with ⟨g, hlisted, hcalls, rfl, htimes⟩
  refine ⟨g, hlisted, rfl, htimes, fun n x present r hx huser hr => ?_⟩
  have hsettled : Settled user (n, r) s.journal := by
    rw [← huser]
    exact (coherent_of_run? hs).sound n _ hx r hr
  have hmem := hsettled.mem_of_le (journal_isPrefix hf) hcalls htimes
  rw [← List.take_append_drop (removals user g.journal) (loggings user g.journal)] at hmem
  rcases List.mem_append.1 hmem with hpruned | hkept
  · exact Or.inr hpruned
  · left
    rcases hlisted with ⟨past, m, now, generation, -, hg, -⟩
    rw [Store.trades, List.mem_reverse, ((booked_of_run? hg).told user).log, ← List.map_drop]
    exact List.mem_map_of_mem hkept

/-- Any number of readings of trade histories and of trades, whose steps come in any order together
with sweeps of the cache, and of which any may be given up. What the cache serves at any moment, and
what a reading ends with, was the log of the user at some moment, and not before the last time the
cached history had been made invalid until then or until the reading looked into the cache. No
reading ends with an error, and none misses a trade that had been booked by then, unless it was
pruned. -/
theorem history_of_run {before after : List Action} {s : Floor}
    (hs : (opened config).run? config before = some s) (hf : s.run? config after = some f)
    (user : String) :
    (∀ now l, (s.books.histories.get now user).1 = .hit l → LogSince config before s user l) ∧
    (∀ (n : Nat) (present : Bool) (result : Except TradeError (List TradeRecord)),
      s.visits[n]? = some ⟨.history (.looking user), true⟩ →
      f.visits[n]? = some ⟨.history (.finished result), present⟩ →
      ∃ l, result = .ok l ∧ LogSince config (before ++ after) s user l) := by
  have hcoherent := coherent_of_run? hs
  refine ⟨fun now l hhit => ?_, fun n present result hlooking hfinished => ?_⟩
  · have hstill : s.run? config [] = some s := rfl
    have hlog := logSince_of_wasLog hs hstill (wasLog_of_hit hcoherent hhit)
    rw [List.append_nil] at hlog
    exact hlog
  · have hreads : s.ReadsSince n user (invalidations user s.journal) :=
      ⟨le_refl _, .looking user, true, hlooking, rfl⟩
    rcases (readsSince_of_run? hcoherent hreads hf).2 with ⟨x, present', hx, hsince⟩
    have heq := (visit_unique hfinished hx).1
    rw [← Operation.history.inj heq] at hsince
    rcases hsince with ⟨l, hresult, hlog⟩
    exact ⟨l, hresult, logSince_of_wasLog hs hf hlog⟩

/-- Alice buys while a reading of her history stands between the log and the cache; another reading
begins when she has bought. -/
def stalling : List Action :=
  [.enter (.account ⟨"alice", "Alice", ""⟩), .call 0 0, .hear 0 (.clock ⟨0, ⟨0, 0⟩⟩), .call 0 0,
    .enter (.history "alice"), .call 1 0, .call 1 0,
    .enter (.trade 0 "alice" ⟨.buy, "BTC", some (.ofUnits 2)⟩ true),
    .hear 2 (.price (.ok (.ofUnits 30000))), .hear 2 (.clock ⟨1, ⟨1, 0⟩⟩),
    .call 2 2, .call 2 2, .call 2 3, .call 2 3, .call 2 3, .enter (.history "alice")]

/-- The first reading saves what it read, and the second one reads. -/
def readingOn : List Action := [.call 1 4, .call 3 5, .call 3 5, .call 3 6]

/-- What the first reading saves is too old to be kept, and the second one is told of the trade, as
is everybody after it. -/
theorem history_of_run_stalling :
    ∃ s f l, (opened shortLogs).run? shortLogs stalling = some s ∧
      s.run? shortLogs readingOn = some f ∧
      s.visits[3]? = some ⟨.history (.looking "alice"), true⟩ ∧
      f.visits[1]? = some ⟨.history (.finished (.ok [])), true⟩ ∧
      f.visits[3]? = some ⟨.history (.finished (.ok l)), true⟩ ∧ l.length = 1 ∧
      (f.books.histories.get 7 "alice").1 = .hit l ∧
      LogSince shortLogs (stalling ++ readingOn) s "alice" l ∧
      LogSince shortLogs (stalling ++ readingOn) f "alice" l := by
  obtain ⟨s, f, l, hs, hf, hlooking, hstale, hfinished, hlength, hhit⟩ : ∃ s f l,
      (opened shortLogs).run? shortLogs stalling = some s ∧
        s.run? shortLogs readingOn = some f ∧
        s.visits[3]? = some ⟨.history (.looking "alice"), true⟩ ∧
        f.visits[1]? = some ⟨.history (.finished (.ok [])), true⟩ ∧
        f.visits[3]? = some ⟨.history (.finished (.ok l)), true⟩ ∧ l.length = 1 ∧
        (f.books.histories.get 7 "alice").1 = .hit l :=
    ⟨_, _, _, rfl, rfl, rfl, rfl, rfl, rfl, rfl⟩
  refine ⟨s, f, l, hs, hf, hlooking, hstale, hfinished, hlength, hhit, ?_, ?_⟩
  · rcases (history_of_run hs hf "alice").2 3 true (.ok l) hlooking hfinished with ⟨l', heq, hlog⟩
    rw [← Except.ok.inj heq] at hlog
    exact hlog
  · have hrun : (opened shortLogs).run? shortLogs (stalling ++ readingOn) = some f := by
      rw [run?_append, hs, Option.bind_some, hf]
    have hagain : f.run? shortLogs [] = some f := rfl
    exact (history_of_run hrun hagain "alice").1 7 l hhit

end Floor

end Bourse
