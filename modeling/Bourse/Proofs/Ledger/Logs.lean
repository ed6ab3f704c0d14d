import Bourse.Ledger.Books
import Bourse.Proofs.Table

/-!
# What Calls Do to Logs and Cached Histories

Beside the documents the calls write two more kinds of data, the trade logs and the
cached histories in front of them. For one user at a time, what a call does to either
can be read off the call and its answer: a log gains what is appended at its new end
and loses what is pruned at its old end, and of a cached history all that counts is
how often it was made invalid and which list, if any, is kept.

A slot that is not there says no more than generation zero without a list, so slots
are looked at through `HistoryCache.slot` only. Then sweeping out a slot that says
nothing is no change at all, and lists that expire are lists that fade: `Faded` is
what looking up and sweeping do to a cache.

## Main definitions

* `HistoryCache.slot`: what is kept for a user.
* `HistoryCache.Faded`: a cache in which some lists have been dropped.
* `Call.isBooking`: the calls about logs and cached histories.
* `Call.appended`, `Call.removed`: what a call and its answer say about a log.

## Theorems

* `log_perform`: the log of a user after any call.
* `generation_perform`: the generation of a user after any call.
* `cached_perform`: where a list in the cache can come from.
-/

namespace Bourse

namespace Store

theorem log_insert (s : Store) (id j : String) (l : List TradeRecord) :
    ({ s with logs := s.logs.insert id l } : Store).log j = if j = id then l else s.log j := by
  unfold log
  simp only [Table.get?_insert_eq]
  split
  · rfl
  · rfl

theorem log_appendTrade (s : Store) (id j : String) (r : TradeRecord) :
    (s.appendTrade id r).log j = s.log j ++ if id = j then [r] else [] := by
  rw [appendTrade, log_insert]
  by_cases h : j = id
  · rw [if_pos h, if_pos h.symm, h]
  · rw [if_neg h, if_neg (Ne.symm h), List.append_nil]

/-- As many entries are removed as there are too many. -/
theorem pruneTrades_fst (s : Store) (id : String) (keep : Nat) :
    (s.pruneTrades id keep).1 = (s.log id).length - keep := by
  unfold pruneTrades log
  cases s.logs.get? id with
  | none => exact (Nat.zero_sub keep).symm
  | some l => rfl

/-- The entries removed are the oldest. -/
theorem log_pruneTrades (s : Store) (id j : String) (keep : Nat) :
    (s.pruneTrades id keep).2.log j =
      (s.log j).drop (if id = j then (s.pruneTrades id keep).1 else 0) := by
  rw [pruneTrades_fst]
  unfold pruneTrades
  cases h : s.logs.get? id with
  | none =>
      -- There is no log, which is no entry too many.
      have hnil : s.log id = [] := by rw [log, h, Option.getD_none]
      rw [hnil, List.length_nil, Nat.zero_sub, ite_self, List.drop_zero]
  | some l =>
      have hlog : s.log id = l := by rw [log, h, Option.getD_some]
      simp only [log_insert]
      by_cases hj : j = id
      · rw [if_pos hj, if_pos hj.symm, hj, hlog]
      · rw [if_neg hj, if_neg (Ne.symm hj), List.drop_zero]

end Store

namespace HistoryCache

/-- What is kept for a user; nothing kept is generation zero without a list. -/
def slot (c : HistoryCache) (user : String) : HistorySlot :=
  (c.slots.get? user).getD ⟨0, none⟩

theorem slot_insert (c : HistoryCache) (user j : String) (s : HistorySlot) :
    ({ c with slots := c.slots.insert user s } : HistoryCache).slot j =
      if j = user then s else c.slot j := by
  unfold slot
  simp only [Table.get?_insert_eq]
  split
  · rfl
  · rfl

/-- A list that is served is the one that is kept. -/
theorem cached_of_hit {c : HistoryCache} {now : Nat} {user : String} {l : List TradeRecord}
    (h : (c.get now user).1 = .hit l) : ∃ e, (c.slot user).cached = some e ∧ e.trades = l := by
  unfold get at h
  split at h
  · exact absurd h (by simp only [reduceCtorEq, not_false_eq_true])
  · next s hs =>
    split at h
    · exact absurd h (by simp only [reduceCtorEq, not_false_eq_true])
    · next e he =>
      split at h
      · refine ⟨e, ?_, HistoryLookup.hit.inj h⟩
        rw [slot, hs, Option.getD_some, he]
      · exact absurd h (by simp only [reduceCtorEq, not_false_eq_true])

/-- Who finds nothing is told the generation. -/
theorem generation_of_miss {c : HistoryCache} {now : Nat} {user : String} {g : Nat}
    (h : (c.get now user).1 = .miss g) : (c.slot user).generation = g := by
  unfold get at h
  split at h
  · next hs =>
    rw [slot, hs]
    exact HistoryLookup.miss.inj h
  · next s hs =>
    rw [slot, hs, Option.getD_some]
    split at h
    · exact HistoryLookup.miss.inj h
    · split at h
      · exact absurd h (by simp only [reduceCtorEq, not_false_eq_true])
      · exact HistoryLookup.miss.inj h

/-- A cache that has been left with some lists fewer, or with none fewer, and with the same
generations. -/
def Faded (c c' : HistoryCache) : Prop :=
  ∀ user, (c'.slot user).generation = (c.slot user).generation ∧
    ∀ e, (c'.slot user).cached = some e → (c.slot user).cached = some e

theorem faded_of_slot_eq {c c' : HistoryCache} (h : ∀ user, c'.slot user = c.slot user) :
    c.Faded c' := by
  intro user
  rw [h user]
  exact ⟨rfl, fun _ he => he⟩

/-- A look into the cache drops one list at most. -/
theorem faded_get (c : HistoryCache) (now : Nat) (user : String) :
    c.Faded (c.get now user).2 := by
  unfold get
  split
  · exact faded_of_slot_eq (fun _ => rfl)
  · next s hs =>
    split
    · exact faded_of_slot_eq (fun _ => rfl)
    · next e he =>
      split
      · exact faded_of_slot_eq (fun _ => rfl)
      · intro j
        simp only [slot_insert]
        split
        · next hj =>
          subst hj
          rw [slot, hs]
          exact ⟨rfl, fun _ he => absurd he (by simp only [reduceCtorEq, not_false_eq_true])⟩
        · exact ⟨rfl, fun _ he => he⟩

/-- Sweeping drops lists and the slots that say nothing without them. -/
theorem faded_purge (c : HistoryCache) (now : Nat) : c.Faded (c.purge now).2 := by
  intro user
  -- A slot that is swept out has no list and generation zero, as one that was never there.
  cases hnew : (c.purge now).2.slots.get? user with
  | some s =>
      rcases Table.get?_mapValues_eq_some.1 (Table.get?_filter_eq_some.1 hnew).1 with ⟨s', hs', rfl⟩
      rw [slot, slot, hnew, hs']
      exact ⟨rfl, fun e he => (Option.filter_eq_some_iff.1 he).1⟩
  | none =>
      refine ⟨?_, fun e he => ?_⟩
      · cases hold : c.slots.get? user with
        | none => rw [slot, slot, hnew, hold]
        | some s =>
            rw [slot, slot, hnew, hold]
            by_contra hne
            have hkept : (c.purge now).2.slots.get? user =
                some { s with cached := s.cached.filter (c.isFresh now) } := by
              refine Table.get?_filter_eq_some.2
                ⟨Table.get?_mapValues_eq_some.2 ⟨s, hold, rfl⟩, ?_⟩
              have hgeneration : s.generation ≠ 0 := Ne.symm hne
              simp only [hgeneration, ne_eq, not_false_eq_true, decide_true, Bool.or_true]
            rw [hnew] at hkept
            exact absurd hkept (by simp only [reduceCtorEq, not_false_eq_true])
      · rw [slot, hnew] at he
        exact absurd he (by simp only [Option.getD_none, reduceCtorEq, not_false_eq_true])

/-- A save stores the list or not, and may sweep after it. -/
theorem faded_save (c : HistoryCache) (now : Nat) (user : String) (g : Nat)
    (trades : List TradeRecord) :
    (c.store now user g trades).2.Faded (c.save now user g trades).2 := by
  unfold save
  split
  next stored c' hstore =>
  simp only [hstore]
  split
  · exact faded_purge _ now
  · exact faded_of_slot_eq (fun _ => rfl)

/-- A list is stored for its user, and only under the generation that the user has. -/
theorem slot_store (c : HistoryCache) (now : Nat) (user : String) (g : Nat)
    (trades : List TradeRecord) (j : String) :
    (c.store now user g trades).2.slot j =
      if j = user ∧ (c.slot user).generation = g then ⟨g, some ⟨trades, now⟩⟩ else c.slot j := by
  unfold store
  by_cases hg : (c.slot user).generation = g
  · rw [slot] at hg
    simp only [hg, if_true, slot_insert]
    by_cases hj : j = user
    · rw [if_pos hj, if_pos ⟨hj, hg⟩]
    · rw [if_neg hj, if_neg (fun h => hj h.1)]
  · simp only [hg, and_false, if_false]
    rw [slot] at hg
    simp only [hg, if_false]

theorem slot_invalidate (c : HistoryCache) (user j : String) :
    (c.invalidate user).slot j =
      if j = user then ⟨(c.slot user).generation + 1, none⟩ else c.slot j :=
  slot_insert c user j _

end HistoryCache

namespace Call

/-- Whether a call is about logs or cached histories. -/
def isBooking : Call → Bool
  | appendTrade .. | listTrades _ | pruneTrades .. | lookUpHistory _ | saveHistory ..
  | invalidateHistory _ => true
  | _ => false

/-- What a call adds to the log of a user. -/
def appended (id : String) : Call → List TradeRecord
  | appendTrade i r => if i = id then [r] else []
  | _ => []

/-- How many entries a call has removed from the log of a user. -/
def removed (id : String) : (c : Call) → Except StoreError c.Result → Nat
  | pruneTrades i _, .ok k => if i = id then k else 0
  | _, _ => 0

theorem appended_of_not_booking {c : Call} (h : c.isBooking = false) (id : String) :
    c.appended id = [] := by
  cases c with
  | appendTrade i r => exact Bool.noConfusion h
  | _ => rfl

theorem removed_of_not_booking {c : Call} (h : c.isBooking = false) (id : String)
    (r : Except StoreError c.Result) : c.removed id r = 0 := by
  cases c with
  | pruneTrades i keep => exact Bool.noConfusion h
  | _ => rfl

/-- The log of a user after any call. -/
theorem log_perform (b : Books) (now : Nat) (c : Call) (id : String) :
    (c.perform b now).2.store.log id =
      (b.store.log id ++ c.appended id).drop (c.removed id (c.perform b now).1) := by
  cases c with
  | appendTrade i r => exact b.store.log_appendTrade i id r
  | pruneTrades i keep =>
      simp only [perform, appended, List.append_nil]
      exact b.store.log_pruneTrades i id keep
  | createUser u =>
      simp only [perform, appended, removed, List.append_nil, List.drop_zero, Store.createUser]
      split
      · rfl
      · rfl
  | replaceUser i version u =>
      simp only [perform, appended, removed, List.append_nil, List.drop_zero, Store.compareAndSet]
      split
      · rfl
      · split
        · rfl
        · rfl
  | deleteSnapshots i cutoff =>
      simp only [perform, appended, removed, List.append_nil, List.drop_zero,
        Store.deleteSnapshotsBefore]
      split
      · rfl
      · rfl
  | _ => exact (List.append_nil _).symm

/-- No call removes more than there is. -/
theorem removed_perform_le (b : Books) (now : Nat) (c : Call) (id : String) :
    c.removed id (c.perform b now).1 ≤ (b.store.log id ++ c.appended id).length := by
  cases c with
  | pruneTrades i keep =>
      simp only [perform, removed, appended, List.append_nil, Store.pruneTrades_fst]
      split
      · next hi =>
        rw [hi]
        exact Nat.sub_le _ _
      · exact Nat.zero_le _
  | _ => exact Nat.zero_le _

/-- The generation of a user counts the calls that made the user's list invalid. -/
theorem generation_perform (b : Books) (now : Nat) (c : Call) (id : String) :
    ((c.perform b now).2.histories.slot id).generation =
      (b.histories.slot id).generation + if c = .invalidateHistory id then 1 else 0 := by
  cases c with
  | lookUpHistory i => exact (b.histories.faded_get now i id).1
  | saveHistory i g trades =>
      refine (b.histories.faded_save now i g trades id).1.trans ?_
      rw [HistoryCache.slot_store]
      split
      · next h =>
        rw [h.1]
        exact h.2.symm
      · rfl
  | invalidateHistory i =>
      simp only [perform, HistoryCache.slot_invalidate]
      by_cases hi : id = i
      · rw [if_pos hi, if_pos (by rw [hi]), hi]
      · rw [if_neg hi, if_neg (fun h => hi (Call.invalidateHistory.inj h).symm), Nat.add_zero]
  | _ => rfl

/-- A list that is kept after a call was kept before and has not been made invalid, or was saved
by this call under the generation that its user has. -/
theorem cached_perform {b : Books} {now : Nat} {c : Call} {id : String} {e : CachedHistory}
    (h : ((c.perform b now).2.histories.slot id).cached = some e) :
    (c ≠ .invalidateHistory id ∧ (b.histories.slot id).cached = some e) ∨
      c = .saveHistory id (b.histories.slot id).generation e.trades := by
  cases c with
  | lookUpHistory i =>
      exact Or.inl ⟨by simp only [ne_eq, reduceCtorEq, not_false_eq_true],
        (b.histories.faded_get now i id).2 e h⟩
  | saveHistory i g trades =>
      have hstored := (b.histories.faded_save now i g trades id).2 e h
      rw [HistoryCache.slot_store] at hstored
      split at hstored
      · next hi =>
        -- It is this very list, and the generation is the one it came with.
        rw [← Option.some.inj hstored, hi.1, hi.2]
        exact Or.inr rfl
      · exact Or.inl ⟨by simp only [ne_eq, reduceCtorEq, not_false_eq_true], hstored⟩
  | invalidateHistory i =>
      simp only [perform, HistoryCache.slot_invalidate] at h
      split at h
      · exact absurd h (by simp only [reduceCtorEq, not_false_eq_true])
      · next hi => exact Or.inl ⟨fun hc => hi (Call.invalidateHistory.inj hc).symm, h⟩
  | _ => exact Or.inl ⟨by simp only [ne_eq, reduceCtorEq, not_false_eq_true], h⟩

end Call

end Bourse
