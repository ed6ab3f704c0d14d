import Bourse.Proofs.Ledger.Logs
import Mathlib.Logic.Function.Basic

/-!
# What the History Cache Forgets

The cache forgets. A list that is looked up too late is dropped, every so many saves
the expired lists are swept out, and with them the slots that say nothing without a
list. None of this can be told from the answers.

`LastingCache` is a cache that forgets nothing: for each user a generation and the last
list saved, however old. It has no slots to be swept out and no count of its saves. A
history cache differs from it in lists that have expired, and as long as time does not
go back these are never served again, so the answers are the same.

## Main definitions

* `HistoryRequest`, `HistoryReply`: what can be asked of a cache, and the answer.
* `HistoryCache.Keeps`: a later state in which no list that is still served is lost.
* `LastingCache`: a cache that forgets nothing.
* `HistoryCache.Resembles`: what a history cache has in common with a lasting one.

## Theorems

* `get_fst`, `save_fst`: the answers, by slot alone.
* `keeps_get`, `keeps_purge`: only expired lists are dropped.
* `resembles_serve`: both caches answer alike and go on alike.
* `generation_le_of_isPrefix`: no generation goes back.
* `answers_eq_lasting`: a history cache cannot be told from a lasting one.
-/

namespace Bourse

/-- What can be asked of a cache. -/
inductive HistoryRequest where
  | get (user : String)
  | save (user : String) (generation : Nat) (trades : List TradeRecord)
  | invalidate (user : String)
  /-- That the expired lists be swept out. -/
  | purge
deriving DecidableEq

/-- What a cache answers. -/
inductive HistoryReply where
  | found (result : HistoryLookup)
  | saved (stored : Bool)
  | done
deriving DecidableEq

namespace HistoryCache

/-- The answer to a request at a time, and the cache after it. -/
def serve (c : HistoryCache) (now : Nat) : HistoryRequest → HistoryReply × HistoryCache
  | .get user => (.found (c.get now user).1, (c.get now user).2)
  | .save user generation trades =>
    (.saved (c.save now user generation trades).1, (c.save now user generation trades).2)
  | .invalidate user => (.done, c.invalidate user)
  | .purge => (.done, (c.purge now).2)

/-- The cache after some requests, each at a time. -/
def after (c : HistoryCache) (requests : List (Nat × HistoryRequest)) : HistoryCache :=
  requests.foldl (fun c r => (c.serve r.1 r.2).2) c

/-- The answers to some requests, each at a time. -/
def answers (c : HistoryCache) : List (Nat × HistoryRequest) → List HistoryReply
  | [] => []
  | r :: rest => (c.serve r.1 r.2).1 :: (c.serve r.1 r.2).2.answers rest

/-! ## Answers by slot -/

/-- What is found is told by the slot of the user, whether there is one or not. -/
theorem get_fst (c : HistoryCache) (now : Nat) (user : String) :
    (c.get now user).1 = match (c.slot user).cached with
      | some e => if c.isFresh now e then .hit e.trades else .miss (c.slot user).generation
      | none => .miss (c.slot user).generation := by
  unfold get slot
  cases hs : c.slots.get? user with
  | none => rfl
  | some s =>
      simp only [Option.getD_some]
      cases he : s.cached with
      | none => rfl
      | some e =>
          by_cases hf : c.isFresh now e = true
          · simp only [hf, if_true]
          · simp only [hf, Bool.false_eq_true, if_false]

theorem store_fst (c : HistoryCache) (now : Nat) (user : String) (g : Nat)
    (trades : List TradeRecord) :
    (c.store now user g trades).1 = decide ((c.slot user).generation = g) := by
  unfold store slot
  by_cases hg : ((c.slots.get? user).getD ⟨0, none⟩).generation = g
  · simp only [hg, if_true, decide_true]
  · simp only [hg, if_false, decide_false]

/-- A list is stored if it was read in the generation of the user. -/
theorem save_fst (c : HistoryCache) (now : Nat) (user : String) (g : Nat)
    (trades : List TradeRecord) :
    (c.save now user g trades).1 = decide ((c.slot user).generation = g) :=
  c.store_fst now user g trades

theorem ttl_store (c : HistoryCache) (now : Nat) (user : String) (g : Nat)
    (trades : List TradeRecord) : (c.store now user g trades).2.ttl = c.ttl := by
  unfold store
  dsimp only
  split
  · rfl
  · rfl

/-- How long lists are served never changes. -/
theorem ttl_serve (c : HistoryCache) (now : Nat) (r : HistoryRequest) :
    (c.serve now r).2.ttl = c.ttl := by
  cases r with
  | get user =>
      simp only [serve, get]
      split
      · rfl
      · split
        · rfl
        · split
          · rfl
          · rfl
  | save user g trades =>
      simp only [serve, save]
      split
      · exact c.ttl_store now user g trades
      · exact c.ttl_store now user g trades
  | invalidate user => rfl
  | purge => rfl

/-! ## Lists that are dropped -/

/-- A later state of a cache in which no list that is served at a time is lost. -/
def Keeps (c : HistoryCache) (now : Nat) (c' : HistoryCache) : Prop :=
  ∀ user e, (c.slot user).cached = some e → c.isFresh now e = true →
    (c'.slot user).cached = some e

theorem keeps_of_slot_eq {c c' : HistoryCache} (now : Nat)
    (h : ∀ user, c'.slot user = c.slot user) : c.Keeps now c' := by
  intro user e he _
  rw [h user]
  exact he

/-- A look drops a list only if it has expired. -/
theorem keeps_get (c : HistoryCache) (now : Nat) (user : String) :
    c.Keeps now (c.get now user).2 := by
  unfold get
  split
  · exact keeps_of_slot_eq now (fun _ => rfl)
  · next s hs =>
    split
    · exact keeps_of_slot_eq now (fun _ => rfl)
    · next e he =>
      split
      · exact keeps_of_slot_eq now (fun _ => rfl)
      · next hexpired =>
        intro j e' he' hfresh
        rw [slot_insert]
        by_cases hj : j = user
        · -- The list that is dropped is not one that is served.
          rw [hj, slot, hs, Option.getD_some, he] at he'
          rw [← Option.some.inj he'] at hfresh
          exact absurd hfresh hexpired
        · rw [if_neg hj]
          exact he'

/-- Sweeping drops the lists that have expired and no others. -/
theorem keeps_purge (c : HistoryCache) (now : Nat) : c.Keeps now (c.purge now).2 := by
  intro user e he hfresh
  -- Who has a list has a slot.
  have hthere : ∃ s, c.slots.get? user = some s ∧ s.cached = some e := by
    cases hs : c.slots.get? user with
    | none =>
        rw [slot, hs] at he
        exact absurd he (by simp only [Option.getD_none, reduceCtorEq, not_false_eq_true])
    | some s =>
        rw [slot, hs, Option.getD_some] at he
        exact ⟨s, rfl, he⟩
  rcases hthere with ⟨s, hs, hcached⟩
  have hkept : s.cached.filter (c.isFresh now) = some e := by
    rw [hcached]
    exact Option.filter_eq_some_iff.2 ⟨rfl, hfresh⟩
  have hget : (c.purge now).2.slots.get? user =
      some { s with cached := s.cached.filter (c.isFresh now) } := by
    refine Table.get?_filter_eq_some.2 ⟨Table.get?_mapValues_eq_some.2 ⟨s, hs, rfl⟩, ?_⟩
    simp only [hkept, Option.isSome_some, Bool.true_or]
  rw [slot, hget]
  exact hkept

theorem keeps_save (c : HistoryCache) (now : Nat) (user : String) (g : Nat)
    (trades : List TradeRecord) :
    (c.store now user g trades).2.Keeps now (c.save now user g trades).2 := by
  unfold save
  split
  next stored c' hstore =>
  simp only [hstore]
  split
  · exact keeps_purge _ now
  · exact keeps_of_slot_eq now (fun _ => rfl)

end HistoryCache

/-! ## A cache that forgets nothing -/

/-- How long a list is served, and what is kept for each user for ever. -/
structure LastingCache where
  ttl : Nat
  kept : String → HistorySlot

namespace LastingCache

/-- The cache in which no list was saved or made invalid yet. -/
def empty (ttl : Nat) : LastingCache := ⟨ttl, fun _ => ⟨0, none⟩⟩

/-- The list of a user if there is one younger than the time it is served, or else the generation. -/
def look (m : LastingCache) (now : Nat) (user : String) : HistoryLookup :=
  match (m.kept user).cached with
  | some e => if now < e.savedAt + m.ttl then .hit e.trades else .miss (m.kept user).generation
  | none => .miss (m.kept user).generation

/-- The answer to a request at a time, and the cache after it. -/
def serve (m : LastingCache) (now : Nat) : HistoryRequest → HistoryReply × LastingCache
  | .get user => (.found (m.look now user), m)
  | .save user g trades =>
    if (m.kept user).generation = g then
      (.saved true, { m with kept := Function.update m.kept user ⟨g, some ⟨trades, now⟩⟩ })
    else (.saved false, m)
  | .invalidate user =>
    (.done, { m with kept := Function.update m.kept user ⟨(m.kept user).generation + 1, none⟩ })
  | .purge => (.done, m)

/-- The answers to some requests, each at a time. -/
def answers (m : LastingCache) : List (Nat × HistoryRequest) → List HistoryReply
  | [] => []
  | r :: rest => (m.serve r.1 r.2).1 :: (m.serve r.1 r.2).2.answers rest

end LastingCache

namespace HistoryCache

/-- What is kept for a user in both caches by some time: the same generation and the same list, but
for one that has expired and may have been dropped. -/
structure Alike (ttl now : Nat) (s t : HistorySlot) : Prop where
  generation : s.generation = t.generation
  subset : ∀ e, s.cached = some e → t.cached = some e
  served : ∀ e, t.cached = some e → now < e.savedAt + ttl → s.cached = some e
  saved : ∀ e, t.cached = some e → e.savedAt ≤ now

/-- A history cache that is the same as a lasting one, but for lists that have expired by now. -/
structure Resembles (c : HistoryCache) (now : Nat) (m : LastingCache) : Prop where
  ttl : c.ttl = m.ttl
  slots : ∀ user, Alike m.ttl now (c.slot user) (m.kept user)

variable {c c' : HistoryCache} {m : LastingCache} {now : Nat}

/-- What is alike stays alike as time passes. -/
theorem Resembles.of_le (h : c.Resembles now m) {later : Nat} (hle : now ≤ later) :
    c.Resembles later m := by
  refine ⟨h.ttl, fun user => ?_⟩
  rcases h.slots user with ⟨hgeneration, hsubset, hserved, hsaved⟩
  refine ⟨hgeneration, hsubset, fun e he hlt => ?_, fun e he => (hsaved e he).trans hle⟩
  exact hserved e he (by omega)

/-- Dropping lists that are not served any more makes no difference. -/
theorem Resembles.of_keeps (h : c.Resembles now m) (hfaded : c.Faded c') (hkeeps : c.Keeps now c')
    (httl : c'.ttl = c.ttl) : c'.Resembles now m := by
  refine ⟨httl.trans h.ttl, fun user => ?_⟩
  rcases h.slots user with ⟨hgeneration, hsubset, hserved, hsaved⟩
  refine ⟨(hfaded user).1.trans hgeneration, fun e he => hsubset e ((hfaded user).2 e he),
    fun e he hlt => ?_, hsaved⟩
  refine hkeeps user e (hserved e he hlt) ?_
  -- The age of a list is no negative number, since it was saved before.
  have hle := hsaved e he
  rw [isFresh, h.ttl]
  exact decide_eq_true (by omega)

/-- The same list of a user is found in both, or none in either. -/
theorem Resembles.get_eq (h : c.Resembles now m) (user : String) :
    (c.get now user).1 = m.look now user := by
  rcases h.slots user with ⟨hgeneration, hsubset, hserved, hsaved⟩
  rw [get_fst, LastingCache.look]
  cases hkept : (m.kept user).cached with
  | none =>
      cases hcached : (c.slot user).cached with
      | none => exact congrArg HistoryLookup.miss hgeneration
      | some e =>
          rw [hsubset e hcached] at hkept
          exact absurd hkept (by simp only [reduceCtorEq, not_false_eq_true])
  | some e =>
      have hle := hsaved e hkept
      have hfresh : c.isFresh now e = decide (now < e.savedAt + m.ttl) := by
        rw [isFresh, h.ttl]
        exact decide_eq_decide.2 (by omega)
      by_cases hlt : now < e.savedAt + m.ttl
      · rw [hserved e hkept hlt]
        simp only [hfresh, hlt, decide_true, if_true]
      · simp only [hlt, if_false, ← hgeneration]
        -- The list has expired, and is there or not.
        cases hcached : (c.slot user).cached with
        | none => rfl
        | some e' =>
            have heq := hsubset e' hcached
            rw [hkept] at heq
            rw [← Option.some.inj heq]
            simp only [hfresh, hlt, decide_false, Bool.false_eq_true, if_false]

/-- A history cache that resembles a lasting one gives the same answer to any request, and
resembles it after that. -/
theorem resembles_serve (h : c.Resembles now m) (r : HistoryRequest) :
    (c.serve now r).1 = (m.serve now r).1 ∧
      (c.serve now r).2.Resembles now (m.serve now r).2 := by
  cases r with
  | get user =>
      exact ⟨congrArg HistoryReply.found (h.get_eq user),
        h.of_keeps (c.faded_get now user) (c.keeps_get now user) (c.ttl_serve now (.get user))⟩
  | purge => exact ⟨rfl, h.of_keeps (c.faded_purge now) (c.keeps_purge now) rfl⟩
  | invalidate user =>
      refine ⟨rfl, h.ttl, fun j => ?_⟩
      simp only [serve, LastingCache.serve, slot_invalidate, Function.update_apply]
      by_cases hj : j = user
      · rw [if_pos hj, if_pos hj]
        exact ⟨congrArg (· + 1) (h.slots user).generation, fun _ he => he, fun _ he _ => he,
          fun _ he => absurd he (by simp only [reduceCtorEq, not_false_eq_true])⟩
      · rw [if_neg hj, if_neg hj]
        exact h.slots j
  | save user g trades =>
      have hgeneration := (h.slots user).generation
      -- First the list is stored, and then lists may be swept out.
      have hstored : (c.store now user g trades).2.Resembles now
          (m.serve now (.save user g trades)).2 := by
        simp only [LastingCache.serve, ← hgeneration]
        refine ⟨?_, fun j => ?_⟩
        · rw [ttl_store]
          split
          · exact h.ttl
          · exact h.ttl
        · rw [slot_store]
          by_cases hg : (c.slot user).generation = g
          · simp only [hg, and_true, if_true, Function.update_apply]
            by_cases hj : j = user
            · rw [if_pos hj, if_pos hj]
              refine ⟨rfl, fun _ he => he, fun _ he _ => he, fun e he => ?_⟩
              rw [← Option.some.inj he]
            · rw [if_neg hj, if_neg hj]
              exact h.slots j
          · simp only [hg, and_false, if_false]
            exact h.slots j
      refine ⟨?_, hstored.of_keeps (c.faded_save now user g trades) (c.keeps_save now user g trades)
        ((c.ttl_serve now (.save user g trades)).trans (c.ttl_store now user g trades).symm)⟩
      simp only [serve, save_fst, LastingCache.serve, ← hgeneration]
      by_cases hg : (c.slot user).generation = g
      · simp only [hg, decide_true, if_true]
      · simp only [hg, decide_false, if_false]

theorem resembles_empty (ttl now : Nat) :
    (HistoryCache.empty ttl).Resembles now (LastingCache.empty ttl) := by
  refine ⟨rfl, fun user => ⟨rfl, fun _ he => he, fun _ he _ => he, fun e he => ?_⟩⟩
  exact absurd he (by simp only [LastingCache.empty, reduceCtorEq, not_false_eq_true])

/-- As long as time does not go back, the answers of both caches are the same. -/
theorem Resembles.answers_eq (h : c.Resembles now m) {requests : List (Nat × HistoryRequest)}
    (hnow : ∀ r ∈ requests, now ≤ r.1)
    (htimes : requests.Pairwise (fun r r' => r.1 ≤ r'.1)) :
    c.answers requests = m.answers requests := by
  induction requests generalizing c m now with
  | nil => rfl
  | cons r rest ih =>
      rcases List.pairwise_cons.1 htimes with ⟨hfirst, hrest⟩
      rcases resembles_serve (h.of_le (hnow r List.mem_cons_self)) r.2 with ⟨hreply, hnext⟩
      rw [answers, LastingCache.answers, hreply, ih hnext hfirst hrest]

/-- The generation of a user goes up by one with each request that makes the user's list invalid, and
stays as it is with all others. -/
theorem generation_serve (c : HistoryCache) (now : Nat) (r : HistoryRequest) (user : String) :
    ((c.serve now r).2.slot user).generation =
      (c.slot user).generation + if r = .invalidate user then 1 else 0 := by
  cases r with
  | get j => exact (c.faded_get now j user).1
  | purge => exact (c.faded_purge now user).1
  | save j g trades =>
      refine (c.faded_save now j g trades user).1.trans ?_
      rw [slot_store]
      split
      · next h =>
        rw [h.1]
        exact h.2.symm
      · rfl
  | invalidate j =>
      simp only [serve, slot_invalidate, HistoryRequest.invalidate.injEq]
      by_cases hj : user = j
      · rw [if_pos hj, if_pos hj.symm, hj]
      · rw [if_neg hj, if_neg (Ne.symm hj), Nat.add_zero]

theorem generation_le_after (c : HistoryCache) (requests : List (Nat × HistoryRequest))
    (user : String) : (c.slot user).generation ≤ ((c.after requests).slot user).generation := by
  induction requests generalizing c with
  | nil => exact le_refl _
  | cons r rest ih =>
      refine le_trans ?_ (ih (c.serve r.1 r.2).2)
      rw [generation_serve]
      exact Nat.le_add_right _ _

/-- No generation goes back. -/
theorem generation_le_of_isPrefix (c : HistoryCache) {past requests : List (Nat × HistoryRequest)}
    (h : past <+: requests) (user : String) :
    ((c.after past).slot user).generation ≤ ((c.after requests).slot user).generation := by
  rcases h with ⟨more, rfl⟩
  rw [after, after, List.foldl_append]
  exact generation_le_after _ more user

/-- A history cache cannot be told from one that forgets nothing. To any sequence of requests, for
any users, at times that do not go back, it gives the same answers, whatever it has dropped and
swept out by then. And no generation of a user ever goes back, whenever slots are forgotten. -/
theorem answers_eq_lasting (ttl : Nat) {requests : List (Nat × HistoryRequest)}
    (htimes : requests.Pairwise (fun r r' => r.1 ≤ r'.1)) :
    (HistoryCache.empty ttl).answers requests = (LastingCache.empty ttl).answers requests ∧
    ∀ user past, past <+: requests → (((HistoryCache.empty ttl).after past).slot user).generation ≤
      (((HistoryCache.empty ttl).after requests).slot user).generation :=
  ⟨(resembles_empty ttl 0).answers_eq (fun _ _ => Nat.zero_le _) htimes,
    fun user _ hpast => generation_le_of_isPrefix _ hpast user⟩

/-- Alice's list is saved, served, and swept out as too old. That of Carol was made invalid, so her
slot outlives the sweep, and a list from before that is refused. Then so much is saved that the
cache sweeps by itself. -/
def sweeping : List (Nat × HistoryRequest) :=
  [(0, .save "alice" 0 []), (5, .invalidate "carol"), (59, .get "alice"), (60, .purge),
    (60, .get "alice"), (60, .save "carol" 0 []), (61, .save "alice" 0 [])]
    ++ List.replicate 256 (130, .save "dave" 0 []) ++ [(130, .get "alice"), (130, .get "carol")]

/-- The answers are those of a cache that forgets nothing, and the generation of Carol is still the
one that it was before the sweeps. -/
theorem answers_eq_lasting_sweeping :
    sweeping.Pairwise (fun r r' => r.1 ≤ r'.1) ∧
    (HistoryCache.empty 60).answers sweeping =
      [.saved true, .done, .found (.hit []), .done, .found (.miss 0), .saved false, .saved true]
        ++ List.replicate 256 (.saved true) ++ [.found (.miss 0), .found (.miss 1)] ∧
    1 ≤ (((HistoryCache.empty 60).after sweeping).slot "carol").generation := by
  have htimes : sweeping.Pairwise (fun r r' => r.1 ≤ r'.1) := by decide +kernel
  rcases answers_eq_lasting 60 htimes with ⟨hanswers, hgeneration⟩
  refine ⟨htimes, ?_, hgeneration "carol" (sweeping.take 2) (List.take_prefix 2 sweeping)⟩
  rw [hanswers]
  decide +kernel

end HistoryCache

end Bourse
