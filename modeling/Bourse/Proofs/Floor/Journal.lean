import Bourse.Proofs.Floor.Visitor
import Bourse.Proofs.Trading.Replay

/-!
# Reading the Journal

What the journal of the floor says about the documents: which was created under an
id, and which trades were committed on it, in which order and by whom. Both are read
off the calls and their answers alone. The other side is what the visitors say
themselves, `Floor.share`: a trade that went through its commit says so in its state
from then on, whether its visitor is still there or not.

A step does one of three things, and `Effect` holds all that any of them does to
documents, journal and visitors. Whatever follows about histories of documents is
proved from it, and not from the steps.

## Main definitions

* `Commit`: a trade that was committed.
* `Floor.commits`, `Floor.openings`: the trades and the creations for an id.
* `Floor.share`: what a visitor has committed, by its own state.
* `Floor.Effect`: what a step does to documents.

## Theorems

* `upright_of_move`: visitors are upright after every step.
* `effect_of_move`: every step has one of the three effects.
-/

namespace Bourse

/-- A trade that was committed: by whom, which version of the document it made, and its entry in
the log. -/
structure Commit where
  visitor : Nat
  version : Nat
  trade : TradeRecord
deriving DecidableEq

/-- The trade that a call committed to the document of a user. -/
def Entry.commit? (id : String) : Entry → Option Commit
  | ⟨n, .execution x, .replaceUser i _ _, .ok v⟩ =>
    if i = id then x.pending?.map (fun t => ⟨n, v.version, t⟩) else none
  | _ => none

/-- The document that a call created for a user. -/
def Entry.opened? (id : String) : Entry → Option User
  | ⟨_, _, .createUser u, .ok _⟩ => if u.id = id then some u else none
  | _ => none

namespace Floor

/-- The trades committed to the document of a user, oldest first. -/
def commits (f : Floor) (id : String) : List Commit :=
  f.journal.filterMap (Entry.commit? id)

/-- The documents created for a user. -/
def openings (f : Floor) (id : String) : List User :=
  f.journal.filterMap (Entry.opened? id)

/-- The trades that a visitor has committed for a user, by the visitor's own state. -/
def share (f : Floor) (id : String) (n : Nat) : List TradeRecord :=
  match f.visits[n]? with
  | some w => w.operation.committed id
  | none => []

/-- What a step does to the documents, and what the journal and the visitors say of it. -/
inductive Effect (config : TradingConfig) (f f' : Floor) : Prop
  /-- No document was written. -/
  | none
      (user? : ∀ id, f'.books.store.user? id = f.books.store.user? id)
      (commits : ∀ id, f'.commits id = f.commits id)
      (openings : ∀ id, f'.openings id = f.openings id)
      (share : ∀ id n, f'.share id n = f.share id n)
  /-- An account was created under an id that was free. -/
  | opening (x : AccountOpening) (time : Timestamp)
      (isOf : x.IsOf config)
      (free : f.books.store.user? (x.account time).id = .none)
      (user? : ∀ id, f'.books.store.user? id =
        if id = (x.account time).id then some ⟨1, x.account time⟩ else f.books.store.user? id)
      (commits : ∀ id, f'.commits id = f.commits id)
      (openings : ∀ id, f'.openings id =
        f.openings id ++ if (x.account time).id = id then [x.account time] else [])
      (share : ∀ id n, f'.share id n = f.share id n)
  /-- A trade was committed to the document of its user, by a visitor who had committed none. -/
  | commit (n : Nat) (id : String) (v : Versioned User) (t : TradeRecord) (u : User)
      (stored : f.books.store.user? id = some v)
      (trade : v.value.trade t = .ok u)
      (user? : ∀ j, f'.books.store.user? j =
        if j = id then some ⟨v.version + 1, u⟩ else f.books.store.user? j)
      (commits : ∀ j, f'.commits j =
        f.commits j ++ if id = j then [⟨n, v.version + 1, t⟩] else [])
      (openings : ∀ j, f'.openings j = f.openings j)
      (before : ∀ j, f.share j n = [])
      (share : ∀ j k, f'.share j k = if k = n then (if id = j then [t] else []) else f.share j k)

variable {config : TradingConfig} {f f' : Floor}

/-- All visitors are upright. -/
def Upright (config : TradingConfig) (f : Floor) : Prop :=
  ∀ (n : Nat) (w : Visit), f.visits[n]? = some w → w.operation.Upright config f.books.store

theorem upright_opened (config : TradingConfig) : (opened config).Upright config := by
  intro n w hw
  exact absurd hw (by simp only [opened, List.getElem?_nil, reduceCtorEq, not_false_eq_true])

/-- What a call makes of its visitor is upright over the books after it. -/
theorem upright_of_calling {b : Books} {x : Operation} {c : Call} {d : Deadline Operation}
    {resume : Except StoreError c.Result → Operation} (hx : x.Upright config b.store)
    (h : x.next = .calling c d resume) (now : Nat) :
    (resume (c.perform b now).1).Upright config (c.perform b now).2.store := by
  rcases Operation.cases_of_calling hx h now with
    ⟨-, hup, -⟩ | ⟨w, price, m, version, u, -, -, -, hw⟩ | ⟨w, time, -, -, -, w', hw', hof⟩
  · exact hup.of_grown (Call.grown_perform b now c)
  · rw [hw]
    -- Committed or failed, it holds no copy any more.
    rcases w.cases_of_stored price m (b.store.compareAndSet w.user version u).1 with
      ⟨v, -, hs⟩ | ⟨e, hs⟩
    · rw [hs]
      exact trivial
    · rw [hs]
      exact trivial
  · rw [hw']
    exact hof

/-- Visitors are upright after every step. -/
theorem upright_of_move {a : Action} (hf : f.Upright config) (h : Move config f a f') :
    f'.Upright config := by
  cases h with
  | enter e =>
      intro n w hw
      rw [List.getElem?_append] at hw
      split at hw
      · exact hf n w hw
      · obtain rfl : w = ⟨e.operation config, true⟩ := by
          rcases List.mem_singleton.1 (List.mem_of_getElem? hw) with rfl
          rfl
        exact (Operation.upright_of_errand config f.books.store e).1
  | hear n news x y hx hy =>
      intro k w hw
      rcases of_getElem?_set hw with rfl | hw
      · exact (Operation.upright_of_hear? (hf n _ hx) hy).1
      · exact hf k w hw
  | call n now x c d resume hx hnext =>
      intro k w hw
      rcases of_getElem?_set hw with rfl | hw
      · exact upright_of_calling (hf n _ hx) hnext now
      · exact (hf k w hw).of_grown (Call.grown_perform f.books now c)
  | leave n x hx =>
      intro k w hw
      rcases of_getElem?_set hw with rfl | hw
      · exact hf n ⟨x, true⟩ hx
      · exact hf k w hw
  | sweep now => exact hf

/-- A call that writes no document is neither a commit nor a creation. -/
theorem entry_of_not_write {e : Entry} (h : e.call.isWrite = false) (id : String) :
    e.commit? id = none ∧ e.opened? id = none := by
  constructor
  · unfold Entry.commit?
    split
    · exact absurd h (by simp only [Call.isWrite, Bool.true_eq_false, not_false_eq_true])
    · rfl
  · unfold Entry.opened?
    split
    · exact absurd h (by simp only [Call.isWrite, Bool.true_eq_false, not_false_eq_true])
    · rfl

/-- A call that was refused is neither. -/
theorem entry_of_error (n : Nat) (x : Operation) (c : Call) (e : StoreError) (id : String) :
    Entry.commit? id ⟨n, x, c, .error e⟩ = none ∧ Entry.opened? id ⟨n, x, c, .error e⟩ = none := by
  constructor
  · unfold Entry.commit?
    split
    · next heq => cases heq
    · rfl
  · unfold Entry.opened?
    split
    · next heq => cases heq
    · rfl

theorem filterMap_concat {α β : Type} (g : α → Option β) (l : List α) (a : α) :
    (l ++ [a]).filterMap g = l.filterMap g ++ (g a).toList := by
  rw [List.filterMap_append]
  cases h : g a with
  | none => rw [List.filterMap_cons_none h, List.filterMap_nil, Option.toList_none]
  | some b => rw [List.filterMap_cons_some h, List.filterMap_nil, Option.toList_some]

/-- A call adds to the trades committed what its own entry says. -/
theorem commits_called (f : Floor) (n now : Nat) (x : Operation) (c : Call)
    (resume : Except StoreError c.Result → Operation) (id : String) :
    (f.called n now x c resume).commits id = f.commits id ++
      (Entry.commit? id ⟨n, x, c, (c.perform f.books now).1⟩).toList :=
  filterMap_concat (Entry.commit? id) f.journal _

theorem openings_called (f : Floor) (n now : Nat) (x : Operation) (c : Call)
    (resume : Except StoreError c.Result → Operation) (id : String) :
    (f.called n now x c resume).openings id = f.openings id ++
      (Entry.opened? id ⟨n, x, c, (c.perform f.books now).1⟩).toList :=
  filterMap_concat (Entry.opened? id) f.journal _

/-- What each visitor has committed after one of them has changed. -/
theorem share_of_set {n : Nat} {v w : Visit} (hw : f.visits[n]? = some w)
    (hset : f'.visits = f.visits.set n v) (id : String) (k : Nat) :
    f'.share id k = if k = n then v.operation.committed id else f.share id k := by
  unfold share
  rw [hset, getElem?_set_eq hw]
  by_cases hk : k = n
  · rw [if_pos hk, if_pos hk]
  · rw [if_neg hk, if_neg hk]

/-- If the visitor says the same as before, so do all of them. -/
theorem share_of_set_same {n : Nat} {v w : Visit} (hw : f.visits[n]? = some w)
    (hset : f'.visits = f.visits.set n v)
    (h : ∀ id, v.operation.committed id = w.operation.committed id) (id : String) (k : Nat) :
    f'.share id k = f.share id k := by
  rw [share_of_set hw hset]
  split
  · next hk =>
    subst hk
    rw [share, hw, h]
  · rfl

/-- A trade that is to be committed either is, or fails and leaves no trace. -/
theorem effect_of_replace {n now : Nat} {w : Execution} {price : Amount} {m : Moment}
    {version : Nat} {u : User}
    {resume : Except StoreError (Versioned User) → Operation}
    (hx : f.visits[n]? = some ⟨.execution w, true⟩) (hbased : w.Based f.books.store)
    (hphase : w.phase = .storing price m version u)
    (hresume : resume (f.books.store.compareAndSet w.user version u).1 =
      .execution (w.stored price m (f.books.store.compareAndSet w.user version u).1)) :
    Effect config f
      (f.called n now (.execution w) (.replaceUser w.user version u) resume) := by
  -- Up to this call it has committed nothing.
  have hbefore : ∀ id, (Operation.execution w).committed id = [] :=
    Operation.committed_of_none (by rw [Execution.committed?, hphase])
  rcases f.books.store.compareAndSet_cases w.user version u with ⟨v, hv, hversion, hr⟩ | ⟨e, hr⟩
  · rw [Execution.Based, hphase] at hbased
    rcases hbased with ⟨v', hv', -, hamend⟩
    -- The version is still the one read, so the copy is this very document after the trade.
    obtain rfl : v = v' := Option.some.inj (hv.symm.trans hv')
    rw [hr] at hresume
    refine .commit n w.user v (w.outcome price m.time u.portfolio).record u hv (hamend hversion)
      (fun j => ?_) (fun j => ?_) (fun j => ?_) (fun j => ?_) (fun j k => ?_)
    · simp only [called, Call.perform, hr, hversion]
      exact Store.user?_insert _ _ _ _
    · rw [commits_called]
      simp only [Call.perform, hr, Entry.commit?, hversion, Execution.pending?, hphase,
        Option.map_some]
      split
      · rfl
      · rfl
    · rw [openings_called]
      exact List.append_nil _
    · rw [share, hx]
      exact hbefore j
    · rw [share_of_set hx rfl]
      simp only [Call.perform, hr, hresume]
      rw [Operation.committed_of_some rfl]
      rfl
  · rw [hr] at hresume
    -- The call was refused, and the journal keeps no more than that.
    have hnothing := entry_of_error n (.execution w) (.replaceUser w.user version u) e
    refine .none (fun j => ?_) (fun j => ?_) (fun j => ?_) (fun j k => ?_)
    · simp only [called, Call.perform, hr]
    · simp only [commits_called, Call.perform, hr, (hnothing j).1, Option.toList_none,
        List.append_nil]
    · simp only [openings_called, Call.perform, hr, (hnothing j).2, Option.toList_none,
        List.append_nil]
    · refine share_of_set_same hx rfl (fun id => ?_) j k
      simp only [Call.perform, hr, hresume]
      rw [hbefore]
      exact Operation.committed_of_none rfl id

/-- An account that is to be created either is, or was there before. -/
theorem effect_of_create {n now : Nat} {w w' : AccountOpening} {time : Timestamp}
    {resume : Except StoreError (Versioned User) → Operation}
    (hx : f.visits[n]? = some ⟨.opening w, true⟩) (hof : w.IsOf config)
    (hresume : resume (f.books.store.createUser (w.account time)).1 = .opening w') :
    Effect config f (f.called n now (.opening w) (.createUser (w.account time)) resume) := by
  have hshare : ∀ id k,
      (f.called n now (.opening w) (.createUser (w.account time)) resume).share id k =
        f.share id k :=
    share_of_set_same hx rfl (fun id => by simp only [Call.perform, hresume, Operation.committed])
  have hcommits : ∀ id,
      (f.called n now (.opening w) (.createUser (w.account time)) resume).commits id =
        f.commits id := by
    intro id
    rw [commits_called]
    exact List.append_nil _
  rcases f.books.store.createUser_cases (w.account time) with ⟨hfree, hr⟩ | hr
  · refine .opening w time hof hfree (fun j => ?_) hcommits (fun j => ?_) hshare
    · simp only [called, Call.perform, hr]
      exact Store.user?_insert _ _ _ _
    · rw [openings_called]
      simp only [Call.perform, hr, Entry.opened?]
      split
      · rfl
      · rfl
  · refine .none (fun j => ?_) hcommits (fun j => ?_) hshare
    · simp only [called, Call.perform, hr]
    · have hnothing := entry_of_error n (.opening w) (.createUser (w.account time))
        (.alreadyExists (w.account time).id) j
      simp only [openings_called, Call.perform, hr, hnothing.2, Option.toList_none,
        List.append_nil]

/-- A visitor who has just come has committed nothing. -/
theorem share_of_enter (e : Errand) (hset : f'.visits = f.visits ++ [⟨e.operation config, true⟩])
    (id : String) (k : Nat) : f'.share id k = f.share id k := by
  unfold share
  rw [hset, getElem?_concat_eq]
  split_ifs with hk
  · rw [hk, List.getElem?_eq_none (le_refl _)]
    exact (Operation.upright_of_errand config f.books.store e).2 id
  · rfl

/-- Every step has one of the three effects. -/
theorem effect_of_move {a : Action} (hf : f.Upright config) (h : Move config f a f') :
    Effect config f f' := by
  cases h with
  | enter e =>
      exact .none (fun _ => rfl) (fun _ => rfl) (fun _ => rfl) (share_of_enter e rfl)
  | hear n news x y hx hy =>
      have hcommitted := (Operation.upright_of_hear? (hf n _ hx) hy).2
      exact .none (fun _ => rfl) (fun _ => rfl) (fun _ => rfl)
        (share_of_set_same hx rfl hcommitted)
  | call n now x c d resume hx hnext =>
      rcases Operation.cases_of_calling (hf n _ hx) hnext now with
        ⟨hwrite, -, hcommitted⟩ | ⟨w, price, m, version, u, rfl, hphase, rfl, hresume⟩ |
          ⟨w, time, rfl, hof, rfl, w', hresume, -⟩
      · have hnothing := entry_of_not_write
          (e := ⟨n, x, c, (c.perform f.books now).1⟩) hwrite
        refine .none (Call.user?_perform f.books now hwrite) (fun id => ?_) (fun id => ?_)
          (share_of_set_same hx rfl hcommitted)
        · rw [commits_called, (hnothing id).1]
          exact List.append_nil _
        · rw [openings_called, (hnothing id).2]
          exact List.append_nil _
      · exact effect_of_replace hx (hf n _ hx) hphase hresume
      · exact effect_of_create hx hof hresume
  | leave n x hx =>
      exact .none (fun _ => rfl) (fun _ => rfl) (fun _ => rfl)
        (share_of_set_same hx rfl (fun _ => rfl))
  | sweep now => exact .none (fun _ => rfl) (fun _ => rfl) (fun _ => rfl) (fun _ _ => rfl)

end Floor

end Bourse
