import Bourse.Proofs.Floor.Commits

/-!
# The Opening of Accounts

Any number of callers may open the same account at once, while others already trade
on it. Between the look that finds no account and the creation of one, somebody else
may have created it; the opening that comes too late reads what is there.

Two facts are enough. Documents are never lost, so an opening that was told that the
account exists will find it. And what an opening ends with is a document that was
stored while it was under way, so it is enough to know at each step that the document
in hand was stored at some moment since the opening began.

The snapshot beside a new account is written by the one opening that created it, and
by nobody else. Every opening writes the same value, so no later one changes what is
there.

## Main definitions

* `AccountOpening.Asks`: the calls of an opening.
* `AccountOpening.Shows`: an opening that has in hand what was stored.
* `Floor.StoredDuring`: a document that was stored at a moment of a run.
* `Floor.Founded`: every creation on the floor, and what became of its creator.

## Theorems

* `leaves_of_asks`: what an opening leaves alone.
* `shows_of_asks`: what an opening has in hand after a call.
* `founded_of_move`: what is known of creators after every step.
* `account_of_run`: what openings do and what they end with.
-/

namespace Bourse

/-! ## Snapshots -/

/-- Whether a call may write a snapshot or remove one. -/
def Call.isRecord : Call → Bool
  | putSnapshot .. | deleteSnapshots .. => true
  | _ => false

/-- A call that has nothing to do with snapshots leaves them all. -/
theorem Call.history_perform (b : Books) (now : Nat) {c : Call} (h : c.isRecord = false)
    (id : String) : (c.perform b now).2.store.history id = b.store.history id := by
  cases c with
  | putSnapshot i v | deleteSnapshots i cutoff => exact absurd h Bool.noConfusion
  | createUser u =>
      rcases b.store.createUser_cases u with ⟨-, hr⟩ | hr
      · simp only [perform, hr]
        rfl
      · simp only [perform, hr]
  | replaceUser i version u =>
      rcases b.store.compareAndSet_cases i version u with ⟨v, -, -, hr⟩ | ⟨e, hr⟩
      · simp only [perform, hr]
        rfl
      · simp only [perform, hr]
  | pruneTrades i keep =>
      simp only [perform, Store.pruneTrades]
      split
      · rfl
      · rfl
  | _ => rfl

theorem Store.history_putSnapshot (s : Store) (id j : String) (v : Snapshot) :
    (s.putSnapshot id v).history j =
      if j = id then (s.history id).insert v.timestamp v.value else s.history j := by
  unfold putSnapshot history
  rw [Table.get?_insert_eq]
  by_cases hj : j = id
  · rw [if_pos hj, if_pos hj]
    rfl
  · rw [if_neg hj, if_neg hj]

theorem Store.mem_snapshots_iff {s : Store} {id : String} {v : Snapshot} :
    v ∈ s.snapshots id ↔ (s.history id).get? v.timestamp = some v.value := by
  rw [← Table.mem_entries_iff, snapshots, List.mem_map]
  constructor
  · rintro ⟨e, he, rfl⟩
    exact he
  · intro he
    exact ⟨(v.timestamp, v.value), he, rfl⟩

/-! ## The steps of an opening -/

namespace AccountOpening

/-- The calls of an opening, and how it goes on after each. -/
inductive Asks (x : AccountOpening) :
    (c : Call) → (Except StoreError c.Result → AccountOpening) → Prop
  | look (phase : x.phase = .looking) : Asks x (.readUser x.identity.key) x.looked
  | create (u : User) (phase : x.phase = .creating u) : Asks x (.createUser u) x.created
  | record (u : User) (phase : x.phase = .recording u) :
      Asks x (.putSnapshot x.identity.key (x.firstSnapshot u))
        (fun _ => x.enter (.finished (.ok u)))
  | reread (phase : x.phase = .rereading) : Asks x (.readUser x.identity.key) x.reread

theorem asks_of_next {x : AccountOpening} {c : Call} {d : Deadline AccountOpening}
    {resume : Except StoreError c.Result → AccountOpening}
    (h : @next UserValuation x = .calling c d resume) : x.Asks c resume := by
  cases hphase : x.phase with
  | looking =>
      rw [next, hphase] at h
      cases h
      exact .look hphase
  | creating u =>
      rw [next, hphase] at h
      cases h
      exact .create u hphase
  | recording u =>
      rw [next, hphase] at h
      cases h
      exact .record u hphase
  | rereading =>
      rw [next, hphase] at h
      cases h
      exact .reread hphase
  | timing | finished r =>
      rw [next, hphase] at h
      exact absurd h (by simp only [reduceCtorEq, not_false_eq_true])

/-- All that an opening hears is the time, before it creates anything. -/
theorem timing_of_hear? {x y : AccountOpening} {news : News}
    (h : (@next UserValuation x).hear? news = some y) :
    x.phase = .timing ∧ ∃ m : Moment, y = x.enter (.creating (x.account m.time)) := by
  cases hphase : x.phase with
  | timing =>
      rw [next, hphase] at h
      cases news with
      | clock m => exact ⟨rfl, m, (Option.some.inj h).symm⟩
      | _ => exact absurd h (by simp only [Progress.hear?, reduceCtorEq, not_false_eq_true])
  | looking | creating u | recording u | rereading | finished r =>
      rw [next, hphase] at h
      cases news <;>
        exact absurd h (by simp only [Progress.hear?, Option.map_none, reduceCtorEq,
          not_false_eq_true])

variable {config : TradingConfig} {x : AccountOpening} {c : Call}
  {resume : Except StoreError c.Result → AccountOpening}

/-- An opening that has ended makes no call. -/
theorem phase_of_asks (h : x.Asks c resume) (r : Except TradeError User) :
    x.phase ≠ .finished r := by
  intro hfinished
  cases h with
  | look hphase | create u hphase | record u hphase | reread hphase =>
      rw [hfinished] at hphase
      exact absurd hphase (by simp only [reduceCtorEq, not_false_eq_true])

/-- Whatever an opening is told, it goes on for the same identity. -/
theorem identity_of_asks (h : x.Asks c resume) (r : Except StoreError c.Result) :
    (resume r).identity = x.identity := by
  cases h with
  | look hphase => rcases r with e | _ | v <;> rfl
  | create u hphase =>
      unfold created
      split <;> rfl
  | record u hphase => rfl
  | reread hphase => rcases r with e | _ | v <;> rfl

/-- An account that exists is left as it is by every opening, and so are all logs and all cached
histories. -/
theorem leaves_of_asks (h : x.Asks c resume) (b : Books) (now : Nat) :
    (∀ id v, b.store.user? id = some v → (c.perform b now).2.store.user? id = some v) ∧
      (c.perform b now).2.store.logs = b.store.logs ∧
      (c.perform b now).2.histories = b.histories := by
  cases h with
  | look hphase | reread hphase | record u hphase => exact ⟨fun _ _ hv => hv, rfl, rfl⟩
  | create u hphase =>
      rcases b.store.createUser_cases u with ⟨hfree, hr⟩ | hr
      · refine ⟨?_, by simp only [Call.perform, hr], by simp only [Call.perform]⟩
        intro id v hv
        -- What exists is stored under another id than the new account.
        have hne : id ≠ u.id := by
          rintro rfl
          rw [hfree] at hv
          exact absurd hv (by simp only [reduceCtorEq, not_false_eq_true])
        simp only [Call.perform, hr]
        rw [Store.user?_insert, if_neg hne]
        exact hv
      · refine ⟨?_, by simp only [Call.perform, hr], by simp only [Call.perform]⟩
        intro id v hv
        simp only [Call.perform, hr]
        exact hv

/-- An opening that was told of a document has one that `S` holds of, one that is about to read the
account will find it, and none has failed. -/
def Shows (S : User → Prop) (s : Store) (x : AccountOpening) : Prop :=
  match x.phase with
  | .recording u | .finished (.ok u) => u.id = x.identity.key ∧ S u
  | .rereading => ∃ v, s.user? x.identity.key = some v
  | .finished (.error _) => False
  | _ => True

theorem Shows.mono {S S' : User → Prop} {s s' : Store} (h : x.Shows S s) (hS : ∀ u, S u → S' u)
    (hs : s.Grown s') : x.Shows S' s' := by
  unfold Shows at h ⊢
  split
  · next u hphase =>
    rw [hphase] at h
    exact ⟨h.1, hS u h.2⟩
  · next u hphase =>
    rw [hphase] at h
    exact ⟨h.1, hS u h.2⟩
  · next hphase =>
    rw [hphase] at h
    rcases h with ⟨v, hv⟩
    rcases hs _ v hv with ⟨v', hv', -⟩
    exact ⟨v', hv'⟩
  · next e hphase =>
    rw [hphase] at h
    exact h
  · exact trivial

/-- The creation of an account under an id that is taken is refused. -/
theorem exists_of_refused {s : Store} {u : User} {e : StoreError}
    (h : (s.createUser u).1 = .error e) : e = .alreadyExists u.id ∧ ∃ v, s.user? u.id = some v := by
  unfold Store.createUser at h
  split at h
  · next v hv => exact ⟨(Except.error.inj h).symm, v, hv⟩
  · exact absurd h (by simp only [reduceCtorEq, not_false_eq_true])

/-- After a call an opening still has in hand what was stored, if `S` holds of the documents that
were stored under the key before the call and are stored there after it. -/
theorem shows_of_asks {S : User → Prop} (hx : x.IsOf config) (h : x.Asks c resume) {b : Books}
    (now : Nat) (hshows : x.Shows S b.store)
    (hbefore : ∀ v, b.store.user? x.identity.key = some v → v.value.id = x.identity.key ∧ S v.value)
    (hafter : ∀ v, (c.perform b now).2.store.user? x.identity.key = some v → S v.value) :
    (resume (c.perform b now).1).Shows S (c.perform b now).2.store := by
  cases h with
  | look hphase =>
      simp only [Call.perform]
      cases hv : b.store.user? x.identity.key with
      | none => exact trivial
      | some v => exact hbefore v hv
  | create u hphase =>
      -- What is created was made up for the key of the identity.
      have hkey : u.id = x.identity.key := by
        have hcreating := hx.creating
        rw [hphase] at hcreating
        rcases hcreating with ⟨time, rfl⟩
        rfl
      cases hr : (b.store.createUser u).1 with
      | error e =>
          rcases exists_of_refused hr with ⟨rfl, v, hv⟩
          rcases Call.grown_perform b now (.createUser u) u.id v hv with ⟨v', hv', -⟩
          simp only [Call.perform, hr, created]
          exact ⟨v', hkey ▸ hv'⟩
      | ok v =>
          simp only [Call.perform, hr, created]
          rcases b.store.createUser_cases u with ⟨-, hcreated⟩ | hrefused
          · rw [hcreated] at hr
            rw [← Except.ok.inj hr]
            refine ⟨hkey, hafter ⟨1, u⟩ ?_⟩
            simp only [Call.perform, hcreated]
            rw [Store.user?_insert, if_pos hkey.symm]
          · rw [hrefused] at hr
            exact absurd hr (by simp only [reduceCtorEq, not_false_eq_true])
  | record u hphase =>
      unfold Shows at hshows
      rw [hphase] at hshows
      exact hshows
  | reread hphase =>
      unfold Shows at hshows
      rw [hphase] at hshows
      rcases hshows with ⟨v, hv⟩
      simp only [Call.perform, hv]
      exact hbefore v hv

end AccountOpening

/-- A call is made by an opening, or has nothing to do with snapshots and creates no account. -/
theorem Operation.cases_of_opening {config : TradingConfig} {s : Store} {x : Operation} {c : Call}
    {d : Deadline Operation} {resume : Except StoreError c.Result → Operation}
    (hx : x.Upright config s) (h : x.next = .calling c d resume) :
    (∃ w k, x = .opening w ∧ w.IsOf config ∧ w.Asks c k ∧ ∀ r, resume r = .opening (k r)) ∨
      ((∀ w, x ≠ .opening w) ∧ c.isRecord = false ∧ ∀ u, c ≠ .createUser u) := by
  cases x with
  | opening w =>
      rcases Progress.calling_of_map h with ⟨d', k, hk, hresume⟩
      exact Or.inl ⟨w, k, rfl, hx, AccountOpening.asks_of_next hk, hresume⟩
  | execution w =>
      rcases Progress.calling_of_map h with ⟨d', k, hk, -⟩
      right
      cases Execution.asks_of_next hk <;> exact ⟨fun _ => Operation.noConfusion, rfl, fun _ => Call.noConfusion⟩
  | portfolio w =>
      rcases Progress.calling_of_map h with ⟨d', k, hk, -⟩
      right
      cases w with
      | reading user => cases hk; exact ⟨fun _ => Operation.noConfusion, rfl, fun _ => Call.noConfusion⟩
      | finished r => cases hk
  | history w =>
      rcases Progress.calling_of_map h with ⟨d', k, hk, -⟩
      right
      cases w with
      | finished r => cases hk
      | _ => cases hk; exact ⟨fun _ => Operation.noConfusion, rfl, fun _ => Call.noConfusion⟩
  | snapshots w =>
      rcases Progress.calling_of_map h with ⟨d', k, hk, -⟩
      right
      cases w with
      | reading user => cases hk; exact ⟨fun _ => Operation.noConfusion, rfl, fun _ => Call.noConfusion⟩
      | finished r => cases hk
  | valuation w | userValuation w | job w => exact hx.elim

/-- The entry of a call that is no creation says that no account was created. -/
theorem Entry.opened?_eq_none {id : String} {e : Entry} (h : ∀ u, e.call ≠ .createUser u) :
    e.opened? id = none := by
  unfold opened?
  split
  · exact absurd rfl (h _)
  · rfl

namespace Floor

variable {config : TradingConfig} {f f' s : Floor} {n : Nat} {id : String}

/-! ## What an opening ends with -/

/-- A document that was stored under an id at some moment of a run. -/
def StoredDuring (config : TradingConfig) (s : Floor) (actions : List Action) (id : String)
    (u : User) : Prop :=
  ∃ during g v, during <+: actions ∧ s.run? config during = some g ∧
    g.books.store.user? id = some v ∧ v.value = u

theorem StoredDuring.mono {past actions : List Action} {u : User}
    (h : StoredDuring config s past id u) (hpast : past <+: actions) :
    StoredDuring config s actions id u := by
  rcases h with ⟨during, g, v, hduring, hg⟩
  exact ⟨during, g, v, hduring.trans hpast, hg⟩

theorem storedDuring_of_run? {actions : List Action} {v : Versioned User}
    (h : s.run? config actions = some f) (hv : f.books.store.user? id = some v) :
    StoredDuring config s actions id v.value :=
  ⟨actions, f, v, List.prefix_refl _, h, hv, rfl⟩

/-- Documents are stored under their own ids. -/
theorem id_of_kept (hf : f.Kept config) {v : Versioned User}
    (hv : f.books.store.user? id = some v) : v.value.id = id := by
  rcases hf.stored id v hv with ⟨u, hu⟩
  rw [(User.isReplay_of_replay hu.replay).id, hu.key]

/-- A visitor who came for the account of an identity, and has in hand what was stored under its key
at a moment of the run so far. -/
def Shown (config : TradingConfig) (s : Floor) (n : Nat) (i : Identity) (actions : List Action)
    (f : Floor) : Prop :=
  ∃ x present, f.visits[n]? = some ⟨.opening x, present⟩ ∧ x.identity = i ∧
    x.Shows (StoredDuring config s actions i.key) f.books.store

theorem grown_of_move {a : Action} (h : Move config f a f') :
    f.books.store.Grown f'.books.store := by
  cases h with
  | call m now x c d resume hx hnext => exact Call.grown_perform f.books now c
  | _ => exact Store.grown_of_user?_eq (fun _ => rfl)

theorem shown_of_move {i : Identity} {past : List Action} {a : Action}
    (hf : f.Upright config ∧ f.Kept config) (hrun : s.run? config past = some f)
    (hshown : Shown config s n i past f) (h : Move config f a f') :
    Shown config s n i (past ++ [a]) f' := by
  rcases hshown with ⟨x, present, hx, hi, hshows⟩
  have hlater : ∀ u, StoredDuring config s past i.key u →
      StoredDuring config s (past ++ [a]) i.key u :=
    fun u hu => hu.mono (List.prefix_append _ _)
  have hstill := hshows.mono hlater (grown_of_move h)
  cases h with
  | enter e =>
      refine ⟨x, present, ?_, hi, hstill⟩
      rw [getElem?_concat_eq, if_neg (by have := (List.getElem?_eq_some_iff.1 hx).1; omega), hx]
  | hear m news y z hy hz =>
      by_cases hn : n = m
      · subst hn
        rw [← (visit_unique hx hy).1] at hz
        rcases Operation.exists_of_hear? hz with ⟨w, hw, rfl⟩
        rcases AccountOpening.timing_of_hear? hw with ⟨-, m, rfl⟩
        exact ⟨_, true, getElem?_set_visit hy _, hi, trivial⟩
      · exact ⟨x, present, by rw [goOn, getElem?_set_eq hy, if_neg hn, hx], hi, hstill⟩
  | call m now y c d resume hy hnext =>
      by_cases hn : n = m
      · subst hn
        rw [← (visit_unique hx hy).1] at hnext
        rcases Operation.cases_of_opening (hf.1 n _ hx) hnext with
          ⟨w, k, hw, hof, hasks, hresume⟩ | ⟨hnot, -⟩
        · rw [← Operation.opening.inj hw] at hasks hof
          refine ⟨k (c.perform f.books now).1, true, ?_, ?_, ?_⟩
          · rw [called, getElem?_set_visit hy, hresume]
          · rw [AccountOpening.identity_of_asks hasks, hi]
          · have hstep : f.step? config (.call n now) = some (f.called n now y c resume) := by
              simp only [step?, present?, hy]
              rw [← (visit_unique hx hy).1, hnext]
            refine AccountOpening.shows_of_asks hof hasks now (hshows.mono hlater ?_) ?_ ?_
            · exact Store.grown_of_user?_eq (fun _ => rfl)
            · intro v hv
              refine ⟨id_of_kept hf.2 hv, hlater _ ?_⟩
              rw [hi] at hv
              exact storedDuring_of_run? hrun hv
            · intro v hv
              rw [hi] at hv
              exact storedDuring_of_run? (run?_concat hrun hstep) hv
        · exact absurd rfl (hnot x)
      · exact ⟨x, present, by rw [called, getElem?_set_eq hy, if_neg hn, hx], hi, hstill⟩
  | leave m y hy =>
      by_cases hn : n = m
      · subst hn
        rw [← (visit_unique hx hy).1]
        exact ⟨x, false, getElem?_set_visit hx _, hi, hstill⟩
      · exact ⟨x, present, by rw [getElem?_set_eq hy, if_neg hn, hx], hi, hstill⟩
  | sweep now => exact ⟨x, present, hx, hi, hstill⟩

/-- What an opening ends with. -/
theorem shown_of_run? {before after : List Action} {x : AccountOpening}
    (hs : (opened config).run? config before = some s) (hf : s.run? config after = some f)
    (hx : s.visits[n]? = some ⟨.opening x, true⟩) (hphase : x.phase = .looking) :
    Shown config s n x.identity after f := by
  refine moment_induction (Shown config s n x.identity) ?_ ?_ hf
  · refine ⟨x, true, hx, rfl, ?_⟩
    unfold AccountOpening.Shows
    rw [hphase]
    exact trivial
  · intro past a g g' hg hshown hmove
    have hreached : (opened config).run? config (before ++ past) = some g := by
      rw [run?_append, hs, Option.bind_some, hg]
    exact shown_of_move (kept_of_run? hreached) hg hshown hmove

/-! ## Creators -/

/-- The snapshot beside the account of a user is there, and was written by a visitor. -/
def Recorded (config : TradingConfig) (f : Floor) (id : String) (n : Nat) (u : User) : Prop :=
  (f.books.store.history id).get? u.createdAt.startOfHour = some config.startingCash ∧
    ∃ e ∈ f.journal, e.visitor = n ∧
      e.call = .putSnapshot id ⟨u.createdAt.startOfHour, config.startingCash⟩

/-- Whoever created an account is about to write the snapshot beside it, or has written it and ended
with the account. -/
def Founded (config : TradingConfig) (f : Floor) : Prop :=
  ∀ e ∈ f.journal, ∀ id u, e.opened? id = some u →
    ∃ x present, f.visits[e.visitor]? = some ⟨.opening x, present⟩ ∧ x.identity.key = id ∧
      (x.phase = .recording u ∨
        (x.phase = .finished (.ok u) ∧ f.Recorded config id e.visitor u))

/-- A snapshot beside an account is not changed by any call: whoever writes another in its place
writes the same. -/
theorem Recorded.of_call {m now : Nat} {x : Operation} {c : Call} {d : Deadline Operation}
    {resume : Except StoreError c.Result → Operation} {u : User} (h : f.Recorded config id n u)
    (hx : x.Upright config f.books.store) (hnext : x.next = .calling c d resume) :
    (f.called m now x c resume).Recorded config id n u := by
  rcases h with ⟨hget, e, he, hentry⟩
  refine ⟨?_, e, List.mem_append_left _ he, hentry⟩
  rcases Operation.cases_of_opening hx hnext with ⟨w, k, -, hof, hasks, -⟩ | ⟨-, hrecord, -⟩
  · cases hasks with
    | record v hphase =>
        simp only [called, Call.perform]
        rw [Store.history_putSnapshot]
        by_cases hid : id = w.identity.key
        · rw [if_pos hid, Table.get?_insert_eq]
          by_cases ht : u.createdAt.startOfHour = (w.firstSnapshot v).timestamp
          · rw [if_pos ht]
            exact congrArg some hof.startingCash
          · rw [if_neg ht, ← hid]
            exact hget
        · rw [if_neg hid]
          exact hget
    | look hphase | create v hphase | reread hphase =>
        simp only [called]
        rw [Call.history_perform _ _ rfl]
        exact hget
  · simp only [called]
    rw [Call.history_perform _ _ hrecord]
    exact hget

/-- The entry of a call that creates an account is that of an opening, which is about to write the
snapshot beside it. -/
theorem recording_of_opened? {m now : Nat} {x : Operation} {c : Call} {d : Deadline Operation}
    {resume : Except StoreError c.Result → Operation} {u : User}
    (hx : x.Upright config f.books.store) (hnext : x.next = .calling c d resume)
    (h : Entry.opened? id ⟨m, x, c, (c.perform f.books now).1⟩ = some u) :
    ∃ w, resume (c.perform f.books now).1 = .opening w ∧ w.identity.key = id ∧
      w.phase = .recording u := by
  rcases Operation.cases_of_opening hx hnext with
    ⟨w, k, rfl, hof, hasks, hresume⟩ | ⟨-, -, hcreate⟩
  · cases hasks with
    | create v hphase =>
        have hkey : v.id = w.identity.key := by
          have hcreating := hof.creating
          rw [hphase] at hcreating
          rcases hcreating with ⟨time, rfl⟩
          rfl
        simp only [Call.perform] at h ⊢
        rcases f.books.store.createUser_cases v with ⟨-, hr⟩ | hr
        · rw [hr] at h ⊢
          simp only [Entry.opened?] at h
          split_ifs at h with hid
          rw [← Option.some.inj h]
          exact ⟨_, hresume _, hkey.symm.trans hid, rfl⟩
        · rw [hr] at h
          exact absurd h (by simp only [Entry.opened?, reduceCtorEq, not_false_eq_true])
    | look hphase | record v hphase | reread hphase =>
        exact absurd h (by simp only [Entry.opened?, reduceCtorEq, not_false_eq_true])
  · rw [Entry.opened?_eq_none hcreate] at h
    exact absurd h (by simp only [reduceCtorEq, not_false_eq_true])

/-- A creator that makes a call writes the snapshot and ends. -/
theorem recorded_of_asks (f : Floor) (n now : Nat) {w : AccountOpening} {c : Call} {u : User}
    {k : Except StoreError c.Result → AccountOpening}
    (resume : Except StoreError c.Result → Operation) (hof : w.IsOf config) (hasks : w.Asks c k)
    (hphase : w.phase = .recording u) :
    (k (c.perform f.books now).1).phase = .finished (.ok u) ∧
      (f.called n now (.opening w) c resume).Recorded config w.identity.key n u := by
  cases hasks with
  | look h | create v h | reread h =>
      rw [hphase] at h
      exact absurd h (by simp only [reduceCtorEq, not_false_eq_true])
  | record v h =>
      obtain rfl : u = v := by
        rw [hphase] at h
        exact AccountOpening.Phase.recording.inj h
      refine ⟨rfl, ?_, _, List.mem_concat_self, rfl, ?_⟩
      · simp only [called, Call.perform]
        rw [Store.history_putSnapshot, if_pos rfl, ← hof.startingCash]
        exact Table.get?_insert_self _ _ _
      · simp only [AccountOpening.firstSnapshot, hof.startingCash]

/-- A creator and what it has written after a call, its own or that of another. -/
theorem founded_of_call {m now : Nat} {y : Operation} {c : Call} {d : Deadline Operation}
    {resume : Except StoreError c.Result → Operation} (hup : f.Upright config)
    (hf : f.Founded config) (hy : f.visits[m]? = some ⟨y, true⟩)
    (hnext : y.next = .calling c d resume) : (f.called m now y c resume).Founded config := by
  intro e he id u hopened
  rcases List.mem_append.1 he with he | hnew
  · rcases hf e he id u hopened with ⟨x, present, hx, hkey, hphase⟩
    by_cases hm : e.visitor = m
    · rw [hm] at hx hphase ⊢
      obtain rfl := (visit_unique hx hy).1
      rcases Operation.cases_of_opening (hup m _ hy) hnext with
        ⟨w, k, hw, hof, hasks, hresume⟩ | ⟨hnot, -⟩
      · obtain rfl := Operation.opening.inj hw
        rcases hphase with hrecording | ⟨hfinished, -⟩
        · rcases recorded_of_asks f m now resume hof hasks hrecording with ⟨hdone, hrecorded⟩
          rw [hkey] at hrecorded
          refine ⟨k (c.perform f.books now).1, true, ?_, ?_, Or.inr ⟨hdone, hrecorded⟩⟩
          · rw [called, getElem?_set_visit hy, hresume]
          · rw [AccountOpening.identity_of_asks hasks, hkey]
        · -- An opening that has ended makes no call.
          exact absurd hfinished (AccountOpening.phase_of_asks hasks _)
      · exact absurd rfl (hnot x)
    · refine ⟨x, present, ?_, hkey, hphase.imp_right fun h => ⟨h.1, h.2.of_call (hup m _ hy) hnext⟩⟩
      rw [called, getElem?_set_eq hy, if_neg hm, hx]
  · rw [List.mem_singleton.1 hnew] at hopened ⊢
    rcases recording_of_opened? (hup m _ hy) hnext hopened with ⟨w, hw, hkey, hphase⟩
    exact ⟨w, true, by rw [called, getElem?_set_visit hy, hw], hkey, Or.inl hphase⟩

theorem founded_of_move {a : Action} (hup : f.Upright config) (hf : f.Founded config)
    (h : Move config f a f') : f'.Founded config := by
  cases h with
  | call m now y c d resume hy hnext => exact founded_of_call hup hf hy hnext
  | enter e =>
      intro e he id u hopened
      rcases hf e he id u hopened with ⟨x, present, hx, hrest⟩
      refine ⟨x, present, ?_, hrest⟩
      rw [getElem?_concat_eq, if_neg (by have := (List.getElem?_eq_some_iff.1 hx).1; omega), hx]
  | hear m news y z hy hz =>
      intro e he id u hopened
      rcases hf e he id u hopened with ⟨x, present, hx, hkey, hphase⟩
      have hm : e.visitor ≠ m := by
        -- Creators do not listen to anything.
        intro hm
        rw [hm] at hx
        obtain rfl := (visit_unique hx hy).1
        rcases Operation.exists_of_hear? hz with ⟨w, hw, rfl⟩
        rcases AccountOpening.timing_of_hear? hw with ⟨htiming, -⟩
        rcases hphase with hrecording | ⟨hfinished, -⟩
        · rw [hrecording] at htiming
          exact absurd htiming (by simp only [reduceCtorEq, not_false_eq_true])
        · rw [hfinished] at htiming
          exact absurd htiming (by simp only [reduceCtorEq, not_false_eq_true])
      exact ⟨x, present, by rw [goOn, getElem?_set_eq hy, if_neg hm, hx], hkey, hphase⟩
  | leave m y hy =>
      intro e he id u hopened
      rcases hf e he id u hopened with ⟨x, present, hx, hrest⟩
      by_cases hm : e.visitor = m
      · rw [hm] at hx hrest ⊢
        rw [← (visit_unique hx hy).1]
        exact ⟨x, false, getElem?_set_visit hx _, hrest⟩
      · exact ⟨x, present, by rw [getElem?_set_eq hy, if_neg hm, hx], hrest⟩
  | sweep now => exact hf

theorem founded_of_run? {actions : List Action}
    (h : (opened config).run? config actions = some f) : f.Founded config := by
  refine (run?_induction (fun f => (f.Upright config ∧ f.Kept config) ∧ f.Founded config)
    (fun _ => True) (fun g a g' _ hg hmove => ?_) (fun _ _ => trivial) ?_ h).2
  · exact ⟨⟨upright_of_move hg.1.1 hmove, kept_of_effect hg.1.2 (effect_of_move hg.1.1 hmove)⟩,
      founded_of_move hg.1.1 hg.2 hmove⟩
  · exact ⟨⟨upright_opened config, kept_opened config⟩, fun e he => absurd he List.not_mem_nil⟩

/-- Any number of openings of accounts, for any identities, whose steps come in any order together
with trades and readings, and of which any may be given up. Under each id at most one account is
ever created. An opening that has ended has ended with a document of the key of its identity, as it
was stored at some moment while the opening was under way. No call of an opening changes a document
that is there, a log or a cached history. And once the opening that created an account has ended,
the snapshot of the hour of the creation is there, at the starting cash, and was written by it. -/
theorem account_of_run {before after : List Action}
    (hs : (opened config).run? config before = some s) (hf : s.run? config after = some f) :
    (∀ id, (f.openings id).length ≤ 1) ∧
    (∀ (n : Nat) (x y : AccountOpening) (present : Bool) (result : Except TradeError User),
      s.visits[n]? = some ⟨.opening x, true⟩ → x.phase = .looking →
      f.visits[n]? = some ⟨.opening y, present⟩ → y.phase = .finished result →
      ∃ u, result = .ok u ∧ u.id = x.identity.key ∧
        StoredDuring config s after x.identity.key u) ∧
    (∀ (n now : Nat) (x : AccountOpening) (g : Floor),
      f.visits[n]? = some ⟨.opening x, true⟩ → f.step? config (.call n now) = some g →
      (∀ id v, f.books.store.user? id = some v → g.books.store.user? id = some v) ∧
        g.books.store.logs = f.books.store.logs ∧ g.books.histories = f.books.histories) ∧
    ∀ e ∈ f.journal, ∀ id u, e.opened? id = some u →
      ∃ x present, f.visits[e.visitor]? = some ⟨.opening x, present⟩ ∧ x.identity.key = id ∧
        ∀ result, x.phase = .finished result → result = .ok u ∧
          ⟨u.createdAt.startOfHour, config.startingCash⟩ ∈ f.books.store.snapshots id ∧
          ∃ e' ∈ f.journal, e'.visitor = e.visitor ∧
            e'.call = .putSnapshot id ⟨u.createdAt.startOfHour, config.startingCash⟩ := by
  have hrun : (opened config).run? config (before ++ after) = some f := by
    rw [run?_append, hs, Option.bind_some, hf]
  rcases kept_of_run? hrun with ⟨hup, hkept⟩
  refine ⟨?_, ?_, ?_, ?_⟩
  · intro id
    cases hv : f.books.store.user? id with
    | none =>
        rw [(hkept.absent id hv).1]
        exact Nat.zero_le 1
    | some v =>
        rcases hkept.stored id v hv with ⟨u, hu⟩
        rw [hu.openings]
        exact le_refl 1
  · intro n x y present result hx hlooking hy hfinished
    rcases shown_of_run? hs hf hx hlooking with ⟨z, present', hz, hi, hshows⟩
    obtain rfl := Operation.opening.inj (visit_unique hy hz).1
    unfold AccountOpening.Shows at hshows
    rw [hfinished, hi] at hshows
    cases result with
    | error e => exact hshows.elim
    | ok u => exact ⟨u, rfl, hshows⟩
  · intro n now x g hx hstep
    cases step?_eq_some hstep with
    | call _ _ y c d resume hy hnext =>
      obtain rfl := (visit_unique hx hy).1
      rcases Operation.cases_of_opening (hup n _ hx) hnext with
        ⟨w, k, -, -, hasks, -⟩ | ⟨hnot, -⟩
      · exact AccountOpening.leaves_of_asks hasks f.books now
      · exact absurd rfl (hnot x)
  · intro e he id u hopened
    rcases founded_of_run? hrun e he id u hopened with ⟨x, present, hx, hkey, hphase⟩
    refine ⟨x, present, hx, hkey, fun result hfinished => ?_⟩
    rw [hfinished] at hphase
    rcases hphase with hrecording | ⟨hdone, hget, hwritten⟩
    · exact absurd hrecording (by simp only [reduceCtorEq, not_false_eq_true])
    · exact ⟨AccountOpening.Phase.finished.inj hdone, Store.mem_snapshots_iff.2 hget, hwritten⟩

/-- Two callers come for the same account. -/
def contending : List Action :=
  [.enter (.account ⟨"alice", "Alice", ""⟩), .enter (.account ⟨"alice", "Alicia", ""⟩)]

/-- Both find no account, and the second creates it. Somebody buys on it before the first learns
that it is too late. -/
def contended : List Action :=
  [.call 0 0, .call 1 0, .hear 0 (.clock ⟨0, ⟨4000, 0⟩⟩), .hear 1 (.clock ⟨0, ⟨4001, 0⟩⟩), .call 1 0,
    .enter (.trade 0 "alice" ⟨.buy, "BTC", some (.ofUnits 1)⟩ false),
    .hear 2 (.price (.ok (.ofUnits 30000))), .hear 2 (.clock ⟨1, ⟨4002, 0⟩⟩), .call 2 1, .call 2 1,
    .call 0 2, .call 0 2, .call 1 3]

/-- The first is given the document as the purchase left it, and the second has written the snapshot
of the hour. -/
theorem account_of_run_contending :
    ∃ s f y u, (opened .standard).run? .standard contending = some s ∧
      s.run? .standard contended = some f ∧
      f.visits[0]? = some ⟨.opening y, true⟩ ∧ y.phase = .finished (.ok u) ∧
      u.displayName = "Alicia" ∧ u.portfolio.cash = .ofUnits 70000 ∧ u.id = "alice" ∧
      StoredDuring .standard s contended "alice" u ∧ (f.openings "alice").length ≤ 1 ∧
      (⟨⟨3600, 0⟩, .ofUnits 100000⟩ : Snapshot) ∈ f.books.store.snapshots "alice" := by
  obtain ⟨s, f, y, u, e, u', x, hs, hf, hlooking, hy, hphase, hname, hcash, he, hopened, hx, hdone,
      hhour⟩ : ∃ s f y u e u' x, (opened .standard).run? .standard contending = some s ∧
        s.run? .standard contended = some f ∧
        s.visits[0]? = some ⟨.opening (.start .standard ⟨"alice", "Alice", ""⟩), true⟩ ∧
        f.visits[0]? = some ⟨.opening y, true⟩ ∧ y.phase = .finished (.ok u) ∧
        u.displayName = "Alicia" ∧ u.portfolio.cash = .ofUnits 70000 ∧
        f.journal[2]? = some e ∧ e.opened? "alice" = some u' ∧
        f.visits[e.visitor]? = some ⟨.opening x, true⟩ ∧ x.phase = .finished (.ok u') ∧
        u'.createdAt.startOfHour = ⟨3600, 0⟩ :=
    ⟨_, _, _, _, _, _, _, rfl, rfl, rfl, rfl, rfl, rfl, by decide +kernel, rfl, rfl, rfl, rfl, rfl⟩
  rcases account_of_run hs hf with ⟨hone, hends, -, hrecorded⟩
  rcases hends 0 _ y true (.ok u) hlooking rfl hy hphase with ⟨u₀, hu, hid, hstored⟩
  rw [← Except.ok.inj hu] at hid hstored
  rcases hrecorded e (List.mem_of_getElem? he) "alice" u' hopened with ⟨z, present, hz, -, hsnapshot⟩
  obtain rfl := Operation.opening.inj (visit_unique hx hz).1
  rcases hsnapshot _ hdone with ⟨-, hmem, -⟩
  rw [hhour] at hmem
  exact ⟨s, f, y, u, hs, hf, hy, hphase, hname, hcash, hid, hstored, hone "alice", hmem⟩

end Floor

end Bourse
