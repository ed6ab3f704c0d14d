import Bourse.Proofs.Floor.Openings
import Bourse.Proofs.Time.Hours
import Bourse.Proofs.Trading.Replay
import Bourse.Proofs.Valuation.Paging

/-!
# Hours on the Floor

Of all who come to the floor, only those who open accounts write snapshots, and each
writes one: at the start of the hour of the time that the account was made up at. So
as long as all clocks show plain times, snapshots are of whole hours.

This holds over whatever books the floor is opened, if it held of the books before. In
the same way documents stay under their own ids, because a trade stores the document
that it has read, changed. And whoever had an account before the floor was opened keeps
the history as it was.

## Main definitions

* `Store.Hourly`: all snapshots are of whole hours.
* `AccountOpening.Dated`: an account is made up at a plain time.
* `Floor.Orderly`: what is known of a floor over such books.
* `Store.Opened`: an account that was opened between two states of the documents.
* `Floor.Sparing`: snapshots are written only of users whose accounts were opened meanwhile.

## Theorems

* `Floor.orderly_of_move`, `Floor.orderly_of_run`: the floor stays orderly.
* `Floor.sparing_of_move`, `Floor.sparing_of_run`: it stays sparing.
-/

namespace Bourse

namespace Store

/-- All snapshots are of whole hours. -/
def Hourly (s : Store) : Prop := ∀ id t v, (s.history id).get? t = some v → t.IsHour

variable {s s' : Store}

theorem Hourly.of_history_eq (h : s.Hourly) (heq : ∀ id, s'.history id = s.history id) :
    s'.Hourly := by
  intro id t v hv
  rw [heq] at hv
  exact h id t v hv

theorem Hourly.putSnapshot (h : s.Hourly) (id : String) {v : Snapshot}
    (hv : v.timestamp.IsHour) : (s.putSnapshot id v).Hourly := by
  intro j t w hw
  rw [history_putSnapshot] at hw
  split at hw
  · rw [Table.get?_insert_eq] at hw
    split at hw
    · next ht =>
      rw [ht]
      exact hv
    · exact h id t w hw
  · exact h j t w hw

theorem Grown.trans {s'' : Store} (h : s.Grown s') (h' : s'.Grown s'') : s.Grown s'' := by
  intro id v hv
  rcases h id v hv with ⟨v', hv', hle, hsame⟩
  rcases h' id v' hv' with ⟨v'', hv'', hle', hsame'⟩
  refine ⟨v'', hv'', hle.trans hle', fun hversion => ?_⟩
  -- Where the version is the same in the end, it was the same all the time.
  have hold : v''.version = v'.version := by omega
  rw [hsame' hold]
  exact hsame (by omega)

/-- Whether an account was opened between two states of the documents. -/
def Opened (s s' : Store) (id : String) : Prop :=
  s.user? id = none ∧ ∃ v, s'.user? id = some v

theorem Opened.mono {s'' : Store} {id : String} (h : s.Opened s' id) (hs : s'.Grown s'') :
    s.Opened s'' id := by
  rcases h with ⟨hnone, v, hv⟩
  rcases hs id v hv with ⟨v', hv', -⟩
  exact ⟨hnone, v', hv'⟩

theorem Opened.of_grown {s'' : Store} {id : String} (h : s'.Opened s'' id) (hs : s.Grown s') :
    s.Opened s'' id := by
  refine ⟨?_, h.2⟩
  cases hv : s.user? id with
  | none => rfl
  | some v =>
      rcases hs id v hv with ⟨v', hv', -⟩
      exact absurd (h.1.symm.trans hv') (Option.some_ne_none _).symm

end Store

namespace AccountOpening

/-- An account that is about to be created, or has been, was made up at a plain time. -/
def Dated (x : AccountOpening) : Prop :=
  match x.phase with
  | .creating u | .recording u => u.createdAt.IsPlain
  | _ => True

variable {x y : AccountOpening} {c : Call} {resume : Except StoreError c.Result → AccountOpening}

theorem dated_of_hear? {news : News} (hnews : ∀ m, news = .clock m → m.time.IsPlain)
    (h : (@next UserValuation x).hear? news = some y) : y.Dated := by
  have hphase := (timing_of_hear? h).1
  rw [next, hphase] at h
  cases news with
  | clock m =>
      rw [← Option.some.inj h]
      exact hnews m rfl
  | price answer | late => cases h

/-- What is created is stored as it was made up. -/
theorem dated_of_asks (hx : x.Dated) (h : x.Asks c resume) (b : Books) (now : Nat) :
    (resume (c.perform b now).1).Dated := by
  cases h with
  | look hphase | reread hphase =>
      simp only [Call.perform]
      cases b.store.user? x.identity.key <;> exact trivial
  | create u hphase =>
      simp only [Call.perform]
      rcases b.store.createUser_cases u with ⟨-, hr⟩ | hr
      · rw [hr]
        rw [Dated, hphase] at hx
        exact hx
      · rw [hr]
        exact trivial
  | record u hphase => exact trivial

/-- A call of an opening leaves snapshots of whole hours only. -/
theorem hourly_of_asks (hx : x.Dated) (h : x.Asks c resume) {b : Books} (now : Nat)
    (hb : b.store.Hourly) : (c.perform b now).2.store.Hourly := by
  cases h with
  | look hphase | reread hphase | create u hphase =>
      exact hb.of_history_eq (Call.history_perform b now rfl)
  | record u hphase =>
      rw [Dated, hphase] at hx
      exact hb.putSnapshot _ (Timestamp.isHour_startOfHour hx)

/-- Whoever is about to write a snapshot after a call has just opened the account. -/
theorem opened_of_asks {config : TradingConfig} {s : Store} {b : Books} {now : Nat} {u : User}
    (hx : x.IsOf config) (h : x.Asks c resume) (hgrown : s.Grown b.store)
    (hphase : (resume (c.perform b now).1).phase = .recording u) :
    s.Opened (c.perform b now).2.store x.identity.key := by
  cases h with
  | look _ | reread _ =>
      simp only [Call.perform] at hphase
      cases hread : b.store.user? x.identity.key with
      | none | some v =>
          rw [hread] at hphase
          cases hphase
  | record _ _ => cases hphase
  | create u' hcreating =>
      have hkey : u'.id = x.identity.key := by
        have hmade := hx.creating
        rw [hcreating] at hmade
        rcases hmade with ⟨time, rfl⟩
        rfl
      simp only [Call.perform] at hphase ⊢
      -- Only one who finds no document there creates one.
      rcases b.store.createUser_cases u' with ⟨hfree, hr⟩ | hr
      · rw [hr, ← hkey]
        have hnew : b.store.Opened { b.store with users := b.store.users.insert u'.id ⟨1, u'⟩ } u'.id :=
          ⟨hfree, ⟨1, u'⟩, by rw [Store.user?_insert, if_pos rfl]⟩
        exact hnew.of_grown hgrown
      · rw [hr] at hphase
        cases hphase

/-- A call of an opening leaves all histories but the one that it is about to write to. -/
theorem history_of_asks (h : x.Asks c resume) (b : Books) (now : Nat) (id : String) :
    (c.perform b now).2.store.history id = b.store.history id ∨
      ∃ u, x.phase = .recording u ∧ x.identity.key = id := by
  cases h with
  | look _ | reread _ | create _ _ => exact .inl (Call.history_perform b now rfl id)
  | record u hphase =>
      by_cases hid : id = x.identity.key
      · exact .inr ⟨u, hphase, hid.symm⟩
      · simp only [Call.perform]
        rw [Store.history_putSnapshot, if_neg hid]
        exact .inl rfl

end AccountOpening

namespace Operation

/-- Nobody else becomes the opening of an account. -/
theorem opening_of_calling {x : Operation} {c : Call} {d : Deadline Operation}
    {resume : Except StoreError c.Result → Operation} {r : Except StoreError c.Result}
    {y : AccountOpening} (h : x.next = .calling c d resume) (hy : resume r = .opening y) :
    ∃ w k, x = .opening w ∧ w.Asks c k ∧ y = k r := by
  cases x with
  | opening w =>
      rcases Progress.calling_of_map h with ⟨d', k, hk, hresume⟩
      rw [hresume] at hy
      exact ⟨w, k, rfl, AccountOpening.asks_of_next hk, (Operation.opening.inj hy).symm⟩
  | _ =>
      rcases Progress.calling_of_map h with ⟨d', k, -, hresume⟩
      rw [hresume] at hy
      cases hy

/-- A call of a visitor leaves documents under their own ids. -/
theorem ownIds_of_calling {config : TradingConfig} {x : Operation} {c : Call} {d : Deadline Operation}
    {resume : Except StoreError c.Result → Operation} {b : Books} (hx : x.Upright config b.store)
    (h : x.next = .calling c d resume) (now : Nat) (hb : b.store.OwnIds) :
    (c.perform b now).2.store.OwnIds := by
  rcases cases_of_calling hx h now with
    ⟨hread, -, -⟩ | ⟨w, price, m, version, u, rfl, hphase, rfl, -⟩ | ⟨w, time, -, -, rfl, -⟩
  · exact hb.of_user?_eq (Call.user?_perform b now hread)
  · -- The copy that a trade stores is the document of that version after the trade.
    refine hb.compareAndSet (fun v hv hversion => ?_)
    have hbased : w.Based b.store := hx
    rw [Execution.Based, hphase] at hbased
    rcases hbased with ⟨v', hv', -, hamend⟩
    rw [hv] at hv'
    have hu := hamend (Option.some.inj hv' ▸ hversion)
    rw [Execution.amend_eq_trade w price m.time v'.value v'.value.portfolio] at hu
    rcases User.trade_eq_ok hu with ⟨p, -, rfl⟩
    rw [← Option.some.inj hv']
    exact hb w.user v hv
  · exact hb.createUser _

end Operation

/-- Whether a clock that is read shows a plain time. -/
def Action.IsPlain : Action → Prop
  | hear _ (.clock m) => m.time.IsPlain
  | _ => True

instance : DecidablePred Action.IsPlain := fun a => by
  unfold Action.IsPlain
  split <;> infer_instance

namespace Floor

variable {config : TradingConfig} {f f' : Floor}

/-- Visitors are upright, accounts are made up at plain times, documents are under their own ids
and snapshots are of whole hours. -/
structure Orderly (config : TradingConfig) (f : Floor) : Prop where
  upright : f.Upright config
  dated : ∀ (n : Nat) (x : AccountOpening) (present : Bool),
    f.visits[n]? = some ⟨.opening x, present⟩ → x.Dated
  ids : f.books.store.OwnIds
  hours : f.books.store.Hourly

/-- The floor stays orderly. -/
theorem orderly_of_move {a : Action} (ha : a.IsPlain) (hf : f.Orderly config)
    (hmove : Move config f a f') : f'.Orderly config := by
  have hupright := upright_of_move hf.upright hmove
  cases hmove with
  | enter e =>
      refine ⟨hupright, fun n x present hx => ?_, hf.ids, hf.hours⟩
      rw [getElem?_concat_eq] at hx
      split at hx
      · cases e <;> cases hx
        exact trivial
      · exact hf.dated n x present hx
  | hear n news x y hx hy =>
      refine ⟨hupright, fun k z present hz => ?_, hf.ids, hf.hours⟩
      rcases of_getElem?_set hz with hz | hz
      · obtain rfl := (Visit.mk.inj hz).1
        cases x with
        | opening w =>
            rcases Operation.exists_of_hear? hy with ⟨w', hw', heq⟩
            rw [Operation.opening.inj heq]
            refine AccountOpening.dated_of_hear? (fun m hm => ?_) hw'
            rw [hm] at ha
            exact ha
        | _ =>
            rcases Operation.exists_of_hear? hy with ⟨w', -, heq⟩
            cases heq
      · exact hf.dated k z present hz
  | call n now x c d resume hx hnext =>
      have hx' := hf.upright n _ hx
      refine ⟨hupright, fun k z present hz => ?_,
        Operation.ownIds_of_calling hx' hnext now hf.ids, ?_⟩
      · rcases of_getElem?_set hz with hz | hz
        · rcases Operation.opening_of_calling hnext (Visit.mk.inj hz).1.symm with
            ⟨w, l, rfl, hasks, rfl⟩
          exact AccountOpening.dated_of_asks (hf.dated n w true hx) hasks f.books now
        · exact hf.dated k z present hz
      · rcases Operation.cases_of_opening hx' hnext with ⟨w, l, rfl, -, hasks, -⟩ | ⟨-, hrecord, -⟩
        · exact AccountOpening.hourly_of_asks (hf.dated n w true hx) hasks now hf.hours
        · exact hf.hours.of_history_eq (Call.history_perform f.books now hrecord)
  | leave n x hx =>
      refine ⟨hupright, fun k z present hz => ?_, hf.ids, hf.hours⟩
      rcases of_getElem?_set hz with hz | hz
      · obtain rfl := (Visit.mk.inj hz).1
        exact hf.dated n z true hx
      · exact hf.dated k z present hz
  | sweep now => exact ⟨hupright, hf.dated, hf.ids, hf.hours⟩

/-- Over orderly books the floor is orderly after any steps. -/
theorem orderly_of_run {b : Books} {actions : List Action} (hids : b.store.OwnIds)
    (hhours : b.store.Hourly) (hplain : ∀ a ∈ actions, a.IsPlain)
    (h : Floor.run? config ⟨b, [], []⟩ actions = some f) : f.Orderly config := by
  refine run?_induction (Orderly config) Action.IsPlain
    (fun _ _ _ ha hf hmove => orderly_of_move ha hf hmove) hplain ⟨?_, ?_, hids, hhours⟩ h
  · intro n w hw
    exact absurd hw (by simp only [List.getElem?_nil, reduceCtorEq, not_false_eq_true])
  · intro n x present hx
    exact absurd hx (by simp only [List.getElem?_nil, reduceCtorEq, not_false_eq_true])

/-! ## Histories of those who were there -/

/-- Since the floor was opened over some books, snapshots were written only of users whose accounts
were opened meanwhile. -/
structure Sparing (b : Books) (f : Floor) : Prop where
  grown : b.store.Grown f.books.store
  recording : ∀ (n : Nat) (x : AccountOpening) (present : Bool) (u : User),
    f.visits[n]? = some ⟨.opening x, present⟩ → x.phase = .recording u →
    b.store.Opened f.books.store x.identity.key
  histories : ∀ id, f.books.store.history id = b.store.history id ∨
    b.store.Opened f.books.store id

theorem sparing_of_call {b : Books} {n now : Nat} {x : Operation} {c : Call} {d : Deadline Operation}
    {resume : Except StoreError c.Result → Operation} (hup : f.Upright config)
    (hx : f.visits[n]? = some ⟨x, true⟩) (hnext : x.next = .calling c d resume)
    (hf : f.Sparing b) : (f.called n now x c resume).Sparing b := by
  have hgrown := Call.grown_perform f.books now c
  refine ⟨hf.grown.trans hgrown, fun k z present u hz hphase => ?_, fun id => ?_⟩
  · rcases of_getElem?_set hz with hz | hz
    · rcases Operation.opening_of_calling hnext (Visit.mk.inj hz).1.symm with
        ⟨w, l, rfl, hasks, rfl⟩
      rw [AccountOpening.identity_of_asks hasks]
      exact AccountOpening.opened_of_asks (hup n _ hx) hasks hf.grown hphase
    · exact (hf.recording k z present u hz hphase).mono hgrown
  · -- Only an opening writes a snapshot, after it has created the account.
    rcases Operation.cases_of_opening (hup n _ hx) hnext with ⟨w, l, rfl, -, hasks, -⟩ | ⟨-, hrecord, -⟩
    · rcases AccountOpening.history_of_asks hasks f.books now id with hsame | ⟨u, hphase, rfl⟩
      · simp only [called]
        rw [hsame]
        exact (hf.histories id).imp_right (fun hopened => hopened.mono hgrown)
      · exact .inr ((hf.recording n w true u hx hphase).mono hgrown)
    · simp only [called]
      rw [Call.history_perform f.books now hrecord]
      exact (hf.histories id).imp_right (fun hopened => hopened.mono hgrown)

theorem sparing_of_move {b : Books} {a : Action} (hup : f.Upright config) (hf : f.Sparing b)
    (hmove : Move config f a f') : f'.Sparing b := by
  cases hmove with
  | enter e =>
      refine ⟨hf.grown, fun n x present u hx hphase => ?_, hf.histories⟩
      rw [getElem?_concat_eq] at hx
      split at hx
      · cases e <;> cases hx
        cases hphase
      · exact hf.recording n x present u hx hphase
  | hear n news x y hx hy =>
      refine ⟨hf.grown, fun k z present u hz hphase => ?_, hf.histories⟩
      rcases of_getElem?_set hz with hz | hz
      · obtain rfl := (Visit.mk.inj hz).1
        cases x with
        | opening w =>
            rcases Operation.exists_of_hear? hy with ⟨w', hw', heq⟩
            rcases (AccountOpening.timing_of_hear? hw').2 with ⟨m, hm⟩
            rw [Operation.opening.inj heq, hm] at hphase
            cases hphase
        | _ =>
            rcases Operation.exists_of_hear? hy with ⟨w', -, heq⟩
            cases heq
      · exact hf.recording k z present u hz hphase
  | call n now x c d resume hx hnext => exact sparing_of_call hup hx hnext hf
  | leave n x hx =>
      refine ⟨hf.grown, fun k z present u hz hphase => ?_, hf.histories⟩
      rcases of_getElem?_set hz with hz | hz
      · obtain rfl := (Visit.mk.inj hz).1
        exact hf.recording n z true u hx hphase
      · exact hf.recording k z present u hz hphase
  | sweep now => exact ⟨hf.grown, hf.recording, hf.histories⟩

/-- Since the floor was opened, snapshots were written only of users whose accounts were opened
meanwhile. -/
theorem sparing_of_run {b : Books} {actions : List Action}
    (h : Floor.run? config ⟨b, [], []⟩ actions = some f) : f.Sparing b := by
  have hall : f.Upright config ∧ f.Sparing b := by
    refine run?_induction (fun f => f.Upright config ∧ f.Sparing b) (fun _ => True)
      (fun _ _ _ _ hf hmove => ⟨upright_of_move hf.1 hmove, sparing_of_move hf.1 hf.2 hmove⟩)
      (fun _ _ => trivial) ⟨?_, Store.grown_of_user?_eq (fun _ => rfl), ?_, fun _ => .inl rfl⟩ h
    · intro n w hw
      exact absurd hw (by simp only [List.getElem?_nil, reduceCtorEq, not_false_eq_true])
    · intro n x present u hx
      exact absurd hx (by simp only [List.getElem?_nil, reduceCtorEq, not_false_eq_true])
  exact hall.2

end Floor

end Bourse
