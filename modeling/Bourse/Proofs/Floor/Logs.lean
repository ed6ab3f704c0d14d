import Bourse.Proofs.Floor.Booking
import Bourse.Proofs.Floor.Commits

/-!
# The Trade Logs

What is in a trade log, whatever order the steps of any number of visitors come in. A
log holds the newest of the entries that were ever added to it, and at least as many
of them as a log is pruned to.

What was added is what was committed, once all trades are done. A trade says in its
state whether it has been committed and whether it has written its entry, and agrees
in both with the journal at every moment. When no trade of a user is under way the
two are the same, for every visitor; so the entries added and the trades committed
are the same, though they need not have come in the same order.

A log that every trade prunes may be too long for a while. Then one of the trades
that made it so has yet to prune it, which is `Floor.Owing`.

## Main definitions

* `Execution.Owes`, `Floor.Owing`: trades that may leave a log too long.
* `Floor.AtRest`: no trade of a user is under way.
* `Floor.AlwaysPruned`: every trade of a user prunes the log.
* `Floor.Logged`, `Floor.Booked`: what is known of the logs.

## Theorems

* `Execution.removed_of_asks`, `Execution.owes_of_asks`: what a call of a trade does to a log.
* `logged_of_move`: no step breaks what is known of a log.
* `booked_of_run?`: what is known of the logs after any run.
* `log_of_run`: the log of a user at any moment, and when all trades are done.
-/

namespace Bourse

namespace Execution

/-- A trade that may have made the log of its user too long, and has yet to prune it or never
will. -/
def Owes (id : String) (x : Execution) : Prop :=
  x.user = id ∧ (x.prunes = false ∨ ∃ o, x.phase = .invalidating o ∨ x.phase = .pruning o)

/-- What a trade removes from a log is what is too much of it. -/
theorem removed_of_asks {x : Execution} {c : Call}
    {resume : Except StoreError c.Result → Execution} (h : x.Asks c resume) (b : Books) (now : Nat)
    (id : String) :
    c.removed id (c.perform b now).1 = 0 ∨
      (c.appended id = [] ∧
        c.removed id (c.perform b now).1 ≤
          (b.store.log id).length - x.config.maxTradeHistory) := by
  cases h with
  | prune o hphase =>
      simp only [Call.perform, Call.removed, Store.pruneTrades_fst]
      by_cases hid : x.user = id
      · rw [if_pos hid, hid]
        exact Or.inr ⟨rfl, le_refl _⟩
      · exact Or.inl (if_neg hid)
  | _ => exact Or.inl rfl

theorem Owes.of_same {x y : Execution} {id : String} (h : x.Owes id) (hsame : x.Same y)
    (hopen : ∀ o, x.phase ≠ .invalidating o ∧ x.phase ≠ .pruning o) : y.Owes id := by
  rcases h with ⟨huser, hprunes | ⟨o, ho | ho⟩⟩
  · exact ⟨hsame.user.trans huser, Or.inl (hsame.prunes.trans hprunes)⟩
  · exact absurd ho (hopen o).1
  · exact absurd ho (hopen o).2

/-- A trade that makes a log longer owes it a pruning from then on, until it has pruned it. -/
theorem owes_of_asks {x : Execution} {c : Call} {resume : Except StoreError c.Result → Execution}
    (h : x.Asks c resume) (b : Books) (now : Nat) (id : String) :
    ((c.perform b now).2.store.log id).length ≤ x.config.maxTradeHistory ∨
      ((c.appended id = [] ∨ (resume (c.perform b now).1).Owes id) ∧
        (x.Owes id → (resume (c.perform b now).1).Owes id)) := by
  have hsame := same_of_asks h (c.perform b now).1
  cases h with
  | document price m hphase =>
      refine Or.inr ⟨Or.inl rfl, fun howes => howes.of_same hsame (fun o => ?_)⟩
      rw [hphase]
      exact ⟨Phase.noConfusion, Phase.noConfusion⟩
  | commit price m version u hphase =>
      refine Or.inr ⟨Or.inl rfl, fun howes => howes.of_same hsame (fun o => ?_)⟩
      rw [hphase]
      exact ⟨Phase.noConfusion, Phase.noConfusion⟩
  | log o hphase =>
      refine Or.inr ⟨?_, fun howes => ⟨howes.1, Or.inr ⟨o, Or.inl rfl⟩⟩⟩
      by_cases hid : x.user = id
      · exact Or.inr ⟨hid, Or.inr ⟨o, Or.inl rfl⟩⟩
      · exact Or.inl (if_neg hid)
  | invalidate o hphase =>
      refine Or.inr ⟨Or.inl rfl, fun howes => ⟨howes.1, ?_⟩⟩
      cases hp : x.prunes with
      | true => exact Or.inr ⟨o, Or.inr rfl⟩
      | false => exact Or.inl hp
  | prune o hphase =>
      by_cases hid : x.user = id
      · left
        simp only [Call.perform]
        rw [Store.log_pruneTrades, if_pos hid, Store.pruneTrades_fst, hid, List.length_drop]
        omega
      · exact Or.inr ⟨Or.inl rfl, fun howes => absurd howes.1 hid⟩

end Execution

/-- Whether a visitor is a trade of a user that owes the log a pruning. -/
def Operation.Owes (id : String) : Operation → Prop
  | execution x => x.Owes id
  | _ => False

/-- Whether a trade is over. -/
def Execution.isOver (x : Execution) : Bool :=
  match x.phase with
  | .finished _ => true
  | _ => false

/-- Whether a visitor is no trade of a user that is under way: one that is over, or that was given
up before it was committed, or no trade of the user at all. -/
def Visit.rests (id : String) : Visit → Bool
  | ⟨.execution x, present⟩ => x.user ≠ id || x.isOver || (!present && x.committed?.isNone)
  | _ => true

/-- Whether a visitor is no trade of a user that leaves the log unpruned. -/
def Visit.prunes (id : String) : Visit → Bool
  | ⟨.execution x, _⟩ => x.user ≠ id || x.prunes
  | _ => true

theorem Visit.logged?_of_rests {id : String} {x : Execution} {present : Bool}
    (h : Visit.rests id ⟨.execution x, present⟩ = true) (hx : x.user = id) :
    x.logged? = x.committed? := by
  by_cases hcommitted : x.committed? = none
  · rw [hcommitted, Execution.logged?_of_not_committed hcommitted]
  · have hover : x.isOver = true := by
      simp only [rests, hx, ne_eq, not_true_eq_false, decide_false, Bool.false_or,
        Bool.or_eq_true, Bool.and_eq_true, Option.isNone_iff_eq_none, hcommitted, and_false,
        or_false] at h
      exact h
    unfold Execution.isOver at hover
    split at hover
    · next r hr =>
      rw [Execution.logged?, Execution.committed?, hr]
      cases r with
      | ok o => rfl
      | error e => rfl
    · exact absurd hover Bool.false_ne_true

theorem count_of_filter {β : Type} [DecidableEq β] (l : List (Nat × β)) (n : Nat) (b : β) :
    ((l.filter (fun e => e.1 = n)).map (·.2)).count b = l.count (n, b) := by
  induction l with
  | nil => rfl
  | cons e rest ih =>
      rcases e with ⟨m, a⟩
      by_cases hm : m = n
      · simp only [hm, decide_true, List.filter_cons_of_pos, List.map_cons, List.count_cons, ih,
          Prod.mk.injEq, beq_iff_eq, true_and]
      · simp only [hm, decide_false, Bool.false_eq_true, not_false_eq_true,
          List.filter_cons_of_neg, ih, List.count_cons, beq_iff_eq, Prod.mk.injEq, false_and,
          if_false, Nat.add_zero]

/-- Two lists in which everybody has the same part are the same but for the order. -/
theorem perm_of_filter_eq {β : Type} [DecidableEq β] {l l' : List (Nat × β)}
    (h : ∀ n, (l.filter (fun e => e.1 = n)).map (·.2) = (l'.filter (fun e => e.1 = n)).map (·.2)) :
    l.Perm l' := by
  rw [List.perm_iff_count]
  rintro ⟨n, b⟩
  rw [← count_of_filter l, ← count_of_filter l', h n]

namespace Floor

open Journal

variable {config : TradingConfig} {f f' : Floor} {id : String}

/-- The log entries that a visitor has written for a user, by the visitor's own state. -/
def logged (f : Floor) (id : String) (n : Nat) : List TradeRecord :=
  match f.visits[n]? with
  | some w => w.operation.logged id
  | none => []

/-- Somebody owes the log of a user a pruning, present or not. -/
def Owing (f : Floor) (id : String) : Prop :=
  ∃ (n : Nat) (w : Visit), f.visits[n]? = some w ∧ w.operation.Owes id

/-- No trade of a user is under way, and none was given up after its commit. -/
def AtRest (f : Floor) (id : String) : Prop :=
  ∀ w ∈ f.visits, w.rests id = true

/-- Every trade of a user prunes the log. -/
def AlwaysPruned (f : Floor) (id : String) : Prop :=
  ∀ w ∈ f.visits, w.prunes id = true

instance (f : Floor) (id : String) : Decidable (f.AtRest id) :=
  inferInstanceAs (Decidable (∀ w ∈ f.visits, w.rests id = true))

instance (f : Floor) (id : String) : Decidable (f.AlwaysPruned id) :=
  inferInstanceAs (Decidable (∀ w ∈ f.visits, w.prunes id = true))

/-- All trades have the settings of a configuration. -/
def Configured (config : TradingConfig) (f : Floor) : Prop :=
  ∀ (n : Nat) (x : Execution) (present : Bool),
    f.visits[n]? = some ⟨.execution x, present⟩ → x.config = config

/-- What is known of the log of a user: it is as long as it has to be, the visitors agree with the
journal on what they have written, and if it is too long then somebody has yet to prune it. -/
structure Logged (config : TradingConfig) (f : Floor) (id : String) : Prop where
  kept : min config.maxTradeHistory (loggings id f.journal).length ≤ (f.books.store.log id).length
  shares : ∀ n, ((loggings id f.journal).filter (fun e => e.1 = n)).map (·.2) = f.logged id n
  bounded : (f.books.store.log id).length ≤ config.maxTradeHistory ∨ f.Owing id

theorem configured_opened (config : TradingConfig) : (opened config).Configured config := by
  intro n x present hx
  exact absurd hx (by simp only [opened, List.getElem?_nil, reduceCtorEq, not_false_eq_true])

/-- No step changes the settings of a trade. -/
theorem configured_of_move {a : Action} (hup : f.Upright config) (hf : f.Configured config)
    (h : Move config f a f') : f'.Configured config := by
  cases h with
  | enter e =>
      intro k w present hw
      rw [getElem?_concat_eq] at hw
      split_ifs at hw
      · rcases Visit.mk.inj (Option.some.inj hw) with ⟨he, -⟩
        cases e with
        | trade now user request prunes =>
            rw [← Operation.execution.inj he]
            exact (Execution.fields_start config now user request prunes).2.2.1
        | _ => exact Operation.noConfusion he
      · exact hf k w present hw
  | hear n news x y hx hy =>
      intro k w present hw
      rcases of_getElem?_set hw with heq | hw
      · rcases Operation.cases_of_hear? (hup n _ hx) hy with
          ⟨v, v', rfl, rfl, hsame, -⟩ | ⟨-, hapart⟩
        · rcases Visit.mk.inj heq with ⟨he, -⟩
          rw [Operation.execution.inj he, hsame.config]
          exact hf n v true hx
        · rw [← (Visit.mk.inj heq).1] at hapart
          exact Bool.noConfusion hapart
      · exact hf k w present hw
  | call n now x c d resume hx hnext =>
      intro k w present hw
      rcases of_getElem?_set hw with heq | hw
      · have he := (Visit.mk.inj heq).1
        rcases Operation.cases_of_booking (hup n _ hx) hnext with
          ⟨v, next, rfl, hasks, hresume⟩ | ⟨v, next, -, -, hresume⟩ | ⟨-, -, hapart⟩
        · rw [hresume] at he
          rw [Operation.execution.inj he, (Execution.same_of_asks hasks _).config]
          exact hf n v true hx
        · rw [hresume] at he
          exact Operation.noConfusion he
        · have := hapart (c.perform f.books now).1
          rw [← he] at this
          exact Bool.noConfusion this
      · exact hf k w present hw
  | leave n x hx =>
      intro k w present hw
      rcases of_getElem?_set hw with heq | hw
      · rcases Visit.mk.inj heq with ⟨rfl, -⟩
        exact hf n w true hx
      · exact hf k w present hw
  | sweep now => exact hf

theorem logged_of_set {n : Nat} {v w : Visit} (hw : f.visits[n]? = some w)
    (hset : f'.visits = f.visits.set n v) (id : String) (k : Nat) :
    f'.logged id k = if k = n then v.operation.logged id else f.logged id k := by
  unfold logged
  rw [hset, getElem?_set_eq hw]
  by_cases hk : k = n
  · rw [if_pos hk, if_pos hk]
  · rw [if_neg hk, if_neg hk]

theorem owing_of_set {n : Nat} {v w : Visit} (hw : f.visits[n]? = some w)
    (hset : f'.visits = f.visits.set n v) (h : w.operation.Owes id → v.operation.Owes id)
    (hf : f.Owing id) : f'.Owing id := by
  rcases hf with ⟨k, u, hu, howes⟩
  by_cases hk : k = n
  · rw [hk, hw] at hu
    rw [← Option.some.inj hu] at howes
    exact ⟨n, v, by rw [hset, getElem?_set_visit hw], h howes⟩
  · exact ⟨k, u, by rw [hset, getElem?_set_eq hw, if_neg hk, hu], howes⟩

/-- A step that calls nothing keeps what is known, if its visitor has written as much as before
and owes no less. -/
theorem Logged.of_set (hf : f.Logged config id) {n : Nat} {v w : Visit}
    (hw : f.visits[n]? = some w) (hset : f'.visits = f.visits.set n v)
    (hbooks : f'.books = f.books) (hjournal : f'.journal = f.journal)
    (hlogged : v.operation.logged id = w.operation.logged id)
    (howes : w.operation.Owes id → v.operation.Owes id) : f'.Logged config id := by
  refine ⟨?_, fun k => ?_, ?_⟩
  · rw [hjournal, hbooks]
    exact hf.kept
  · rw [hjournal, hf.shares k, logged_of_set hw hset]
    split_ifs with hk
    · rw [hlogged, hk, logged, hw]
    · rfl
  · rw [hbooks]
    exact hf.bounded.imp_right (owing_of_set hw hset howes)

theorem logged_of_enter (hf : f.Logged config id) (e : Errand) :
    ({ f with visits := f.visits ++ [⟨e.operation config, true⟩] } : Floor).Logged config id := by
  have hnone : (e.operation config).logged id = [] := by
    cases e with
    | trade now user request prunes =>
        simp only [Errand.operation, Execution.start]
        split
        · exact Operation.logged_of_not_committed rfl id
        · exact Operation.logged_of_not_committed rfl id
    | _ => rfl
  refine ⟨hf.kept, fun k => ?_, hf.bounded.imp_right ?_⟩
  · rw [hf.shares k]
    simp only [logged, getElem?_concat_eq]
    by_cases hk : k = f.visits.length
    · rw [if_pos hk, hk, List.getElem?_eq_none (le_refl _)]
      exact hnone.symm
    · rw [if_neg hk]
  · rintro ⟨k, w, hw, howes⟩
    refine ⟨k, w, ?_, howes⟩
    have hlt := (List.getElem?_eq_some_iff.1 hw).1
    rw [getElem?_concat_eq, if_neg (by omega), hw]

/-- What the calls of a visitor do to a log, as far as its length goes. -/
theorem length_of_calling {x : Operation} {c : Call} {d : Deadline Operation}
    {resume : Except StoreError c.Result → Operation} {s : Store} (hup : x.Upright config s)
    (hconfig : ∀ w, x = .execution w → w.config = config) (hnext : x.next = .calling c d resume)
    (b : Books) (now : Nat) (id : String) :
    (c.removed id (c.perform b now).1 = 0 ∨
      (c.appended id = [] ∧
        c.removed id (c.perform b now).1 ≤ (b.store.log id).length - config.maxTradeHistory)) ∧
    (((c.perform b now).2.store.log id).length ≤ config.maxTradeHistory ∨
      ((c.appended id = [] ∨ (resume (c.perform b now).1).Owes id) ∧
        (x.Owes id → (resume (c.perform b now).1).Owes id))) := by
  rcases Operation.cases_of_booking hup hnext with
    ⟨w, k, rfl, hasks, hresume⟩ | ⟨w, k, rfl, hasks, -⟩ | ⟨hapart, hc, -⟩
  · rw [← hconfig w rfl, hresume]
    exact ⟨Execution.removed_of_asks hasks b now id, Execution.owes_of_asks hasks b now id⟩
  · cases hasks with
    | _ => exact ⟨Or.inl rfl, Or.inr ⟨Or.inl rfl, False.elim⟩⟩
  · refine ⟨Or.inl (Call.removed_of_not_booking hc id _),
      Or.inr ⟨Or.inl (Call.appended_of_not_booking hc id), fun howes => ?_⟩⟩
    cases x with
    | execution w => exact Bool.noConfusion hapart
    | _ => exact howes.elim

theorem logged_of_call (hup : f.Upright config) (hconfig : f.Configured config)
    (hf : f.Logged config id) {n now : Nat} {x : Operation} {c : Call} {d : Deadline Operation}
    {resume : Except StoreError c.Result → Operation} (hx : f.visits[n]? = some ⟨x, true⟩)
    (hnext : x.next = .calling c d resume) : (f.called n now x c resume).Logged config id := by
  have hlength : ((f.called n now x c resume).books.store.log id).length =
      (f.books.store.log id).length + (c.appended id).length -
        c.removed id (c.perform f.books now).1 := by
    simp only [called, Call.log_perform, List.length_drop, List.length_append]
  rcases length_of_calling (hup n _ hx) (fun w hw => hconfig n w true (hw ▸ hx)) hnext f.books now
    id with ⟨hremoved, howes⟩
  refine ⟨?_, fun k => ?_, ?_⟩
  · rw [hlength]
    simp only [called, loggings_append, loggings_singleton, List.length_append, List.length_map]
    have hkept := hf.kept
    rcases hremoved with hzero | ⟨hnil, hle⟩
    · omega
    · rw [hnil, List.length_nil]
      omega
  · -- Visitor and journal say the same of this call, and of the others nothing has changed.
    rw [logged_of_set hx rfl]
    simp only [called, loggings_append, loggings_singleton, List.filter_append, List.map_append]
    rw [hf.shares k]
    split_ifs with hk
    · rw [Operation.logged_of_calling (hup n _ hx) hnext, hk, logged, hx]
      simp only [List.filter_map, Function.comp_def, decide_true, List.filter_true, List.map_map,
        List.map_id']
    · simp only [List.filter_map, Function.comp_def, Ne.symm hk, decide_false, List.filter_false,
        List.map_nil, List.append_nil]
  · rcases howes with hle | ⟨hnew, hold⟩
    · exact Or.inl hle
    · rcases hnew with hnil | hnew
      · -- The log is no longer than before.
        refine hf.bounded.imp (fun hle => ?_) (owing_of_set hx rfl hold)
        rw [hlength, hnil, List.length_nil]
        omega
      · exact Or.inr ⟨n, _, getElem?_set_visit hx _, hnew⟩

/-- No step breaks what is known of a log. -/
theorem logged_of_move {a : Action} (hup : f.Upright config) (hconfig : f.Configured config)
    (hf : f.Logged config id) (h : Move config f a f') : f'.Logged config id := by
  cases h with
  | enter e => exact logged_of_enter hf e
  | hear n news x y hx hy =>
      rcases Operation.cases_of_hear? (hup n _ hx) hy with
        ⟨w, w', rfl, rfl, hsame, hnone, hnone'⟩ | ⟨hapart, hapart'⟩
      · refine hf.of_set hx rfl rfl rfl ?_ (fun howes => ?_)
        · rw [Operation.logged_of_not_committed hnone, Operation.logged_of_not_committed hnone']
        · -- It had nothing to prune yet.
          refine howes.of_same hsame (fun o => ⟨fun ho => ?_, fun ho => ?_⟩)
          · rw [Execution.committed?, ho] at hnone
            exact absurd hnone (by simp only [reduceCtorEq, not_false_eq_true])
          · rw [Execution.committed?, ho] at hnone
            exact absurd hnone (by simp only [reduceCtorEq, not_false_eq_true])
      · refine hf.of_set hx rfl rfl rfl ?_ (fun howes => ?_)
        · rw [Operation.logged_of_apart hapart, Operation.logged_of_apart hapart']
        · cases x with
          | execution w => exact Bool.noConfusion hapart
          | _ => exact howes.elim
  | call n now x c d resume hx hnext => exact logged_of_call hup hconfig hf hx hnext
  | leave n x hx => exact hf.of_set hx rfl rfl rfl rfl (fun howes => howes)
  | sweep now => exact ⟨hf.kept, hf.shares, hf.bounded⟩

theorem logged_opened (config : TradingConfig) (id : String) : (opened config).Logged config id :=
  ⟨Nat.min_le_right _ _, fun _ => rfl, Or.inl (Nat.zero_le _)⟩

/-- What is known of visitors, of books and of logs. -/
structure Booked (config : TradingConfig) (f : Floor) : Prop where
  upright : f.Upright config
  configured : f.Configured config
  told : ∀ id, f.Told id
  logged : ∀ id, f.Logged config id

theorem booked_opened (config : TradingConfig) : (opened config).Booked config :=
  ⟨upright_opened config, configured_opened config, told_opened config, logged_opened config⟩

theorem booked_of_move {a : Action} (hf : f.Booked config) (h : Move config f a f') :
    f'.Booked config :=
  ⟨upright_of_move hf.upright h, configured_of_move hf.upright hf.configured h,
    fun id => told_of_move (hf.told id) h,
    fun id => logged_of_move hf.upright hf.configured (hf.logged id) h⟩

theorem booked_of_run? {actions : List Action}
    (h : (opened config).run? config actions = some f) : f.Booked config :=
  run?_induction (fun f => f.Booked config) (fun _ => True)
    (fun _ _ _ _ hg hmove => booked_of_move hg hmove) (fun _ _ => trivial) (booked_opened config) h

/-- A user for whom no trade is under way: each trade has written what it has committed. -/
theorem AtRest.logged_eq_share (h : f.AtRest id) (n : Nat) : f.logged id n = f.share id n := by
  unfold Floor.logged share
  cases hw : f.visits[n]? with
  | none => rfl
  | some w =>
      rcases w with ⟨x, present⟩
      cases x with
      | execution x =>
          simp only [Operation.logged, Operation.committed]
          by_cases hx : x.user = id
          · rw [if_pos hx, if_pos hx,
              Visit.logged?_of_rests (h _ (List.mem_of_getElem? hw)) hx]
          · rw [if_neg hx, if_neg hx]
      | _ => rfl

/-- When no trade of a user is under way, the entries added to the log are the trades committed,
each added by the visitor who has committed it. -/
theorem perm_of_atRest (hf : f.Logged config id) (hkept : f.Kept config) (h : f.AtRest id) :
    (loggings id f.journal).Perm ((f.commits id).map (fun c => (c.visitor, c.trade))) := by
  refine perm_of_filter_eq (fun n => ?_)
  rw [hf.shares n, h.logged_eq_share n, ← hkept.shares id n, List.filter_map, List.map_map]
  rfl

/-- A log that is too long is owed a pruning by a trade that never prunes or is under way. -/
theorem length_le_of_atRest (hf : f.Logged config id) (h : f.AtRest id)
    (hprunes : f.AlwaysPruned id) : (f.books.store.log id).length ≤ config.maxTradeHistory := by
  rcases hf.bounded with hle | ⟨n, ⟨op, present⟩, hw, howes⟩
  · exact hle
  have hmem := List.mem_of_getElem? hw
  cases op with
  | execution x =>
      rcases howes with ⟨hx, hnever | ⟨o, ho⟩⟩
      · have := hprunes _ hmem
        simp only [Visit.prunes, hx, hnever, ne_eq, not_true_eq_false, decide_false, Bool.or_self,
          Bool.false_eq_true] at this
      · -- It is committed and not over, so it does not rest.
        have := h _ hmem
        rcases ho with ho | ho <;>
          simp only [Visit.rests, Execution.isOver, Execution.committed?, ho, hx, ne_eq,
            not_true_eq_false, decide_false, Option.isNone_some, Bool.and_false, Bool.or_self,
            Bool.false_eq_true] at this
  | _ => exact howes.elim

/-- Any number of trades, openings of accounts and readings, whose steps come in any order and of
which any may be given up. At every moment the log of a user holds the newest of the entries that
were ever added to it, at least as many as it is pruned to if there are as many, and who lists it is
told it backwards. When no trade of the user is under way and none was given up after its commit,
the entries ever added are the trades committed, one for each, added by the visitor who committed
it; replaying them gives the portfolio of the user, the count is their number, and if every trade of
the user prunes then the log is no longer than it is pruned to. -/
theorem log_of_run {actions : List Action} (h : (opened config).run? config actions = some f)
    (id : String) :
    (∀ now, ((Call.listTrades id).perform f.books now).1 = .ok (f.books.store.log id).reverse) ∧
    f.books.store.log id <:+ (loggings id f.journal).map (·.2) ∧
    min config.maxTradeHistory (loggings id f.journal).length ≤ (f.books.store.log id).length ∧
    (f.AtRest id →
      (loggings id f.journal).Perm ((f.commits id).map (fun c => (c.visitor, c.trade))) ∧
      (∀ v, f.books.store.user? id = some v →
        v.value.tradeStats.count = (loggings id f.journal).length ∧
        ∃ u, f.openings id = [u] ∧
          u.portfolio.replay ((f.commits id).map (·.trade)) = .ok v.value.portfolio) ∧
      (f.books.store.user? id = none → loggings id f.journal = []) ∧
      (f.AlwaysPruned id → (f.books.store.log id).length ≤ config.maxTradeHistory)) := by
  have hbooked := booked_of_run? h
  have hkept := (kept_of_run? h).2
  refine ⟨fun _ => rfl, ?_, (hbooked.logged id).kept, fun hrest => ?_⟩
  · rw [(hbooked.told id).log]
    exact List.drop_suffix _ _
  have hperm := perm_of_atRest (hbooked.logged id) hkept hrest
  refine ⟨hperm, fun v hv => ?_, fun hnone => ?_,
    length_le_of_atRest (hbooked.logged id) hrest⟩
  · rcases hkept.stored id v hv with ⟨u, hu⟩
    have hreplay := User.isReplay_of_replay hu.replay
    refine ⟨?_, u, hu.openings, hreplay.portfolio⟩
    rcases hu.account with ⟨y, time, -, rfl⟩
    rw [hreplay.count, hperm.length_eq, List.length_map, List.length_map]
    exact Nat.zero_add _
  · rw [(hkept.absent id hnone).2, List.map_nil] at hperm
    exact List.perm_nil.1 hperm

/-- The standard settings, with logs that are pruned to one entry. -/
def shortLogs : TradingConfig := { TradingConfig.standard with maxTradeHistory := 1 }

/-- A purchase and a sale, of which the sale is committed after the purchase and logged before it.
Both prune the log. -/
def crossing : List Action :=
  [.enter (.account ⟨"alice", "Alice", ""⟩), .call 0 0, .hear 0 (.clock ⟨0, ⟨0, 0⟩⟩), .call 0 0,
    .enter (.trade 0 "alice" ⟨.buy, "BTC", some (.ofUnits 2)⟩ true),
    .enter (.trade 0 "alice" ⟨.sell, "BTC", some (.ofUnits 1)⟩ true),
    .hear 1 (.price (.ok (.ofUnits 30000))), .hear 2 (.price (.ok (.ofUnits 40000))),
    .hear 1 (.clock ⟨1, ⟨1, 0⟩⟩), .hear 2 (.clock ⟨2, ⟨2, 0⟩⟩),
    .call 1 2, .call 1 2, .call 2 2, .call 2 2,
    .call 2 3, .call 1 3, .call 1 3, .call 2 3, .call 2 3, .call 1 3]

/-- Both are logged once, the purchase last, and it is the purchase that the log keeps. -/
theorem log_of_run_crossing :
    ∃ f v, (opened shortLogs).run? shortLogs crossing = some f ∧ f.AtRest "alice" ∧
      f.AlwaysPruned "alice" ∧ f.books.store.user? "alice" = some v ∧
      (f.commits "alice").map (·.visitor) = [1, 2] ∧
      (loggings "alice" f.journal).map (·.1) = [2, 1] ∧
      (loggings "alice" f.journal).Perm
        ((f.commits "alice").map (fun c => (c.visitor, c.trade))) ∧
      f.books.store.log "alice" <:+ (loggings "alice" f.journal).map (·.2) ∧
      v.value.tradeStats.count = 2 ∧ (f.books.store.log "alice").length = 1 := by
  obtain ⟨f, v, hrun, hv, hrest, hpruned, hcommits, hloggings⟩ : ∃ f v,
      (opened shortLogs).run? shortLogs crossing = some f ∧
        f.books.store.user? "alice" = some v ∧ f.AtRest "alice" ∧ f.AlwaysPruned "alice" ∧
        (f.commits "alice").map (·.visitor) = [1, 2] ∧
        (loggings "alice" f.journal).map (·.1) = [2, 1] :=
    ⟨_, _, rfl, rfl, by decide +kernel, by decide +kernel, rfl, rfl⟩
  rcases log_of_run hrun "alice" with ⟨-, hsuffix, hkept, hdone⟩
  rcases hdone hrest with ⟨hperm, hdocument, -, hle⟩
  have hlength : (loggings "alice" f.journal).length = 2 := by
    have hfirsts := congrArg List.length hloggings
    rw [List.length_map] at hfirsts
    exact hfirsts
  refine ⟨f, v, hrun, hrest, hpruned, hv, hcommits, hloggings, hperm, hsuffix, ?_, ?_⟩
  · rw [(hdocument v hv).1, hlength]
  · rw [hlength] at hkept
    exact le_antisymm (hle hpruned) hkept

end Floor

end Bourse
