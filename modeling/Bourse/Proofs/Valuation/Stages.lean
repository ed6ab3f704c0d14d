import Bourse.Proofs.Table
import Bourse.Proofs.Valuation.Survey

/-!
# The Stages of a Run

A run first asks for the price of one symbol after the other, and only then for users.
So when it fails for lack of a price, nothing has been started yet; and when it goes
through the users, every symbol has the price that was heard for it, and the prices do
not change any more.

## Main definitions

* `Survey.heard`: the prices that came in.
* `Survey.Action.isBad`, `Survey.Action.failure?`: news that the run gives up at.
* `Survey.Stage`: what is known of a run in each phase.

## Theorems

* `Survey.induction`: what holds at first and is kept by every move.
* `Survey.settings_of_run`: what a run is set to do does not change.
* `Survey.stage_of_run`: what is known of a run after every step.
* `Survey.exists_error_iff`: a run fails exactly if a price does not come.
-/

namespace Bourse

namespace Survey

/-- The price that a step brings. -/
def Action.price? : Action → Option Amount
  | hear (.price (.ok price)) => some price
  | _ => none

/-- The prices that came in, the first one first. -/
def heard (past : List Action) : List Amount := past.filterMap Action.price?

/-- Whether a step brings an error in place of a price, or the end of a wait for one. -/
def Action.isBad : Action → Bool
  | hear (.price (.error _)) | hear .late => true
  | _ => false

/-- What a run fails with at bad news of a symbol. -/
def Action.failure? (symbol : String) : Action → Option TradeError
  | hear (.price (.error e)) => some (.ofQuote e)
  | hear .late => some (unpriced symbol)
  | _ => none

/-- A run that has not started anything. -/
structure Fresh (s : Survey) : Prop where
  valuings : s.valuings = []
  listed : s.listed = []
  running : s.run.running = 0
  report : s.run.report = .empty

/-- A run that has the prices of all symbols but some, in their order. -/
structure Priced (symbols missing : List String) (past : List Action) (s : Survey) : Prop where
  prices : ∃ asked, symbols = asked ++ missing ∧ asked.length = (heard past).length ∧
    s.run.prices = Table.ofList (asked.zip (heard past))
  fine : ∀ a ∈ past, a.isBad = false

/-- What is known of a run in each phase. -/
def Stage (symbols : List String) (past : List Action) (s : Survey) : Prop :=
  match s.run.phase with
  | .asking missing => s.Fresh ∧ Priced symbols missing past s
  | .pricing symbol _ missing => s.Fresh ∧ Priced symbols (symbol :: missing) past s
  | .visiting _ _ => Priced symbols [] past s
  | .finished (.error e) =>
    s.Fresh ∧ ∃ a ∈ past, ∃ symbol ∈ symbols, a.failure? symbol = some e
  | .finished (.ok _) | .broken => False

variable {config : ValuationConfig} {symbols missing : List String} {time : Timestamp} {b : Books}
  {s t : Survey} {past actions : List Action} {a : Action}

/-- What holds at first and is kept by every move holds after every run. -/
theorem induction (P : List Action → Survey → Prop) (hfirst : P [] (opened config symbols time b))
    (hmove : ∀ past a s t, (opened config symbols time b).run? past = some s → P past s →
      Move s a t → P (past ++ [a]) t)
    (h : (opened config symbols time b).run? actions = some s) : P actions s :=
  run_induction P hfirst
    (fun past a s t hrun hpast hstep => hmove past a s t hrun hpast (move_of_step? hstep)) h

/-- What a run is set to do does not change. -/
theorem settings_of_run (h : (opened config symbols time b).run? actions = some s) :
    s.run.config = config ∧ s.run.hour = time.startOfHour ∧
      s.run.cutoff =
        (ValuationRun.cutoff? config time.startOfHour).getD time.startOfHour := by
  refine induction (fun _ s => s.run.config = config ∧ s.run.hour = time.startOfHour ∧
    s.run.cutoff = (ValuationRun.cutoff? config time.startOfHour).getD time.startOfHour)
    ⟨rfl, rfl, rfl⟩ (fun past a s t _ ih hmove => ?_) h
  cases hmove <;> exact ih

/-! ## Steps through the stages -/

theorem Fresh.not_valuing (h : s.Fresh) {n : Nat} {v : Valuing} : s.valuings[n]? ≠ some v := by
  rw [h.valuings, List.getElem?_nil]
  simp only [ne_eq, reduceCtorEq, not_false_eq_true]

theorem heard_snoc : heard (past ++ [a]) = heard past ++ a.price?.toList := by
  rw [heard, List.filterMap_append]
  cases h : a.price? <;> simp only [List.filterMap_cons, h, List.filterMap_nil] <;> rfl

theorem Priced.step (h : Priced symbols missing past s) (hprices : t.run.prices = s.run.prices)
    (hprice : a.price? = none) (hfine : a.isBad = false) :
    Priced symbols missing (past ++ [a]) t := by
  rcases h with ⟨⟨asked, hsymbols, hlength, htable⟩, hpast⟩
  have hheard : heard (past ++ [a]) = heard past := by
    rw [heard_snoc, hprice]
    exact List.append_nil _
  refine ⟨⟨asked, hsymbols, hheard ▸ hlength, ?_⟩, fun a' ha' => ?_⟩
  · rw [hprices, hheard, htable]
  · rcases List.mem_append.1 ha' with hold | hnew
    · exact hpast a' hold
    · rw [List.mem_singleton.1 hnew]
      exact hfine

/-- A price that comes in is that of the symbol that was asked for. -/
theorem Priced.insert {symbol : String} {price : Amount}
    (h : Priced symbols (symbol :: missing) past s)
    (hprices : t.run.prices = s.run.prices.insert symbol price) :
    Priced symbols missing (past ++ [.hear (.price (.ok price))]) t := by
  rcases h with ⟨⟨asked, hsymbols, hlength, htable⟩, hpast⟩
  refine ⟨⟨asked ++ [symbol], ?_, ?_, ?_⟩, fun a ha => ?_⟩
  · rw [hsymbols, List.append_assoc, List.singleton_append]
  · rw [heard_snoc, List.length_append, List.length_append, hlength]
    rfl
  · rw [hprices, htable, heard_snoc, Action.price?, Option.toList_some, List.zip_append hlength,
      Table.ofList, Table.ofList, List.foldl_append]
    rfl
  · rcases List.mem_append.1 ha with hold | hnew
    · exact hpast a hold
    · rw [List.mem_singleton.1 hnew]
      rfl

/-- A run that fails has heard bad news of a symbol. -/
theorem Stage.fail (hfresh : s.Fresh) {symbol : String} {e : TradeError}
    (hsymbol : symbol ∈ symbols) (hcause : a.failure? symbol = some e) :
    Stage symbols (past ++ [a]) { s with run := s.run.fail e } :=
  ⟨⟨hfresh.valuings, hfresh.listed, hfresh.running, hfresh.report⟩, a,
    List.mem_append_right past List.mem_cons_self, symbol, hsymbol, hcause⟩

theorem Priced.mem {symbol : String} (h : Priced symbols (symbol :: missing) past s) :
    symbol ∈ symbols := by
  rcases h.prices with ⟨asked, hsymbols, -⟩
  rw [hsymbols]
  exact List.mem_append_right asked List.mem_cons_self

/-- A step that neither hears nor goes on to another phase leaves a run at its stage. -/
theorem Stage.keep (h : Stage symbols past s) (hphase : t.run.phase = s.run.phase)
    (hprices : t.run.prices = s.run.prices) (hfresh : s.Fresh → t.Fresh)
    (hprice : a.price? = none) (hfine : a.isBad = false) : Stage symbols (past ++ [a]) t := by
  unfold Stage at h ⊢
  rw [hphase]
  split
  · next hp =>
    rw [hp] at h
    exact ⟨hfresh h.1, h.2.step hprices hprice hfine⟩
  · next hp =>
    rw [hp] at h
    exact ⟨hfresh h.1, h.2.step hprices hprice hfine⟩
  · next hp =>
    rw [hp] at h
    exact Priced.step h hprices hprice hfine
  · next hp =>
    rw [hp] at h
    rcases h.2 with ⟨a', ha', hcause⟩
    exact ⟨hfresh h.1, a', List.mem_append_left _ ha', hcause⟩
  · next hp =>
    rw [hp] at h
    exact h
  · next hp =>
    rw [hp] at h
    exact h

/-- What is known of a run in each phase is known of the next one after every move. -/
theorem stage_of_move (h : Stage symbols past s) (hmove : Move s a t) :
    Stage symbols (past ++ [a]) t := by
  cases hmove with
  | timed m symbol missing hphase =>
      rw [Stage, hphase] at h
      exact ⟨⟨h.1.valuings, h.1.listed, h.1.running, h.1.report⟩, h.2.step rfl rfl rfl⟩
  | priced price symbol due missing hphase =>
      rw [Stage, hphase] at h
      exact ⟨⟨h.1.valuings, h.1.listed, h.1.running, h.1.report⟩, h.2.insert rfl⟩
  | refused e symbol due missing hphase =>
      rw [Stage, hphase] at h
      exact .fail h.1 h.2.mem rfl
  | late symbol due missing hphase =>
      rw [Stage, hphase] at h
      exact .fail h.1 h.2.mem rfl
  | listed now after hphase =>
      -- No price is missing any more when a page is asked for, be it the first one or another.
      have hpriced : Priced symbols [] past s := by
        rcases hphase with ⟨hphase, -⟩ | ⟨last, hphase, -⟩
        · rw [Stage, hphase] at h
          exact h.2
        · rw [Stage, hphase] at h
          exact h
      exact hpriced.step rfl rfl rfl
  | started u page more hphase hroom =>
      rw [Stage, hphase] at h
      exact Priced.step h rfl rfl rfl
  -- In a fresh run there is no valuation that could take a step.
  | written n now v value hv hvphase =>
      exact h.keep rfl rfl (fun hfresh => absurd hv hfresh.not_valuing) rfl rfl
  | swept n now v hv hvphase =>
      exact h.keep rfl rfl (fun hfresh => absurd hv hfresh.not_valuing) rfl rfl
  | finished n u x r hv hvphase =>
      exact h.keep rfl rfl (fun hfresh => absurd hv hfresh.not_valuing) rfl rfl
  | aside now c =>
      exact h.keep rfl rfl (fun hfresh =>
        ⟨hfresh.valuings, hfresh.listed, hfresh.running, hfresh.report⟩) rfl rfl

/-- A run begins with asking for prices. -/
theorem phase_opened (hcutoff : (ValuationRun.cutoff? config time.startOfHour).isSome = true) :
    (opened config symbols time b).run.phase = .asking symbols :=
  if_pos hcutoff

theorem stage_opened (hcutoff : (ValuationRun.cutoff? config time.startOfHour).isSome = true) :
    Stage symbols [] (opened config symbols time b) := by
  rw [Stage, phase_opened hcutoff]
  exact ⟨⟨rfl, rfl, rfl, rfl⟩, ⟨[], rfl, rfl, rfl⟩, fun _ ha => absurd ha List.not_mem_nil⟩

/-- What is known of a run after every step. -/
theorem stage_of_run (hcutoff : (ValuationRun.cutoff? config time.startOfHour).isSome = true)
    (h : (opened config symbols time b).run? actions = some s) : Stage symbols actions s :=
  induction (Stage symbols) (stage_opened hcutoff)
    (fun _ _ _ _ _ hstage hmove => stage_of_move hstage hmove) h

/-! ## How a run ends -/

theorem cases_of_finished {r : Except TradeError ValuationReport}
    (h : s.run.next = .finished r) :
    s.run.phase = .finished r ∨
      s.run.phase = .visiting [] none ∧ s.run.running = 0 ∧ r = .ok s.run.report := by
  cases hphase : s.run.phase with
  | asking missing =>
      rw [ValuationRun.next, hphase] at h
      cases missing with
      | nil =>
          simp only [] at h
          split at h <;> cases h
      | cons symbol missing => cases h
  | visiting page more =>
      rw [ValuationRun.next, hphase] at h
      cases page with
      | nil =>
          cases more with
          | none =>
              simp only [] at h
              split at h
              · next hnone =>
                cases h
                exact .inr ⟨rfl, hnone, rfl⟩
              · cases h
          | some last => cases h
      | cons u page =>
          simp only [] at h
          split at h <;> cases h
  | finished r' =>
      rw [ValuationRun.next, hphase] at h
      cases h
      exact .inl rfl
  | pricing symbol due missing | broken =>
      rw [ValuationRun.next, hphase] at h
      cases h

theorem finished_of_result? {r : Except TradeError ValuationReport} (h : s.result? = some r) :
    s.run.next = .finished r := by
  unfold result? at h
  split at h
  · next r' hnext =>
    rw [hnext, Option.some.inj h]
  · exact absurd h (by simp only [reduceCtorEq, not_false_eq_true])

/-- A run that has ended well has gone through its pages, and knows of the end of all that it has
started. -/
theorem phase_of_ok (hstage : Stage symbols past s) {r : ValuationReport}
    (h : s.result? = some (.ok r)) :
    s.run.phase = .visiting [] none ∧ s.run.running = 0 ∧ s.run.report = r := by
  rcases cases_of_finished (finished_of_result? h) with hphase | ⟨hphase, hrunning, hr⟩
  · rw [Stage, hphase] at hstage
    exact hstage.elim
  · exact ⟨hphase, hrunning, (Except.ok.inj hr).symm⟩

theorem phase_of_error {e : TradeError} (h : s.result? = some (.error e)) :
    s.run.phase = .finished (.error e) := by
  rcases cases_of_finished (finished_of_result? h) with hphase | ⟨-, -, hr⟩
  · exact hphase
  · exact absurd hr (by simp only [reduceCtorEq, not_false_eq_true])

/-- What a run fails with comes from bad news of one of its symbols, and nothing was started. -/
theorem cause_of_error (hstage : Stage symbols past s) {e : TradeError}
    (h : s.result? = some (.error e)) :
    s.Fresh ∧ ∃ a ∈ past, ∃ symbol ∈ symbols, a.failure? symbol = some e := by
  rw [Stage, phase_of_error h] at hstage
  exact hstage

theorem isBad_of_failure? {symbol : String} {e : TradeError} (h : a.failure? symbol = some e) :
    a.isBad = true := by
  unfold Action.failure? at h
  split at h
  · rfl
  · rfl
  · exact absurd h (by simp only [reduceCtorEq, not_false_eq_true])

/-- A run fails exactly if there was bad news. -/
theorem exists_error_iff (hstage : Stage symbols past s) :
    (∃ e, s.result? = some (.error e)) ↔ ∃ a ∈ past, a.isBad = true := by
  constructor
  · rintro ⟨e, h⟩
    rcases (cause_of_error hstage h).2 with ⟨a, ha, symbol, -, hcause⟩
    exact ⟨a, ha, isBad_of_failure? hcause⟩
  · rintro ⟨a, ha, hbad⟩
    -- While there are prices, all news was good.
    have hfine : ∀ {missing}, ¬ Priced symbols missing past s := fun hpriced =>
      Bool.false_ne_true ((hpriced.fine a ha).symm.trans hbad)
    cases hphase : s.run.phase with
    | asking missing | pricing symbol due missing =>
        rw [Stage, hphase] at hstage
        exact absurd hstage.2 hfine
    | visiting page more =>
        rw [Stage, hphase] at hstage
        exact absurd hstage hfine
    | finished r =>
        cases r with
        | ok r =>
            rw [Stage, hphase] at hstage
            exact hstage.elim
        | error e => exact ⟨e, by rw [result?, ValuationRun.next, hphase]⟩
    | broken =>
        rw [Stage, hphase] at hstage
        exact hstage.elim

/-- After the last price, the prices are those that came in for the symbols in their order. -/
theorem Priced.all (h : Priced symbols [] past s) :
    symbols.length = (heard past).length ∧
      s.run.prices = Table.ofList (symbols.zip (heard past)) := by
  rcases h.prices with ⟨asked, hsymbols, hlength, htable⟩
  rw [List.append_nil] at hsymbols
  rw [hsymbols]
  exact ⟨hlength, htable⟩

end Survey

end Bourse
