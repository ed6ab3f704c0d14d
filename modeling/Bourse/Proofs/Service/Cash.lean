import Bourse.Proofs.Ledger.Commits
import Bourse.Proofs.Service.Trades

/-!
# The Cash of Users

Whatever the feed sends, a purchase never leaves a user with more cash than before and a sale
never with less, as long as the text of the tick that made the price is not that of a negative
amount. Texts are read as amounts by the ingestor and nobody looks at the sign: at a negative
price a purchase pays the user.

## Theorems

* `cash_of_run`: what changes the document of a user, and what it does to the cash.
* `cash_grows_at_negative_price`: a purchase at a negative price.
-/

namespace Bourse

namespace Diary

variable {x x' : Diary} {a : Action} {actions : List Action} {user : String}
  {v v' : Versioned User}

/-- The document of a user. -/
def user? (x : Diary) (user : String) : Option (Versioned User) :=
  x.service.ledger.books.store.user? user

theorem store_moveBack (l : Ledger) (id : Nat) : (l.moveBack id).books.store = l.books.store := by
  unfold Ledger.moveBack
  split
  · rfl
  · rfl

/-- The document of a user changes, once it is there, only where a trade of the user is committed. Its
price was taken from the cache in an earlier step of the trade, and is that of a tick. If the text of
this tick is not that of a negative amount, a purchase never leaves the user with more cash than
before, and a sale never with less. -/
theorem cash_of_run {config : Config} {buffer delay failures : Nat} {time : Timestamp}
    (hrun : (opened config buffer delay failures time).run? actions = some x)
    (hstep : x.step? a = some x') (hv : x.user? user = some v) (hv' : x'.user? user = some v') :
    v' = v ∨ ∃ id t y price, a = .task id ∧ x.service.ledger.task? id = some t ∧
      t.operation = .execution y ∧ y.user = user ∧ y.Commits price v v' ∧
      (∃ past z i, past ++ [.task id] <+: actions ∧
        (opened config buffer delay failures time).run? past = some z ∧
        z.Takes id y.request.symbol price ∧ z.Shows i y.request.symbol price) ∧
      (0 ≤ price.value →
        (y.request.side = .buy →
          v'.value.portfolio.cash.value ≤ v.value.portfolio.cash.value) ∧
        (y.request.side = .sell →
          v.value.portfolio.cash.value ≤ v'.value.portfolio.cash.value)) := by
  have hsame : x'.user? user = x.user? user → v' = v := fun heq =>
    Option.some.inj (hv'.symm.trans (heq.trans hv))
  cases steps_of_step? hstep with
  | @task id ledger htask =>
      rcases (inOrder_of_run? hrun).commit_of_stepAt? htask hv hv' with
        hunchanged | ⟨t, y, price, ht, hop, huser, ⟨past, z, hpast, hz, htakes⟩, hcommits⟩
      · exact Or.inl hunchanged
      · rcases (kept_of_run? hz).shows_of_takes htakes with ⟨i, hshows⟩
        exact Or.inr ⟨id, t, y, price, rfl, ht, hop, huser, hcommits,
          ⟨past, z, i, hpast, hz, htakes, hshows⟩, hcommits.cash⟩
  | moveBack id =>
      exact Or.inl (hsame (congrArg (Store.user? · user) (store_moveBack x.service.ledger id)))
  | heed htold hheed =>
      exact Or.inl (hsame (congrArg (·.books.store.user? user) (Ledger.shared_heed? hheed)))
  -- Nothing else touches the store.
  | _ => exact Or.inl (hsame rfl)

/-- A tick of some price comes in, and somebody buys. The document has been read. -/
def buying (price : String) : List Action :=
  [.market .nextTurn, .market .endAttempt, .market .takeSeat, .keep, .market (.tend .accept),
    .market (.tend (.send 0 ⟨"BTC", price, ⟨0, 0⟩⟩)), .market (.turn 0 .goOn),
    .market (.turn 0 .goOn), .market (.dispatch 0), .market (.feed ⟨0, 0⟩),
    .enter (.account ⟨"alice", "Alice", ""⟩), .task 1, .task 1, .task 1, .task 1, .task 1,
    .enter (.trade 0 "alice" ⟨.buy, "BTC", some (.ofUnits 1)⟩ false), .task 2, .task 2, .task 2,
    .task 2, .task 2]

/-- At 30000 the next step leaves 70000 of 100000. -/
theorem cash_of_run_buying :
    ∃ x x' v v', (opened .standard 64 0 0 ⟨0, 0⟩).run? (buying "30000") = some x ∧
      x.step? (.task 2) = some x' ∧ x.user? "alice" = some v ∧ x'.user? "alice" = some v' ∧
      v.value.portfolio.cash = .ofUnits 100000 ∧ v'.value.portfolio.cash = .ofUnits 70000 ∧
      v'.value.portfolio.cash.value ≤ v.value.portfolio.cash.value := by
  obtain ⟨x, x', v, v', t, y, m, u, hrun, hstep, hv, hv', ht, hop, hbuys, hphase, hcash, hcash'⟩ :
      ∃ x x' v v' t y m u,
      (opened .standard 64 0 0 ⟨0, 0⟩).run? (buying "30000") = some x ∧
      x.step? (.task 2) = some x' ∧ x.user? "alice" = some v ∧ x'.user? "alice" = some v' ∧
      x.service.ledger.task? 2 = some t ∧ t.operation = .execution y ∧ y.request.side = .buy ∧
      y.phase = .storing (.ofUnits 30000) m 1 u ∧
      v.value.portfolio.cash = .ofUnits 100000 ∧ v'.value.portfolio.cash = .ofUnits 70000 :=
    ⟨_, _, _, _, _, _, _, _, rfl, rfl, rfl, rfl, rfl, rfl, rfl, rfl, rfl, rfl⟩
  refine ⟨x, x', v, v', hrun, hstep, hv, hv', hcash, hcash', ?_⟩
  rcases cash_of_run hrun hstep hv hv' with
    rfl | ⟨id, t', y', price, hid, ht', hop', -, hcommits, -, hmoves⟩
  · exact le_refl _
  · cases hid
    cases ht.symm.trans ht'
    cases hop.symm.trans hop'
    rcases hcommits.storing with ⟨m', u', hstoring, -⟩
    have hprice := (Execution.Phase.storing.inj (hphase.symm.trans hstoring)).1
    have hsound : (Amount.ofUnits 30000).Sound := by decide
    exact (hmoves (hprice ▸ hsound.value_nonneg)).1 hbuys

/-- At -100 the next step leaves more cash than before. -/
theorem cash_grows_at_negative_price :
    ∃ x x' v v' t y p, (opened .standard 64 0 0 ⟨0, 0⟩).run? (buying "-100") = some x ∧
      x.step? (.task 2) = some x' ∧ x.user? "alice" = some v ∧ x'.user? "alice" = some v' ∧
      x.service.ledger.task? 2 = some t ∧ t.operation = .execution y ∧ y.request.side = .buy ∧
      (x.books 0).takings = [p] ∧ p.2.price = "-100" ∧
      v.value.portfolio.cash.value < v'.value.portfolio.cash.value := by
  obtain ⟨x, x', v, v', t, y, p, hrun, hstep, hv, hv', ht, hop, hbuys, hp, hprice, hcash, hcash'⟩ :
      ∃ x x' v v' t y p, (opened .standard 64 0 0 ⟨0, 0⟩).run? (buying "-100") = some x ∧
      x.step? (.task 2) = some x' ∧ x.user? "alice" = some v ∧ x'.user? "alice" = some v' ∧
      x.service.ledger.task? 2 = some t ∧ t.operation = .execution y ∧ y.request.side = .buy ∧
      (x.books 0).takings = [p] ∧ p.2.price = "-100" ∧
      v.value.portfolio.cash = .ofUnits 100000 ∧ v'.value.portfolio.cash = .ofUnits 100100 :=
    ⟨_, _, _, _, _, _, _, rfl, rfl, rfl, rfl, rfl, rfl, rfl, rfl, rfl, rfl, rfl⟩
  refine ⟨x, x', v, v', t, y, p, hrun, hstep, hv, hv', ht, hop, hbuys, hp, hprice, ?_⟩
  rw [hcash, hcash']
  decide +kernel

end Diary

end Bourse
