import Bourse.Proofs.Ledger.Trades
import Bourse.Proofs.Portfolio.Cash

/-!
# What Changes a Document

On a ledger in order a document that is there changes in one way only: a trade is committed. The
trade had been allowed, it has a price, and the new document is the old one with the trade
applied at this price. Opening an account never touches a document that is there already.

So at a price that is not negative the cash of the user moves the right way.

## Main definitions

* `Execution.Commits`: a trade replaces one document by the next.

## Theorems

* `Ledger.InOrder.commit_of_stepAt?`: what changes a document is a commit.
* `Execution.Commits.cash`: what a commit does to the cash of the user.
-/

namespace Bourse

/-- A trade is committed at a price: the document that it has read is still there, and is replaced by
the one with the trade applied. -/
structure Execution.Commits (x : Execution) (price : Amount) (v v' : Versioned User) : Prop where
  storing : ∃ m u, x.phase = .storing price m v.version u ∧
    x.amend price m.time v.value = .ok u ∧ v' = ⟨v.version + 1, u⟩
  quantity : x.request.checkQuantity = .ok x.quantity

/-- A quantity without faults is a sound amount. -/
theorem TradeRequest.sound_of_checkQuantity {r : TradeRequest} {q : Amount}
    (h : r.checkQuantity = .ok q) : q.Sound := by
  unfold checkQuantity at h
  split at h
  · exact absurd h (by simp only [reduceCtorEq, not_false_eq_true])
  · split_ifs at h with hzero hnegative hvalid
    rw [← Except.ok.inj h]
    exact ⟨by simpa only [Bool.not_eq_true', Bool.not_eq_false] using hvalid,
      by simpa only [Bool.not_eq_true] using hnegative⟩

/-- At a price that is not negative a purchase never leaves the user with more cash than before, and
a sale never with less. -/
theorem Execution.Commits.cash {x : Execution} {price : Amount} {v v' : Versioned User}
    (h : x.Commits price v v') (hprice : 0 ≤ price.value) :
    (x.request.side = .buy →
      v'.value.portfolio.cash.value ≤ v.value.portfolio.cash.value) ∧
    (x.request.side = .sell →
      v.value.portfolio.cash.value ≤ v'.value.portfolio.cash.value) := by
  rcases h.storing with ⟨m, u, -, hamend, rfl⟩
  have hquantity := (TradeRequest.sound_of_checkQuantity h.quantity).value_nonneg
  unfold amend at hamend
  split at hamend
  · next p hp =>
    rw [← Except.ok.inj hamend]
    exact Portfolio.cash_applyTrade hp hquantity hprice
  · exact absurd hamend (by simp only [reduceCtorEq, not_false_eq_true])

namespace Ledger

variable {K : Sources} {config : TradingConfig} {l l' : Ledger} {t : Task} {env : Surroundings}
  {d : Shared} {stepped : Stepped} {user : String} {v v' : Versioned User}

/-- What changes a document is a commit. -/
theorem InOrder.commit_of_does (h : l.InOrder K config) (ht : t ∈ l.tasks)
    (hdoes : t.Does env l.shared stepped d) (hv : l.books.store.user? user = some v)
    (hv' : d.books.store.user? user = some v') :
    v' = v ∨ ∃ x price, t.operation = .execution x ∧ x.user = user ∧
      K.price t.id x.request.symbol price ∧ x.Commits price v v' := by
  cases hdoes with
  | calls c deadline resume hnext =>
      by_cases hwrite : c.isWrite = false
      · have hsame := Call.user?_perform l.shared.books env.moment.now hwrite user
        exact Or.inl (Option.some.inj (hv'.symm.trans (hsame.trans hv)))
      cases c with
      | createUser u =>
          simp only [Call.perform] at hv'
          rcases l.shared.books.store.createUser_cases u with ⟨hnone, hr⟩ | hr
          · -- An account is opened only where there is no document.
            rw [hr, Store.user?_insert] at hv'
            split_ifs at hv' with huser
            · rw [huser] at hv
              exact absurd (hv.symm.trans hnone) (Option.some_ne_none v)
            · exact Or.inl (Option.some.inj (hv'.symm.trans hv))
          · rw [hr] at hv'
            exact Or.inl (Option.some.inj (hv'.symm.trans hv))
      | replaceUser i version u =>
          simp only [Call.perform] at hv'
          rcases l.shared.books.store.compareAndSet_cases i version u with
            ⟨w, hw, hversion, hr⟩ | ⟨e, hr⟩
          · rw [hr, Store.user?_insert] at hv'
            split_ifs at hv' with huser
            · subst huser
              cases Option.some.inj (hw.symm.trans hv)
              rcases Operation.exists_of_isTrading hnext rfl with ⟨x, hop⟩
              rw [hop] at hnext
              rcases Progress.calling_of_map hnext with ⟨d', k, hk, -⟩
              have hx := (h.tasks t ht).trade x hop
              have hasks := Execution.asks_of_next hk
              cases hasks with
              | commit price m version u hphase =>
                  have hbased := hx.based
                  rw [Execution.Based, hphase] at hbased
                  rcases hbased with ⟨w', hw', -, hamend⟩
                  cases Option.some.inj (hw.symm.trans hw')
                  refine Or.inr ⟨x, price, hop, rfl,
                    hx.quoted _ _ (by rw [Execution.quoted?, hphase]), ⟨m, u, ?_, hamend hversion, ?_⟩,
                    hx.quantity fun e => ?_⟩
                  · rw [hversion]
                    exact hphase
                  · rw [hversion]
                    exact (Option.some.inj hv').symm
                  · rw [hphase]
                    exact Execution.Phase.noConfusion
            · exact Or.inl (Option.some.inj (hv'.symm.trans hv))
          · rw [hr] at hv'
            exact Or.inl (Option.some.inj (hv'.symm.trans hv))
      | _ => exact absurd rfl hwrite
  | _ => exact Or.inl (Option.some.inj (hv'.symm.trans hv))

/-- A document that changes when a task takes a step is replaced by a trade of this task. -/
theorem InOrder.commit_of_stepAt? (h : l.InOrder K config) {id : Nat}
    (hstep : l.stepAt? env id = some l') (hv : l.books.store.user? user = some v)
    (hv' : l'.books.store.user? user = some v') :
    v' = v ∨ ∃ t x price, l.task? id = some t ∧ t.operation = .execution x ∧ x.user = user ∧
      K.price id x.request.symbol price ∧ x.Commits price v v' := by
  rcases h.does_of_stepAt? hstep with ⟨t, stepped, d, ht, hdoes, rfl, -⟩
  rcases h.commit_of_does (mem_of_task? ht) hdoes hv hv' with hsame | ⟨x, price, hop, huser, hprice,
    hcommits⟩
  · exact Or.inl hsame
  · rw [id_of_task? ht] at hprice
    exact Or.inr ⟨t, x, price, ht, hop, huser, hprice, hcommits⟩

end Ledger

end Bourse
