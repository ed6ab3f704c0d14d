import Bourse.Trading.Execution
import Bourse.Proofs.Portfolio.Trade

/-!
# Replaying Trades on a Document

A trade amends a document in two places, the portfolio and the statistics, and
what it does there depends on the document and on the entry that the log will keep
of the trade. So a document can be had back from the one that was opened and from
the trades alone, and the execution that made each of them does not matter.

Replaying one document follows three things at once: its portfolio is the replay
of the portfolio, its count goes up by one each time, and the rest stays. The
portfolio has a theory of its own, which carries over through `User.IsReplay`.

## Main definitions

* `User.trade`: the document after one trade.
* `User.replay`: the document after some trades.
* `User.IsReplay`: what replaying has done to a document.

## Theorems

* `amend_eq_trade`: what an execution does to the copy that it has read.
* `isReplay_of_replay`: a document after some trades.
* `Portfolio.solvent_replay`, `Portfolio.mem_keys_replay`: what trades keep.
-/

namespace Bourse

namespace Portfolio

theorem solvent_replay {p p' : Portfolio} {trades : List TradeRecord}
    (h : p.replay trades = .ok p') (hp : p.Solvent) : p'.Solvent := by
  induction trades generalizing p with
  | nil =>
      rw [← Except.ok.inj h]
      exact hp
  | cons t rest ih =>
      rcases replay_cons_eq_ok.1 h with ⟨q, hfirst, hrest⟩
      exact ih hrest (solvent_applyTrade hfirst hp)

theorem mem_keys_replay {p p' : Portfolio} {trades : List TradeRecord}
    (h : p.replay trades = .ok p') {s : String} :
    s ∈ p'.positions.keys ↔ s ∈ p.positions.keys := by
  induction trades generalizing p with
  | nil => rw [← Except.ok.inj h]
  | cons t rest ih =>
      rcases replay_cons_eq_ok.1 h with ⟨q, hfirst, hrest⟩
      rw [ih hrest]
      exact mem_keys_applyTrade hfirst

end Portfolio

namespace User

/-- The document with a trade applied and counted. -/
def trade (u : User) (t : TradeRecord) : Except PortfolioError User :=
  match u.portfolio.applyTrade t.side t.symbol t.price t.size with
  | .ok p => .ok { u with portfolio := p, tradeStats := u.tradeStats.record t.timestamp }
  | .error e => .error e

/-- The document after some trades, oldest first, of which none was refused. -/
def replay (u : User) (trades : List TradeRecord) : Except PortfolioError User :=
  trades.foldlM trade u

/-- What replaying trades has done to a document: the portfolio is a replay and the trades are
counted; all else is as it was. -/
structure IsReplay (u : User) (trades : List TradeRecord) (u' : User) : Prop where
  portfolio : u.portfolio.replay trades = .ok u'.portfolio
  count : u'.tradeStats.count = u.tradeStats.count + trades.length
  id : u'.id = u.id
  displayName : u'.displayName = u.displayName
  profileUrl : u'.profileUrl = u.profileUrl
  createdAt : u'.createdAt = u.createdAt

theorem trade_eq_ok {u u' : User} {t : TradeRecord} (h : u.trade t = .ok u') :
    ∃ p, u.portfolio.applyTrade t.side t.symbol t.price t.size = .ok p ∧
      u' = { u with portfolio := p, tradeStats := u.tradeStats.record t.timestamp } := by
  unfold trade at h
  split at h
  · next p hp => exact ⟨p, hp, (Except.ok.inj h).symm⟩
  · exact absurd h (by simp only [reduceCtorEq, not_false_eq_true])

@[simp] theorem replay_nil (u : User) : u.replay [] = .ok u := rfl

/-- A document can be replayed up to a trade and then through it. -/
theorem replay_concat {u v w : User} {trades : List TradeRecord} {t : TradeRecord}
    (h : u.replay trades = .ok v) (ht : v.trade t = .ok w) : u.replay (trades ++ [t]) = .ok w := by
  -- On the trades before the last one, which is reached with the list empty.
  induction trades generalizing u with
  | nil =>
      rw [Except.ok.inj h]
      exact foldlM_cons_eq_ok.2 ⟨w, ht, rfl⟩
  | cons t' rest ih =>
      rcases foldlM_cons_eq_ok.1 h with ⟨u', hfirst, hrest⟩
      exact foldlM_cons_eq_ok.2 ⟨u', hfirst, ih hrest⟩

theorem isReplay_of_replay {u u' : User} {trades : List TradeRecord}
    (h : u.replay trades = .ok u') : u.IsReplay trades u' := by
  induction trades generalizing u with
  | nil =>
      rw [← Except.ok.inj h]
      exact ⟨rfl, rfl, rfl, rfl, rfl, rfl⟩
  | cons t rest ih =>
      rcases foldlM_cons_eq_ok.1 h with ⟨v, hfirst, hrest⟩
      -- The first trade has set two fields and the rest has not touched the others.
      rcases trade_eq_ok hfirst with ⟨p, hp, rfl⟩
      have hr := ih hrest
      refine ⟨Portfolio.replay_cons_eq_ok.2 ⟨p, hp, hr.portfolio⟩, ?_, hr.id, hr.displayName,
        hr.profileUrl, hr.createdAt⟩
      rw [hr.count, List.length_cons]
      simp only [TradeStats.record]
      omega

/-- The last trade of a document is the last one replayed on it, if any was. -/
theorem lastTrade_of_replay {u u' : User} {trades : List TradeRecord}
    (h : u.replay trades = .ok u') :
    u'.tradeStats.lastTrade =
      (trades.getLast?.map (·.timestamp)).or u.tradeStats.lastTrade := by
  induction trades generalizing u with
  | nil =>
      rw [← Except.ok.inj h]
      rfl
  | cons t rest ih =>
      rcases foldlM_cons_eq_ok.1 h with ⟨v, hfirst, hrest⟩
      rcases trade_eq_ok hfirst with ⟨p, -, rfl⟩
      rw [ih hrest, List.getLast?_cons]
      cases rest.getLast? with
      | none => rfl
      | some s => rfl

end User

/-- An execution does to its copy what the entry in the log will say. -/
theorem Execution.amend_eq_trade (x : Execution) (price : Amount) (time : Timestamp) (u : User)
    (portfolio : Portfolio) :
    x.amend price time u = u.trade (x.outcome price time portfolio).record := rfl

end Bourse
