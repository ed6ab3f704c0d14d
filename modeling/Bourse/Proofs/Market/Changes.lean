import Bourse.Proofs.Market.Session
import Mathlib.Logic.Relation

/-!
# Small Changes

What happens around a market is made of a few small changes: a bus changes, a dispatch
ends, a subscription is read, an ingestor is in another state, the feed goes on, time
passes, or the cache has something else in it. Only requests and the answers to them are
more than that. What every small change keeps is kept by all that happens beside them, and
need not be looked at action by action.

## Main definitions

* `Market.Change`: a small change.
* `Market.Action.isAnswering`: whether a request may be answered by something.

## Theorems

* `changes_act?`: what happens is made of small changes.
* `keeps_act?`: what these keep is kept by what happens.
* `sameDesk_act?`: requests are left alone.
-/

namespace Bourse

namespace Market

/-- Whether a request may be answered by something. -/
def Action.isAnswering : Action → Bool
  | nextTurn | endAttempt | takeSeat => true
  | _ => false

/-- A small change of a market. -/
inductive Change (m : Market) : Market → Prop
  | bus (i : Nat) (f : Bus → Bus) : Change m (m.changeBus i f)
  | ended (i : Nat) : Change m (m.endDispatch i)
  | read (s : Seat) : Change m (m.receive s).2
  | ingestor (i : Nat) (w : Ingestor) : Change m (m.setIngestor i w)
  /-- Something happens to the feed from outside. -/
  | tended (t : StagedFeed.Tending) :
      Change m { m with intake := { m.intake with feed := m.intake.feed.tend t } }
  /-- An ingestor uses the feed, and there may be a warning. -/
  | used (e : Ingestor.Event) (warnings : List String) :
      Change m { m with intake := { m.intake with feed := m.intake.feed.after e, warnings } }
  | time (t : Nat) : Change m (m.moved t)
  | cache (cache : QuoteCache) (feeders : List Seat) : Change m { m with cache, feeders }

variable {m m' : Market} {a : Action}

/-- What happens is made of small changes, unless it is about requests. -/
theorem changes_act? (hpaired : m.Paired) (ha : a.isAnswering = false) (hrequest : a ≠ .request)
    (hact : m.act? a = some m') : Relation.ReflTransGen Change m m' := by
  cases a with
  | request => exact absurd rfl hrequest
  | nextTurn => exact absurd ha.symm Bool.false_ne_true
  | endAttempt => exact absurd ha.symm Bool.false_ne_true
  | takeSeat => exact absurd ha.symm Bool.false_ne_true
  | leave s =>
      cases Option.some.inj hact
      exact .single (.bus s.line (·.drop s.id))
  | receive s =>
      cases Option.some.inj hact
      exact .single (.read s)
  | addFeeder s =>
      cases Option.some.inj hact
      exact .single (.cache m.cache (m.feeders ++ [s]))
  | feed s =>
      simp only [act?] at hact
      split at hact
      · have hread : Relation.ReflTransGen Change m (m.receive s).2 := .single (.read s)
        rcases cases_of_feed? hact with ⟨q, -, rfl⟩ | ⟨-, rfl⟩
        · exact hread.tail (.cache _ _)
        · exact (hread.tail (.cache _ _)).tail (.bus s.line (·.drop s.id))
      · exact absurd hact (by simp only [reduceCtorEq, not_false_eq_true])
  | dispatch i =>
      rcases cases_of_dispatchAt? hpaired hact with
        ⟨l, w, -, -, ⟨-, rfl⟩ | ⟨-, q, rest, -, rfl⟩ | ⟨-, -, rfl⟩⟩
      · exact .single (.ended i)
      · exact (Relation.ReflTransGen.single (.ingestor i _)).tail (.bus i (·.publish q))
      · exact (Relation.ReflTransGen.single (.bus i (·.close))).tail (.ended i)
  | spill i =>
      rcases spillAt?_eq_some hact with ⟨-, w, -, rest, -, -, -, -, rfl⟩
      exact .single (.ingestor i _)
  | turn i branch =>
      rcases Option.map_eq_some_iff.1 hact with ⟨intake, hturn, rfl⟩
      rcases Intake.turnAt?_eq_some hturn with ⟨w, e, moved, -, hmoved, rfl⟩
      rcases Ingestor.turn?_eq_some hmoved with ⟨-, hfeed, -, -⟩
      rw [hfeed]
      exact (Relation.ReflTransGen.single (.used e _)).tail (.ingestor i moved.ingestor)
  | tend t =>
      cases Option.some.inj hact
      exact .single (.tended t)
  | wait ms =>
      cases Option.some.inj hact
      exact .single (.time (m.now + ms))

/-- What small changes keep is kept by what happens, unless it is about requests. -/
theorem keeps_act? {P : Market → Prop} (hpaired : m.Paired) (ha : a.isAnswering = false)
    (hrequest : a ≠ .request) (hact : m.act? a = some m') (h : P m)
    (hchange : ∀ n n', P n → Change n n' → P n') : P m' := by
  have hchanges := changes_act? hpaired ha hrequest hact
  clear hact
  induction hchanges with
  | refl => exact h
  | tail _ hlast ih => exact hchange _ _ ih hlast

theorem Change.sameDesk (h : m.Change m') : m.SameDesk m' := by
  cases h with
  | bus i f => exact sameDesk_changeBus m i f
  | read s => exact sameDesk_receive m s
  | _ => exact ⟨_, _, _, _, rfl⟩

/-- What neither makes requests nor answers them leaves them alone. -/
theorem sameDesk_act? (hpaired : m.Paired) (ha : a.isAnswering = false) (hrequest : a ≠ .request)
    (h : m.act? a = some m') : m.SameDesk m' :=
  keeps_act? hpaired ha hrequest h ⟨_, _, _, _, rfl⟩
    (fun _ _ hn hchange => hn.trans hchange.sameDesk)

end Market

end Bourse
