import Bourse.Ledger.Task
import Mathlib.Data.List.Induction

/-!
# The Floor

Operations over shared books, in any order of their steps.

The ledger runs its tasks in one order, and what it settles to is one run of many.
The floor is the set of all of them. Whoever comes has an errand; between two steps
of one visitor any other may take any number of steps, a visitor may stop for ever,
and one may leave in the middle. What a step does is not said here: it is what
`Operation.next` asks for, and a call does to the books what `Call.perform` does.

What a visitor hears from outside the books is left open. A clock shows any time, a
price or an error may come, and a deadline may pass at any moment of a wait, so a
fact about all runs on the floor holds for every source of prices and every clock.

The floor keeps a journal of the calls made, with the answers. It is never read by
a step; it is what statements about the past of a run are about.

## Main definitions

* `Errand`: what somebody comes for.
* `News`: what an operation hears without making a call.
* `Progress.hear?`: what it makes of that.
* `Entry`: a call that was made, and its answer.
* `Floor`: the books, the visitors and the journal.
* `Action`: one step of anybody.
* `Floor.step?`, `Floor.run?`: the floor after one action, and after a list of them.

## Theorems

* `Progress.hear?_map`, `Progress.calling_of_map`: an operation within another.
* `step?_eq_some`: the five things that a step can be.
* `run?_induction`: what every step keeps, every run keeps.
* `moment_induction`: the same, step by step along one run.
* `exists_moment`: every call of the journal was made at a moment of the run.
-/

namespace Bourse

/-- What somebody comes for. -/
inductive Errand where
  | trade (now : Nat) (user : String) (request : TradeRequest) (prunes : Bool)
  | account (identity : Identity)
  | portfolio (user : String)
  | history (user : String)
  | snapshots (user : String)

/-- The operation of an errand, before its first step. -/
def Errand.operation (config : TradingConfig) : Errand → Operation
  | trade now user request prunes => .execution (.start config now user request prunes)
  | account identity => .opening (.start config identity)
  | portfolio user => .portfolio (.reading user)
  | history user => .history (.looking user)
  | snapshots user => .snapshots (.reading user)

/-- What an operation hears without making a call. -/
inductive News where
  | clock (m : Moment)
  | price (answer : Except QuoteError Amount)
  /-- The deadline of what it waits for has passed. -/
  | late

/-- The state after some news, where it waits for them. -/
def Progress.hear? : Progress κ σ ρ → News → Option σ
  | .reading resume, .clock m => some (resume m)
  | .pricing _ _ _ resume, .price answer => some (resume answer)
  | .pricing _ _ d _, .late => d.map (·.2)
  | .calling _ d _, .late => d.map (·.2)
  | _, _ => none

/-- An operation within another hears what it would hear alone. -/
theorem Progress.hear?_map (f : σ → τ) (g : ρ → ρ') (p : Progress κ σ ρ) (news : News) :
    (p.map f g).hear? news = (p.hear? news).map f := by
  cases p with
  | pricing symbol maxAge d resume =>
      cases news with
      | late => cases d <;> rfl
      | _ => rfl
  | calling c d resume =>
      cases news with
      | late => cases d <;> rfl
      | _ => rfl
  | _ => cases news <;> rfl

/-- A call of an operation within another is a call that it would make alone. -/
theorem Progress.calling_of_map {f : σ → τ} {g : ρ → ρ'} {p : Progress κ σ ρ} {c : Call}
    {d : Deadline τ} {resume : Except StoreError c.Result → τ}
    (h : p.map f g = .calling c d resume) :
    ∃ d' resume', p = .calling c d' resume' ∧ ∀ r, resume r = f (resume' r) := by
  cases p with
  | calling c' d' resume' =>
      cases h
      exact ⟨d', resume', rfl, fun _ => rfl⟩
  | _ => exact absurd h (by simp only [map, reduceCtorEq, not_false_eq_true])

/-- A call that was made: by which visitor, in which state, and how it was answered. -/
structure Entry where
  visitor : Nat
  operation : Operation
  call : Call
  answer : Except StoreError call.Result

/-- An operation on the floor. One that was given up stays as it was. -/
structure Visit where
  operation : Operation
  present : Bool

/-- The books, the visitors by number, and the calls so far. -/
structure Floor where
  books : Books
  visits : List Visit
  journal : List Entry

/-- One step of anybody. -/
inductive Action where
  | enter (e : Errand)
  | hear (n : Nat) (news : News)
  | call (n : Nat) (now : Nat)
  | leave (n : Nat)
  /-- The expired lists are swept out of the history cache. -/
  | sweep (now : Nat)

namespace Floor

/-- The floor before anybody has come, over empty books. -/
def opened (config : TradingConfig) : Floor :=
  ⟨⟨.empty, .empty config.tradeHistoryTtl⟩, [], []⟩

/-- The operation of a visitor who is still there. -/
def present? (f : Floor) (n : Nat) : Option Operation :=
  match f.visits[n]? with
  | some ⟨x, true⟩ => some x
  | _ => none

/-- The floor with a visitor's operation in another state. -/
def goOn (f : Floor) (n : Nat) (x : Operation) : Floor :=
  { f with visits := f.visits.set n ⟨x, true⟩ }

/-- The floor after a call of a visitor, who goes on with the answer. -/
def called (f : Floor) (n now : Nat) (x : Operation) (c : Call)
    (resume : Except StoreError c.Result → Operation) : Floor :=
  { books := (c.perform f.books now).2
    visits := f.visits.set n ⟨resume (c.perform f.books now).1, true⟩
    journal := f.journal ++ [⟨n, x, c, (c.perform f.books now).1⟩] }

/-- The floor after one action, where it can be taken. -/
def step? (config : TradingConfig) (f : Floor) : Action → Option Floor
  | .enter e => some { f with visits := f.visits ++ [⟨e.operation config, true⟩] }
  | .hear n news =>
    match f.present? n with
    | some x => (x.next.hear? news).map (f.goOn n)
    | none => none
  | .call n now =>
    match f.present? n with
    | some x =>
      match x.next with
      | .calling c _ resume => some (f.called n now x c resume)
      | _ => none
    | none => none
  | .leave n =>
    match f.present? n with
    | some x => some { f with visits := f.visits.set n ⟨x, false⟩ }
    | none => none
  | .sweep now =>
    some { f with books := { f.books with histories := (f.books.histories.purge now).2 } }

/-- The floor after some actions, where all of them can be taken. -/
def run? (config : TradingConfig) (f : Floor) : List Action → Option Floor
  | [] => some f
  | a :: rest =>
    match f.step? config a with
    | some f => f.run? config rest
    | none => none

/-- What a step can be, with all that it changes. -/
inductive Move (config : TradingConfig) (f : Floor) : Action → Floor → Prop
  | enter (e : Errand) :
      Move config f (.enter e) { f with visits := f.visits ++ [⟨e.operation config, true⟩] }
  | hear (n : Nat) (news : News) (x y : Operation) (hx : f.visits[n]? = some ⟨x, true⟩)
      (hy : x.next.hear? news = some y) : Move config f (.hear n news) (f.goOn n y)
  | call (n now : Nat) (x : Operation) (c : Call) (d : Deadline Operation)
      (resume : Except StoreError c.Result → Operation) (hx : f.visits[n]? = some ⟨x, true⟩)
      (hnext : x.next = .calling c d resume) :
      Move config f (.call n now) (f.called n now x c resume)
  | leave (n : Nat) (x : Operation) (hx : f.visits[n]? = some ⟨x, true⟩) :
      Move config f (.leave n) { f with visits := f.visits.set n ⟨x, false⟩ }
  | sweep (now : Nat) :
      Move config f (.sweep now)
        { f with books := { f.books with histories := (f.books.histories.purge now).2 } }

/-- A visitor that changes is found in its new state. -/
theorem getElem?_set_visit {visits : List Visit} {n : Nat} {w : Visit} (h : visits[n]? = some w)
    (v : Visit) : (visits.set n v)[n]? = some v :=
  List.getElem?_set_self (List.getElem?_eq_some_iff.1 h).1

theorem getElem?_set_eq {visits : List Visit} {n : Nat} {w : Visit} (h : visits[n]? = some w)
    (v : Visit) (k : Nat) : (visits.set n v)[k]? = if k = n then some v else visits[k]? := by
  by_cases hk : k = n
  · rw [if_pos hk, hk, getElem?_set_visit h v]
  · rw [if_neg hk, List.getElem?_set_ne (Ne.symm hk)]

/-- After somebody has come, the visitors are those who were there and the new one. -/
theorem getElem?_concat_eq (visits : List Visit) (v : Visit) (k : Nat) :
    (visits ++ [v])[k]? = if k = visits.length then some v else visits[k]? := by
  rcases Nat.lt_trichotomy k visits.length with hk | hk | hk
  · rw [if_neg (by omega), List.getElem?_append_left hk]
  · rw [if_pos hk, hk, List.getElem?_concat_length]
  · have hlength : (visits ++ [v]).length ≤ k := by
      rw [List.length_append, List.length_singleton]
      omega
    rw [if_neg (by omega), List.getElem?_eq_none hlength, List.getElem?_eq_none (by omega)]

/-- After a visitor has changed, the visitors are that one and the others. -/
theorem of_getElem?_set {visits : List Visit} {n k : Nat} {v w : Visit}
    (h : (visits.set n v)[k]? = some w) : w = v ∨ visits[k]? = some w := by
  rw [List.getElem?_set] at h
  split at h
  · split at h
    · exact Or.inl (Option.some.inj h).symm
    · exact absurd h (by simp only [reduceCtorEq, not_false_eq_true])
  · exact Or.inr h

/-- There is one visitor under a number. -/
theorem visit_unique {visits : List Visit} {n : Nat} {x y : Operation} {p q : Bool}
    (hx : visits[n]? = some ⟨x, p⟩) (hy : visits[n]? = some ⟨y, q⟩) : x = y ∧ p = q := by
  rw [hx] at hy
  exact Visit.mk.inj (Option.some.inj hy)

theorem present?_eq_some {f : Floor} {n : Nat} {x : Operation} (h : f.present? n = some x) :
    f.visits[n]? = some ⟨x, true⟩ := by
  unfold present? at h
  split at h
  · next y hy =>
    rw [← Option.some.inj h]
    exact hy
  · exact absurd h (by simp only [reduceCtorEq, not_false_eq_true])

/-- A step is one of the five moves. -/
theorem step?_eq_some {config : TradingConfig} {f f' : Floor} {a : Action}
    (h : f.step? config a = some f') : Move config f a f' := by
  cases a with
  | enter e =>
      rw [← Option.some.inj h]
      exact .enter e
  | hear n news =>
      simp only [step?] at h
      split at h
      · next x hx =>
        rcases Option.map_eq_some_iff.1 h with ⟨y, hy, rfl⟩
        exact .hear n news x y (present?_eq_some hx) hy
      · exact absurd h (by simp only [reduceCtorEq, not_false_eq_true])
  | call n now =>
      simp only [step?] at h
      split at h
      · next x hx =>
        split at h
        · next c d resume hnext =>
          rw [← Option.some.inj h]
          exact .call n now x c d resume (present?_eq_some hx) hnext
        · exact absurd h (by simp only [reduceCtorEq, not_false_eq_true])
      · exact absurd h (by simp only [reduceCtorEq, not_false_eq_true])
  | leave n =>
      simp only [step?] at h
      split at h
      · next x hx =>
        rw [← Option.some.inj h]
        exact .leave n x (present?_eq_some hx)
      · exact absurd h (by simp only [reduceCtorEq, not_false_eq_true])
  | sweep now =>
      rw [← Option.some.inj h]
      exact .sweep now

/-- What holds at first and is kept by every move holds after every run. The moves may be told
apart by a test that all actions of the run pass. -/
theorem run?_induction {config : TradingConfig} (P : Floor → Prop) (allowed : Action → Prop)
    (hmove : ∀ f a f', allowed a → P f → Move config f a f' → P f') {actions : List Action}
    (hallowed : ∀ a ∈ actions, allowed a) {f f' : Floor} (hfirst : P f)
    (h : f.run? config actions = some f') : P f' := by
  -- On the actions, from any floor: the first step is a move and the rest is a shorter run.
  induction actions generalizing f with
  | nil =>
      rw [← Option.some.inj h]
      exact hfirst
  | cons a rest ih =>
      rw [run?] at h
      split at h
      · next g hg =>
        have ha := hallowed a List.mem_cons_self
        exact ih (fun b hb => hallowed b (List.mem_cons_of_mem a hb))
          (hmove f a g ha hfirst (step?_eq_some hg)) h
      · exact absurd h (by simp only [reduceCtorEq, not_false_eq_true])

/-! ## Moments of a run -/

theorem run?_append (config : TradingConfig) (f : Floor) (actions more : List Action) :
    f.run? config (actions ++ more) = (f.run? config actions).bind (·.run? config more) := by
  induction actions generalizing f with
  | nil => rfl
  | cons a rest ih =>
      rw [List.cons_append, run?, run?]
      cases f.step? config a with
      | none => rfl
      | some g => exact ih g

/-- A step makes one call or none. -/
theorem journal_of_move {config : TradingConfig} {f f' : Floor} {a : Action}
    (h : Move config f a f') :
    f'.journal = f.journal ∨ ∃ e, f'.journal = f.journal ++ [e] := by
  cases h with
  | call n now x c d resume hx hnext => exact Or.inr ⟨_, rfl⟩
  | _ => exact Or.inl rfl

/-- The calls made so far are the first calls of the journal from then on. -/
theorem journal_isPrefix {config : TradingConfig} {actions : List Action} {f f' : Floor}
    (h : f.run? config actions = some f') : f.journal <+: f'.journal := by
  refine run?_induction (fun g => f.journal <+: g.journal) (fun _ => True)
    (fun g a g' _ hg hmove => ?_) (fun _ _ => trivial) (List.prefix_refl _) h
  rcases journal_of_move hmove with heq | ⟨e, heq⟩
  · rw [heq]
    exact hg
  · rw [heq]
    exact hg.trans (List.prefix_append _ _)

theorem run?_concat {config : TradingConfig} {actions : List Action} {a : Action} {f g f' : Floor}
    (h : g.run? config actions = some f) (hstep : f.step? config a = some f') :
    g.run? config (actions ++ [a]) = some f' := by
  rw [run?_append, h, Option.bind_some, run?, hstep]
  rfl

/-- What holds at the first moment of a run, and at each next one if it holds at the one before,
holds at the last. -/
theorem moment_induction {config : TradingConfig} {f : Floor} (P : List Action → Floor → Prop)
    (hfirst : P [] f)
    (hmove : ∀ past a g g', f.run? config past = some g → P past g → Move config g a g' →
      P (past ++ [a]) g') {actions : List Action} {f' : Floor}
    (h : f.run? config actions = some f') : P actions f' := by
  induction actions using List.reverseRecOn generalizing f' with
  | nil =>
      rw [← Option.some.inj h]
      exact hfirst
  | append_singleton past a ih =>
      rw [run?_append] at h
      rcases Option.bind_eq_some_iff.1 h with ⟨g, hg, hlast⟩
      rw [run?] at hlast
      split at hlast
      · next g' hg' =>
        rw [← Option.some.inj hlast]
        exact hmove past a g g' hg (ih hg) (step?_eq_some hg')
      · exact absurd hlast (by simp only [reduceCtorEq, not_false_eq_true])

/-- Every call of the journal was made at some moment of the run, when the calls before it were all
the calls, by the visitor and in the state that the journal says. -/
theorem exists_moment {config : TradingConfig} {actions : List Action} {f : Floor}
    {calls : List Entry} {e : Entry} (h : (opened config).run? config actions = some f)
    (he : calls ++ [e] <+: f.journal) :
    ∃ past now g d resume, past ++ [.call e.visitor now] <+: actions ∧
      (opened config).run? config past = some g ∧ g.journal = calls ∧
      g.visits[e.visitor]? = some ⟨e.operation, true⟩ ∧
      e.operation.next = .calling e.call d resume := by
  refine moment_induction (fun actions f => calls ++ [e] <+: f.journal →
    ∃ past now g d resume, past ++ [.call e.visitor now] <+: actions ∧
      (opened config).run? config past = some g ∧ g.journal = calls ∧
      g.visits[e.visitor]? = some ⟨e.operation, true⟩ ∧
      e.operation.next = .calling e.call d resume) ?_ ?_ h he
  · intro he
    have hnil := List.prefix_nil.1 he
    exact absurd hnil (List.append_ne_nil_of_right_ne_nil _ (List.cons_ne_nil _ _))
  · -- The last step made the call, or it was made before.
    intro rest a g f hg ih hmove he
    by_cases hearlier : calls ++ [e] <+: g.journal
    · rcases ih hearlier with ⟨past, now, m, d, resume, hpast, hm⟩
      exact ⟨past, now, m, d, resume, hpast.trans (List.prefix_append _ _), hm⟩
    · cases hmove with
      | call n now x c d resume hx hnext =>
          rcases List.prefix_concat_iff.1 he with hall | hsome
          · rcases List.append_inj' hall rfl with ⟨hcalls, hlast⟩
            rw [List.singleton_inj.1 hlast]
            exact ⟨rest, now, g, d, resume, List.prefix_refl _, hg, hcalls.symm, hx, hnext⟩
          · exact absurd hsome hearlier
      | _ => exact absurd he hearlier

end Floor

end Bourse
