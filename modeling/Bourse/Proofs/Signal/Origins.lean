import Bourse.Proofs.Run
import Bourse.Proofs.Table
import Bourse.Signal

/-!
# Where Signals Come From

Handles, signals and waiters are made, copied, overwritten and given up under their
names, in any order. What a signal says must not depend on the names, but only on
what it stems from: a handle made together with it, or nothing at all. This module
says what each of them stems from by looking at the actions alone, and proves that
the numbers by which they share their sources follow it.

A history says two things more about what was made. It was *triggered* if a handle
that stems from it fired, and it is *cancelled* if it was made with a handle and was
triggered or has lost every handle that stems from it. What is cancelled stays so:
where no handle is left, none can be copied any more.

## Main definitions

* `Signals.Holder`: a handle, a signal or a waiter by its name.
* `Signals.Action`, `Signals.run?`: what can be done, and the signals afterwards.
* `Signals.Stems`: what a holder stems from, as its history says.
* `Signals.Triggered`, `Signals.Cancelled`: what a history says about what was made.
* `Signals.Tells`: the signals agree with their history.

## Theorems

* `source?_of_step?`, `stems_snoc_iff`: what one action does to a holder.
* `tells_of_run`: the signals agree with their history after every run.
* `Cancelled.mono`: what is cancelled stays cancelled.
* `isCancelled_iff`: a source is cancelled exactly when its history says so.
-/

namespace Bourse

namespace Signals

/-- A handle, a signal or a waiter. -/
inductive Holder where
  | handle (name : String)
  | signal (name : String)
  | waiter (name : String)
deriving DecidableEq

/-- What can be done with handles, signals and waiters. -/
inductive Action where
  | act (a : SignalAction)
  | spawn (signal waiter : String)
  | turn (waiter : String)

/-- The signals after one action, where it can be taken. -/
def step? (s : Signals) : Action → Option Signals
  | .act a => s.act? a
  | .spawn signal waiter => s.spawn signal waiter
  | .turn waiter => s.turn? waiter

/-- The signals after some actions, where all of them can be taken. -/
def run? (s : Signals) (actions : List Action) : Option Signals :=
  actions.foldlM step? s

/-- The source that a holder belongs to. -/
def source? (s : Signals) : Holder → Option Nat
  | .handle name => s.handles.get? name
  | .signal name => s.signals.get? name
  | .waiter name => (s.waiters.get? name).map (·.source)

/-! ## Histories -/

/-- What becomes of a holder. -/
inductive Fate where
  | made
  | copied (original : Holder)
  | gone
  | kept
deriving DecidableEq

/-- The holders that an action is about. -/
def Action.subjects : Action → List Holder
  | .act (.create handle signal) => [.handle handle, .signal signal]
  | .act (.never signal) => [.signal signal]
  | .act (.cloneHandle _ new) => [.handle new]
  | .act (.cloneSignal _ new) => [.signal new]
  | .act (.subscribe _ signal) => [.signal signal]
  | .act (.dropHandle handle) => [.handle handle]
  | .act (.dropSignal signal) => [.signal signal]
  | .spawn _ waiter => [.waiter waiter]
  | .act (.trigger _) | .turn _ => []

/-- What becomes of the holders that an action is about. -/
def Action.effect : Action → Fate
  | .act (.create _ _) | .act (.never _) => .made
  | .act (.cloneHandle old _) => .copied (.handle old)
  | .act (.cloneSignal old _) => .copied (.signal old)
  | .act (.subscribe handle _) => .copied (.handle handle)
  | .spawn signal _ => .copied (.signal signal)
  | .act (.dropHandle _) | .act (.dropSignal _) => .gone
  | .act (.trigger _) | .turn _ => .kept

/-- What becomes of any holder. One of the same name that was there before is lost. -/
def Action.fate (a : Action) (x : Holder) : Fate :=
  if x ∈ a.subjects then a.effect else .kept

/-- Whether an action makes a signal without a handle. -/
def Action.isNever : Action → Bool
  | .act (.never _) => true
  | _ => false

/-- Whether an action makes something that is no copy. -/
def Action.isMaking (a : Action) : Bool :=
  a.effect = .made

/-- What was made, the oldest first. -/
def makings (past : List Action) : List Action :=
  past.filter Action.isMaking

/-- A holder stems from the `n`-th of what was made. -/
inductive Stems : List Action → Holder → Nat → Prop where
  | made (past : List Action) {a : Action} {x : Holder} (h : a.fate x = .made) :
      Stems (past ++ [a]) x (makings past).length
  | copied {past : List Action} {a : Action} {x y : Holder} {n : Nat}
      (h : a.fate x = .copied y) (hy : Stems past y n) : Stems (past ++ [a]) x n
  | kept {past : List Action} {a : Action} {x : Holder} {n : Nat}
      (h : a.fate x = .kept) (hx : Stems past x n) : Stems (past ++ [a]) x n

/-- The `n`-th of what was made is a handle and its signal. -/
def Paired (past : List Action) (n : Nat) : Prop :=
  ∃ handle signal, (makings past)[n]? = some (.act (.create handle signal))

/-- The `n`-th of what was made is a signal without a handle. -/
def Lone (past : List Action) (n : Nat) : Prop :=
  ∃ signal, (makings past)[n]? = some (.act (.never signal))

/-- A handle that stems from the `n`-th of what was made has fired. -/
def Triggered (past : List Action) (n : Nat) : Prop :=
  ∃ before handle, before ++ [.act (.trigger handle)] <+: past ∧ Stems before (.handle handle) n

/-- The `n`-th of what was made has fired, by a handle or for lack of one. -/
def Cancelled (past : List Action) (n : Nat) : Prop :=
  Paired past n ∧ (Triggered past n ∨ ∀ handle, ¬ Stems past (.handle handle) n)

variable {s t : Signals} {a : Action} {past more : List Action} {x y : Holder} {n : Nat}

theorem makings_snoc : makings (past ++ [a]) = makings past ++ makings [a] :=
  List.filter_append ..

theorem stems_snoc_iff : Stems (past ++ [a]) x n ↔ match a.fate x with
    | .made => (makings past).length = n
    | .copied y => Stems past y n
    | .gone => False
    | .kept => Stems past x n := by
  constructor
  · intro h
    -- A history that ends with an action can only end with this one.
    generalize hlong : past ++ [a] = long at h
    cases h with
    | made past' hfate =>
        rcases List.append_inj' hlong rfl with ⟨rfl, hlast⟩
        rw [List.singleton_inj.1 hlast, hfate]
    | copied hfate hy =>
        rcases List.append_inj' hlong rfl with ⟨rfl, hlast⟩
        rw [List.singleton_inj.1 hlast, hfate]
        exact hy
    | kept hfate hx =>
        rcases List.append_inj' hlong rfl with ⟨rfl, hlast⟩
        rw [List.singleton_inj.1 hlast, hfate]
        exact hx
  · intro h
    cases hfate : a.fate x with
    | made =>
        rw [hfate] at h
        exact h ▸ .made past hfate
    | copied y =>
        rw [hfate] at h
        exact .copied hfate h
    | gone =>
        rw [hfate] at h
        exact h.elim
    | kept =>
        rw [hfate] at h
        exact .kept hfate h

theorem not_stems_nil : ¬ Stems [] x n := by
  intro h
  generalize hempty : ([] : List Action) = past at h
  cases h <;> exact List.append_ne_nil_of_right_ne_nil _ (List.cons_ne_nil _ _) hempty.symm

/-- Only what an action is about does not stay as it is. -/
theorem mem_subjects_of_fate {f : Fate} (h : a.fate x = f) (hf : f ≠ .kept) :
    x ∈ a.subjects ∧ a.effect = f := by
  unfold Action.fate at h
  split at h
  · next hx => exact ⟨hx, h⟩
  · exact absurd h.symm hf

/-- Only what makes something makes a holder that is no copy. -/
theorem isMaking_of_fate (h : a.fate x = .made) : a.isMaking = true :=
  decide_eq_true (mem_subjects_of_fate h Fate.noConfusion).2

/-- What is made comes last. -/
theorem getElem?_makings_snoc (h : a.isMaking = true) :
    (makings (past ++ [a]))[(makings past).length]? = some a := by
  rw [makings_snoc, List.getElem?_append_right (Nat.le_refl _), Nat.sub_self, makings,
    List.filter_cons_of_pos h]
  rfl

/-- What was made stays what it was. -/
theorem getElem?_makings_append {m : Action} (h : (makings past)[n]? = some m) :
    (makings (past ++ more))[n]? = some m := by
  rw [makings, List.filter_append]
  exact List.getElem?_append_left (List.getElem?_eq_some_iff.1 h).1 ▸ h

theorem Stems.lt_length (h : Stems past x n) : n < (makings past).length := by
  induction h with
  | made past hfate =>
      exact (List.getElem?_eq_some_iff.1 (getElem?_makings_snoc (isMaking_of_fate hfate))).1
  | copied _ _ ih | kept _ _ ih =>
      rw [makings_snoc, List.length_append]
      exact Nat.lt_add_right _ ih

theorem Paired.append (h : Paired past n) (more : List Action) : Paired (past ++ more) n := by
  rcases h with ⟨handle, signal, h⟩
  exact ⟨handle, signal, getElem?_makings_append h⟩

/-- A handle is made together with a signal. -/
theorem eq_create_of_fate (h : a.fate (.handle name) = .made) :
    ∃ signal, a = .act (.create name signal) := by
  rcases mem_subjects_of_fate h Fate.noConfusion with ⟨hmem, heffect⟩
  cases a with
  | act a =>
      cases a with
      | create handle signal =>
          simp only [Action.subjects, List.mem_cons, Holder.handle.injEq, reduceCtorEq,
            List.not_mem_nil, or_false] at hmem
          exact ⟨signal, by rw [hmem]⟩
      | _ => simp [Action.subjects, Action.effect] at hmem heffect
  | spawn signal waiter => cases heffect
  | turn waiter => cases heffect

/-- A handle is a copy of a handle. -/
theorem eq_handle_of_fate (h : a.fate (.handle name) = .copied y) : ∃ old, y = .handle old := by
  rcases mem_subjects_of_fate h Fate.noConfusion with ⟨hmem, heffect⟩
  cases a with
  | act a =>
      cases a with
      | cloneHandle old new => exact ⟨old, (Fate.copied.inj heffect).symm⟩
      | _ => simp [Action.subjects, Action.effect] at hmem heffect
  | spawn signal waiter => simp [Action.subjects] at hmem
  | turn waiter => cases heffect

/-- A handle stems from what was made with one. -/
theorem Stems.paired (h : Stems past (.handle name) n) : Paired past n := by
  generalize hx : Holder.handle name = x at h
  induction h generalizing name with
  | made past hfate =>
      rw [← hx] at hfate
      rcases eq_create_of_fate hfate with ⟨signal, rfl⟩
      exact ⟨name, signal, getElem?_makings_snoc rfl⟩
  | copied hfate _ ih =>
      rw [← hx] at hfate
      rcases eq_handle_of_fate hfate with ⟨old, rfl⟩
      exact (ih rfl).append _
  | kept _ _ ih => exact (ih hx).append _

theorem triggered_snoc_iff : Triggered (past ++ [a]) n ↔
    Triggered past n ∨ ∃ handle, a = .act (.trigger handle) ∧ Stems past (.handle handle) n := by
  constructor
  · rintro ⟨before, handle, hprefix, hstems⟩
    rcases List.prefix_concat_iff.1 hprefix with heq | hprefix
    · rcases List.append_inj' heq rfl with ⟨rfl, hlast⟩
      exact .inr ⟨handle, (List.singleton_inj.1 hlast).symm, hstems⟩
    · exact .inl ⟨before, handle, hprefix, hstems⟩
  · rintro (⟨before, handle, hprefix, hstems⟩ | ⟨handle, rfl, hstems⟩)
    · exact ⟨before, handle, hprefix.trans (List.prefix_append past [a]), hstems⟩
    · exact ⟨past, handle, List.prefix_rfl, hstems⟩

theorem Triggered.mono (h : Triggered past n) (more : List Action) :
    Triggered (past ++ more) n := by
  rcases h with ⟨before, handle, hprefix, hstems⟩
  exact ⟨before, handle, hprefix.trans (List.prefix_append past more), hstems⟩

/-- Where no handle is left, there is none afterwards. -/
theorem not_stems_snoc (hn : n < (makings past).length)
    (h : ∀ handle, ¬ Stems past (.handle handle) n) (handle : String) :
    ¬ Stems (past ++ [a]) (.handle handle) n := by
  rw [stems_snoc_iff]
  cases hfate : a.fate (.handle handle) with
  -- A handle that is made now is one of a new source.
  | made => exact fun heq => Nat.ne_of_gt hn heq
  | copied y =>
      rcases eq_handle_of_fate hfate with ⟨old, rfl⟩
      exact h old
  | gone => exact id
  | kept => exact h handle

/-- What is cancelled stays cancelled. -/
theorem Cancelled.mono (h : Cancelled past n) (more : List Action) :
    Cancelled (past ++ more) n := by
  induction more generalizing past with
  | nil => exact (List.append_nil past).symm ▸ h
  | cons a rest ih =>
      rw [← List.singleton_append, ← List.append_assoc]
      -- What has fired stays so, and where the handles are gone, none comes back.
      refine ih ⟨h.1.append [a], h.2.imp (fun ht => ht.mono [a]) (not_stems_snoc ?_)⟩
      rcases h.1 with ⟨handle, signal, hmade⟩
      exact (List.getElem?_eq_some_iff.1 hmade).1

/-! ## The signals follow their history -/

/-- The source that a holder belongs to after it was made, copied or left alone. -/
def Fate.source? (s : Signals) (x : Holder) : Fate → Option Nat
  | .made => some s.sources.length
  | .copied y => s.source? y
  | .gone => none
  | .kept => s.source? x

theorem get?_filter_ne (t : Table String Nat) (name other : String) :
    (t.filter (fun k _ => !decide (k = name))).get? other =
      if other = name then none else t.get? other := by
  refine Option.ext (fun i => ?_)
  rw [Table.get?_filter_eq_some]
  by_cases h : other = name
  · simp only [h, decide_true, Bool.not_true, Bool.false_eq_true, and_false, if_true, reduceCtorEq]
  · simp only [h, decide_false, Bool.not_false, and_true, if_false]

theorem source?_turn? (h : s.turn? waiter = some t) (x : Holder) : t.source? x = s.source? x := by
  rcases Option.bind_eq_some_iff.1 h with ⟨w, hw, h⟩
  rcases Option.bind_eq_some_iff.1 h with ⟨src, -, h⟩
  rcases Option.map_eq_some_iff.1 h with ⟨phase, -, rfl⟩
  cases x with
  | handle name | signal name => rfl
  | waiter name =>
      rw [source?, source?, Table.get?_insert_eq]
      split
      · next heq => rw [heq, hw]; rfl
      · rfl

/-- What one action does to the source of a holder. -/
theorem source?_of_step? (h : s.step? a = some t) (x : Holder) :
    t.source? x = (a.fate x).source? s x := by
  have hfate : (a.fate x).source? s x =
      if x ∈ a.subjects then a.effect.source? s x else s.source? x := by
    unfold Action.fate
    split <;> rfl
  rw [hfate]
  cases a with
  | turn waiter => exact source?_turn? h x
  | spawn signal waiter =>
      rcases Option.map_eq_some_iff.1 h with ⟨i, hi, rfl⟩
      cases x <;> simp [source?, Action.subjects, Action.effect, Fate.source?, hi,
        Table.get?_insert_eq, -Table.get?_insert, apply_ite (Option.map SignalWaiter.source)]
  | act a =>
      cases a with
      | create handle signal | never signal =>
          cases Option.some.inj h
          cases x <;> simp [source?, Action.subjects, Action.effect, Fate.source?, create, never,
            Table.get?_insert_eq, -Table.get?_insert]
      | cloneHandle old new | cloneSignal old new | subscribe old new =>
          rcases Option.map_eq_some_iff.1 h with ⟨i, hi, rfl⟩
          cases x <;> simp [source?, Action.subjects, Action.effect, Fate.source?, hi,
            Table.get?_insert_eq, -Table.get?_insert]
      | trigger handle =>
          rcases Option.map_eq_some_iff.1 h with ⟨i, -, rfl⟩
          cases x <;> rfl
      | dropHandle name | dropSignal name =>
          rcases Option.map_eq_some_iff.1 h with ⟨i, -, rfl⟩
          cases x <;> simp [source?, Action.subjects, Action.effect, Fate.source?, get?_filter_ne]

/-- An action makes sources that have not fired, or it fires one. -/
theorem sources_of_step? (h : s.step? a = some t) :
    (∀ handle, a ≠ .act (.trigger handle)) ∧
      t.sources = s.sources ++ (makings [a]).map (fun m => ⟨false, 0, m.isNever⟩) ∨
    ∃ handle i, a = .act (.trigger handle) ∧ s.source? (.handle handle) = some i ∧
      t.sources = s.sources.modify i .fire := by
  cases a with
  | turn waiter =>
      rcases Option.bind_eq_some_iff.1 h with ⟨w, -, h⟩
      rcases Option.bind_eq_some_iff.1 h with ⟨src, -, h⟩
      rcases Option.map_eq_some_iff.1 h with ⟨phase, -, rfl⟩
      exact .inl ⟨fun _ => Action.noConfusion, (List.append_nil _).symm⟩
  | spawn signal waiter =>
      rcases Option.map_eq_some_iff.1 h with ⟨i, -, rfl⟩
      exact .inl ⟨fun _ => Action.noConfusion, (List.append_nil _).symm⟩
  | act a =>
      cases a with
      | create handle signal | never signal =>
          cases Option.some.inj h
          exact .inl ⟨fun _ heq => SignalAction.noConfusion (Action.act.inj heq), rfl⟩
      | cloneHandle old new | cloneSignal old new | subscribe old new | dropHandle old
      | dropSignal old =>
          rcases Option.map_eq_some_iff.1 h with ⟨i, -, rfl⟩
          exact .inl ⟨fun _ heq => SignalAction.noConfusion (Action.act.inj heq),
            (List.append_nil _).symm⟩
      | trigger handle =>
          rcases Option.map_eq_some_iff.1 h with ⟨i, hi, rfl⟩
          exact .inr ⟨handle, i, rfl, hi, rfl⟩

/-- The signals agree with their history. -/
structure Tells (past : List Action) (s : Signals) : Prop where
  source : ∀ x n, s.source? x = some n ↔ Stems past x n
  eternal : s.sources.map (·.eternal) = (makings past).map Action.isNever
  fired : ∀ n, s.hasFired n = true ↔ Triggered past n
  /-- Whoever counts the firings knows whether there was one. -/
  firings : ∀ src ∈ s.sources, src.fired = true ↔ src.firings ≠ 0

theorem Tells.length (h : Tells past s) : s.sources.length = (makings past).length := by
  have hlength := congrArg List.length h.eternal
  rwa [List.length_map, List.length_map] at hlength

theorem Tells.lt_length (h : Tells past s) (hx : Stems past x n) : n < s.sources.length :=
  h.length ▸ hx.lt_length

theorem tells_empty : Tells [] empty where
  source x n := by
    refine ⟨fun h => ?_, fun h => absurd h not_stems_nil⟩
    cases x <;> cases h
  eternal := rfl
  fired n := by
    refine ⟨fun h => absurd h Bool.false_ne_true, ?_⟩
    rintro ⟨before, handle, hprefix, -⟩
    exact absurd (List.prefix_nil.1 hprefix)
      (List.append_ne_nil_of_right_ne_nil _ (List.cons_ne_nil _ _))
  firings src hsrc := absurd hsrc List.not_mem_nil

theorem Tells.source_of_step? (htells : Tells past s) (h : s.step? a = some t) (x : Holder)
    (n : Nat) : t.source? x = some n ↔ Stems (past ++ [a]) x n := by
  rw [source?_of_step? h, stems_snoc_iff]
  cases a.fate x with
  | made => rw [Fate.source?, htells.length, Option.some.injEq]
  | copied y => exact htells.source y n
  | gone => exact iff_of_false (by simp only [Fate.source?, reduceCtorEq, not_false_eq_true]) id
  | kept => exact htells.source x n

/-- New sources have not fired. -/
theorem Tells.of_made (htells : Tells past s) (h : s.step? a = some t)
    (hquiet : ∀ handle, a ≠ .act (.trigger handle))
    (hsources : t.sources = s.sources ++ (makings [a]).map (fun m => ⟨false, 0, m.isNever⟩)) :
    Tells (past ++ [a]) t where
  source := htells.source_of_step? h
  eternal := by
    rw [hsources, makings_snoc, List.map_append, List.map_append, htells.eternal, List.map_map]
    rfl
  fired n := by
    -- Beyond the sources there were, nothing has fired, and so it is with the new ones.
    have hsame : t.hasFired n = s.hasFired n := by
      rw [hasFired, hasFired, hsources, List.getElem?_append]
      split
      · rfl
      · next hn =>
        rw [List.getElem?_eq_none (Nat.not_lt.1 hn), List.getElem?_map, Option.any_map]
        cases (makings [a])[n - s.sources.length]? <;> rfl
    rw [hsame, htells.fired, triggered_snoc_iff]
    exact (or_iff_left (fun ⟨handle, heq, _⟩ => hquiet handle heq)).symm
  firings src hsrc := by
    rw [hsources] at hsrc
    rcases List.mem_append.1 hsrc with hold | hnew
    · exact htells.firings src hold
    · rcases List.mem_map.1 hnew with ⟨m, -, rfl⟩
      exact iff_of_false Bool.false_ne_true (fun hne => hne rfl)

/-- A firing is told of the source of the handle that was used. -/
theorem Tells.of_fired (htells : Tells past s) {handle : String} {i : Nat}
    (h : s.step? (.act (.trigger handle)) = some t) (hi : s.source? (.handle handle) = some i)
    (hsources : t.sources = s.sources.modify i .fire) :
    Tells (past ++ [.act (.trigger handle)]) t where
  source := htells.source_of_step? h
  eternal := by
    have hsame : (s.sources.modify i .fire).map (·.eternal) = s.sources.map (·.eternal) := by
      refine List.ext_getElem? (fun n => ?_)
      rw [List.getElem?_map, List.getElem?_map, List.getElem?_modify]
      cases s.sources[n]? with
      | none => rfl
      | some src =>
          rw [Option.map_eq_map, Option.map_some, Option.map_some, Option.map_some]
          split <;> rfl
    rw [hsources, hsame, htells.eternal, makings_snoc]
    exact congrArg _ (List.append_nil _).symm
  fired n := by
    have hlt := htells.lt_length ((htells.source _ i).1 hi)
    -- The handle belongs to one source, and this is the one that fires.
    have hthis : (∃ name, Action.act (.trigger handle) = .act (.trigger name) ∧
        Stems past (.handle name) n) ↔ i = n := by
      constructor
      · rintro ⟨name, heq, hstems⟩
        cases heq
        exact Option.some.inj (hi.symm.trans ((htells.source _ n).2 hstems))
      · rintro rfl
        exact ⟨handle, rfl, (htells.source _ i).1 hi⟩
    rw [triggered_snoc_iff, ← htells.fired, hthis, hasFired, hasFired, hsources,
      List.getElem?_modify]
    by_cases hin : i = n
    · rw [← hin, List.getElem?_eq_getElem hlt]
      simp [SignalSource.fire]
    · simp [hin]
  firings src hsrc := by
    rw [hsources] at hsrc
    rcases List.mem_iff_getElem?.1 hsrc with ⟨n, hn⟩
    rw [List.getElem?_modify] at hn
    rcases Option.map_eq_some_iff.1 hn with ⟨old, hold, rfl⟩
    split
    · exact iff_of_true rfl (Nat.succ_ne_zero _)
    · exact htells.firings old (List.mem_of_getElem? hold)

theorem tells_of_step? (htells : Tells past s) (h : s.step? a = some t) :
    Tells (past ++ [a]) t := by
  rcases sources_of_step? h with ⟨hquiet, hsources⟩ | ⟨handle, i, rfl, hi, hsources⟩
  · exact htells.of_made h hquiet hsources
  · exact htells.of_fired h hi hsources

/-- The signals agree with their history after every run. -/
theorem tells_of_run {actions : List Action} (h : run? empty actions = some s) :
    Tells actions s :=
  run_induction Tells tells_empty (fun _ _ _ _ _ htells hstep => tells_of_step? htells hstep) h

theorem hasHandle_iff {i : Nat} :
    s.hasHandle i = true ↔ ∃ handle, s.source? (.handle handle) = some i := by
  rw [hasHandle, List.any_eq_true]
  constructor
  · rintro ⟨⟨handle, j⟩, hmem, heq⟩
    rw [← of_decide_eq_true heq]
    exact ⟨handle, Table.mem_entries_iff.1 hmem⟩
  · rintro ⟨handle, h⟩
    exact ⟨(handle, i), Table.mem_entries_iff.2 h, decide_eq_true rfl⟩

/-- A source is one that was made with a handle, or without. -/
theorem Tells.made (h : Tells past s) {src : SignalSource} (hsrc : s.sources[n]? = some src) :
    src.eternal = true ∧ Lone past n ∨ src.eternal = false ∧ Paired past n := by
  have hn : ((makings past).map Action.isNever)[n]? = some src.eternal := by
    rw [← h.eternal, List.getElem?_map, hsrc]
    rfl
  rw [List.getElem?_map] at hn
  rcases Option.map_eq_some_iff.1 hn with ⟨m, hm, heq⟩
  have hmaking : m.effect = .made :=
    of_decide_eq_true (List.mem_filter.1 (List.mem_of_getElem? hm)).2
  rw [← heq]
  cases m with
  | act a =>
      cases a with
      | create handle signal => exact .inr ⟨rfl, handle, signal, hm⟩
      | never signal => exact .inl ⟨rfl, signal, hm⟩
      | _ => cases hmaking
  | spawn signal waiter => cases hmaking
  | turn waiter => cases hmaking

theorem not_lone_of_paired (h : Paired past n) : ¬ Lone past n := by
  rcases h with ⟨handle, signal, h⟩
  rintro ⟨signal', h'⟩
  cases h.symm.trans h'

/-- A source is cancelled exactly when its history says so. -/
theorem Tells.isCancelled_iff (h : Tells past s) (hn : n < s.sources.length) :
    s.isCancelled n = true ↔ Cancelled past n := by
  have hsrc := List.getElem?_eq_getElem hn
  have hfired : s.sources[n].fired = true ↔ Triggered past n := by
    rw [← h.fired, hasFired, hsrc, Option.any_some]
  have hhandle : s.hasHandle n = true ↔ ∃ handle, Stems past (.handle handle) n := by
    simp only [hasHandle_iff, h.source]
  rw [isCancelled, hsrc, Cancelled, Bool.or_eq_true, hfired, Bool.and_eq_true, Bool.not_eq_true',
    Bool.not_eq_true', ← Bool.not_eq_true (s.hasHandle n), hhandle, not_exists]
  rcases h.made hsrc with ⟨heternal, hlone⟩ | ⟨heternal, hpaired⟩
  · -- Nothing that could fire stems from what was made without a handle.
    have hnone : ¬ Paired past n := fun hpaired => not_lone_of_paired hpaired hlone
    have hquiet : ¬ Triggered past n := by
      rintro ⟨before, handle, ⟨rest, rfl⟩, hstems⟩
      exact hnone (((hstems.paired.append _).append _))
    simp [heternal, hnone, hquiet]
  · simp [heternal, hpaired]

/-- A signal that is asked and those who know its source give the same answer. A signal made
without a handle is still a sender of its own. -/
theorem Tells.signalCancelled_eq (h : Tells past s) (name : String) :
    s.signalCancelled name = (s.signals.get? name).map s.isCancelled := by
  refine Option.map_congr (fun i hi => ?_)
  have hlt := h.lt_length ((h.source (.signal name) i).1 hi)
  have hsrc := List.getElem?_eq_getElem hlt
  -- The signal that is asked holds on to its source.
  have hsignal : s.hasSignal i = true := by
    rw [hasSignal, Bool.or_eq_true]
    exact .inl (List.any_eq_true.2 ⟨(name, i), Table.mem_entries_iff.2 hi, decide_eq_true rfl⟩)
  rw [isCancelled, hasFired, hasSender, hsrc, hsignal]
  simp [Bool.and_comm]

end Signals

end Bourse
