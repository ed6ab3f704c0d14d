import Bourse.Proofs.Signal.Origins

/-!
# Waiting for Signals

A signal can be asked whether it has fired, and it can be waited on, and the two go by
different things. Who asks sees whether it has fired and whether a sender is left. Who
waits compares the number of firings with the number it has seen, and may sleep while
others fire, copy and give up handles.

They agree nevertheless. A waiter goes to sleep only after it has seen that nothing was
fired, so what it compares with is always nought, and a firing that comes between its
look and its sleep wakes it. And one who waits on a signal that never fires keeps that
signal alive itself.

## Main definitions

* `Signals.Heeds`: what is known of a waiter in each phase.
* `Signals.AtRest`: no waiter has a step.
* `Signals.Agrees`: what signals, handles and waiters say is what their history says.

## Theorems

* `turn?_eq`: the step of a waiter, by what it waits on alone.
* `heeds_of_run`: what is known of the waiters after every run.
* `woken_iff`: at rest, a waiter has ended exactly if its source is cancelled.
* `settles`: letting every waiter go as far as it can takes their steps and ends at rest.
* `agrees_of_run`: signals that are asked and signals that are waited on agree.
-/

namespace Bourse

/-- How far a waiter has come after its next step, or where it is without one. -/
def SignalPhase.next (src : SignalSource) (sender : Bool) (p : SignalPhase) : SignalPhase :=
  (p.next? src sender).getD p

/-- One who looks goes as far as it can in two steps. -/
theorem SignalPhase.next?_looking (src : SignalSource) (sender : Bool) :
    ((looking.next src sender).next src sender).next? src sender = none := by
  by_cases hfired : src.fired = true
  · simp [next, next?, hfired]
  · cases sender <;> simp [next, next?, hfired]

/-- A waiter goes as far as it can in three steps: it wakes, looks, and sleeps or ends. -/
theorem SignalPhase.next?_three (src : SignalSource) (sender : Bool) (p : SignalPhase) :
    (((p.next src sender).next src sender).next src sender).next? src sender = none := by
  -- One that has no step any more stays where it is.
  have hstill : ∀ q : SignalPhase, q.next? src sender = none → q.next src sender = q :=
    fun q hq => by rw [next, hq, Option.getD_none]
  cases p with
  | looking =>
      have hlast := next?_looking src sender
      rw [hstill _ hlast]
      exact hlast
  | waiting seen =>
      by_cases hseen : src.firings = seen
      · cases sender <;> simp [next, next?, hseen]
      · have hwake : (waiting seen).next src sender = looking := by
          simp only [next, next?, hseen, ne_eq, not_false_eq_true, if_true, Option.getD_some]
        rw [hwake]
        exact next?_looking src sender
  | done => rfl

namespace Signals

variable {s t : Signals} {a : Action} {past : List Action} {w : SignalWaiter} {src : SignalSource}
  {waiter : String}

/-- No waiter has a step. -/
def AtRest (s : Signals) : Prop := ∀ waiter, s.turn? waiter = none

/-- One who waits on a signal that never fires keeps it alive. -/
theorem hasSender_eq (hw : s.waiters.get? waiter = some w) (hphase : w.phase ≠ .done)
    (hsrc : s.sources[w.source]? = some src) :
    s.hasSender w.source = (s.hasHandle w.source || src.eternal) := by
  have hsignal : s.hasSignal w.source = true := by
    rw [hasSignal, Bool.or_eq_true]
    refine .inr (List.any_eq_true.2 ⟨(waiter, w), Table.mem_entries_iff.2 hw, ?_⟩)
    simp only [decide_true, ne_eq, hphase, not_false_eq_true, Bool.and_self]
  rw [hasSender, hsrc, hsignal, Option.any_some, Bool.and_true]

/-- The step of a waiter, by what it waits on alone. -/
theorem turn?_eq (hw : s.waiters.get? waiter = some w) (hsrc : s.sources[w.source]? = some src) :
    s.turn? waiter = (w.phase.next? src (s.hasHandle w.source || src.eternal)).map (fun phase =>
      { s with waiters := s.waiters.insert waiter { w with phase } }) := by
  rw [turn?, hw, Option.bind_some, hsrc, Option.bind_some]
  by_cases hphase : w.phase = .done
  · rw [hphase]
    rfl
  · rw [hasSender_eq hw hphase hsrc]

/-! ## Going as far as possible -/

/-- Two states that differ in how far some waiters have come. -/
structure Aside (s t : Signals) : Prop where
  sources : t.sources = s.sources
  handles : t.handles = s.handles
  signals : t.signals = s.signals

theorem Aside.trans {r : Signals} (h : r.Aside s) (h' : s.Aside t) : r.Aside t :=
  ⟨h'.sources.trans h.sources, h'.handles.trans h.handles, h'.signals.trans h.signals⟩

/-- The turns of some waiters lead from one state to another. -/
def Reaches (s t : Signals) : Prop :=
  ∃ waiters : List String, s.run? (waiters.map .turn) = some t

theorem Reaches.refl (s : Signals) : s.Reaches s := ⟨[], rfl⟩

theorem Reaches.trans {r : Signals} (h : r.Reaches s) (h' : s.Reaches t) : r.Reaches t := by
  rcases h with ⟨waiters, h⟩
  rcases h' with ⟨waiters', h'⟩
  refine ⟨waiters ++ waiters', ?_⟩
  rw [List.map_append, run?, List.foldlM_append, show List.foldlM step? r _ = some s from h]
  exact h'

theorem reaches_goOn (s : Signals) (waiter : String) : s.Reaches (s.goOn waiter) := by
  rw [goOn]
  cases hturn : s.turn? waiter with
  | none => exact .refl s
  | some t =>
      refine ⟨[waiter], ?_⟩
      rw [List.map_singleton, run?, List.foldlM_cons, step?, hturn]
      rfl

/-- A waiter without a step has none after others have taken theirs. -/
theorem turn?_eq_none_of_aside (h : s.Aside t)
    (hsame : t.waiters.get? waiter = s.waiters.get? waiter) (hstill : s.turn? waiter = none) :
    t.turn? waiter = none := by
  cases hw : s.waiters.get? waiter with
  | none => rw [turn?, hsame, hw, Option.bind_none]
  | some w =>
      cases hsrc : s.sources[w.source]? with
      | none => rw [turn?, hsame, hw, Option.bind_some, h.sources, hsrc, Option.bind_none]
      | some src =>
          rw [turn?_eq hw hsrc, Option.map_eq_none_iff] at hstill
          rw [turn?_eq (hsame.trans hw) (h.sources ▸ hsrc), hasHandle, h.handles,
            Option.map_eq_none_iff]
          exact hstill

/-- What a turn does: the one who takes it comes further, and nothing else changes. -/
theorem goOn_of_waits (hw : s.waiters.get? waiter = some w)
    (hsrc : s.sources[w.source]? = some src) :
    s.Aside (s.goOn waiter) ∧
      (∀ name, name ≠ waiter → (s.goOn waiter).waiters.get? name = s.waiters.get? name) ∧
      (s.goOn waiter).waiters.get? waiter =
        some { w with phase := w.phase.next src (s.hasHandle w.source || src.eternal) } := by
  rw [goOn, turn?_eq hw hsrc, SignalPhase.next]
  cases w.phase.next? src (s.hasHandle w.source || src.eternal) with
  | none => exact ⟨⟨rfl, rfl, rfl⟩, fun _ _ => rfl, hw⟩
  | some phase =>
      exact ⟨⟨rfl, rfl, rfl⟩, fun name hname => Table.get?_insert_of_ne _ _ hname,
        Table.get?_insert_self ..⟩

theorem finish_eq_self (h : s.turn? waiter = none) : s.finish waiter = s := by
  have hgo : s.goOn waiter = s := by rw [goOn, h, Option.getD_none]
  rw [finish, hgo, hgo, hgo]

/-- After it has gone as far as it can, a waiter has no step, and nobody else is affected. -/
theorem finish_spec (s : Signals) (waiter : String) :
    s.Aside (s.finish waiter) ∧
      (∀ name, name ≠ waiter → (s.finish waiter).waiters.get? name = s.waiters.get? name) ∧
      (s.finish waiter).turn? waiter = none := by
  have hstill : s.turn? waiter = none → s.Aside (s.finish waiter) ∧
      (∀ name, name ≠ waiter → (s.finish waiter).waiters.get? name = s.waiters.get? name) ∧
      (s.finish waiter).turn? waiter = none := by
    intro hnone
    rw [finish_eq_self hnone]
    exact ⟨⟨rfl, rfl, rfl⟩, fun _ _ => rfl, hnone⟩
  cases hw : s.waiters.get? waiter with
  | none => exact hstill (by rw [turn?, hw, Option.bind_none])
  | some w =>
      cases hsrc : s.sources[w.source]? with
      | none => exact hstill (by rw [turn?, hw, Option.bind_some, hsrc, Option.bind_none])
      | some src =>
          rcases goOn_of_waits hw hsrc with ⟨haside₁, hothers₁, hw₁⟩
          rcases goOn_of_waits hw₁ (haside₁.sources ▸ hsrc) with ⟨haside₂, hothers₂, hw₂⟩
          rcases goOn_of_waits hw₂ (haside₂.sources ▸ haside₁.sources ▸ hsrc) with
            ⟨haside₃, hothers₃, hw₃⟩
          have haside := (haside₁.trans haside₂).trans haside₃
          refine ⟨haside, fun name hname => ?_, ?_⟩
          · exact ((hothers₃ name hname).trans (hothers₂ name hname)).trans (hothers₁ name hname)
          · rw [finish, turn?_eq hw₃ (haside.sources ▸ hsrc), Option.map_eq_none_iff]
            simp only [hasHandle, haside₁.handles, haside₂.handles, haside₃.handles]
            exact SignalPhase.next?_three src _ w.phase

/-- The waiters go as far as they can one after the other. -/
theorem settle_spec (names : List String) (s : Signals) :
    s.Reaches (names.foldl finish s) ∧ s.Aside (names.foldl finish s) ∧
      (∀ name ∈ names, (names.foldl finish s).turn? name = none) ∧
      ∀ name, s.turn? name = none → (names.foldl finish s).turn? name = none := by
  induction names generalizing s with
  | nil => exact ⟨.refl s, ⟨rfl, rfl, rfl⟩, fun _ h => absurd h List.not_mem_nil, fun _ => id⟩
  | cons waiter rest ih =>
      -- The first one has no step after it went on, and the others do not give it one.
      rcases ih (s.finish waiter) with ⟨hreach, haside, hrest, hkeeps⟩
      rcases finish_spec s waiter with ⟨haside', hothers, hdone⟩
      have hthree : s.Reaches (s.finish waiter) :=
        ((reaches_goOn s waiter).trans (reaches_goOn _ waiter)).trans (reaches_goOn _ waiter)
      refine ⟨hthree.trans hreach, haside'.trans haside, fun name hname => ?_, fun name hname => ?_⟩
      · rcases List.mem_cons.1 hname with rfl | hname
        · exact hkeeps name hdone
        · exact hrest name hname
      · by_cases heq : name = waiter
        · exact hkeeps name (heq ▸ hdone)
        · exact hkeeps name (turn?_eq_none_of_aside haside' (hothers name heq) hname)

/-- Letting every waiter go as far as it can takes their steps and ends at rest. -/
theorem settles (s : Signals) : s.Reaches s.settle ∧ s.settle.AtRest := by
  rcases settle_spec s.waiters.keys s with ⟨hreach, haside, hrest, hkeeps⟩
  refine ⟨hreach, fun waiter => ?_⟩
  by_cases hmem : waiter ∈ s.waiters.keys
  · exact hrest waiter hmem
  · -- Who does not wait has no step at all.
    refine hkeeps waiter ?_
    rw [Table.mem_keys_iff, Option.not_isSome_iff_eq_none] at hmem
    rw [turn?, hmem, Option.bind_none]

/-! ## What waiters know -/

/-- What is known of a waiter in each phase. -/
def Heeds (past : List Action) (w : SignalWaiter) : Prop :=
  match w.phase with
  | .looking => True
  -- It went to sleep because nothing had been fired.
  | .waiting seen => seen = 0
  | .done => Cancelled past w.source

theorem Heeds.mono (h : Heeds past w) (more : List Action) : Heeds (past ++ more) w := by
  unfold Heeds at h ⊢
  split
  · trivial
  · next seen hphase =>
    rw [hphase] at h
    exact h
  · next hphase =>
    rw [hphase] at h
    exact Cancelled.mono h more

/-- Where a firing or the lack of a sender is seen, the source is cancelled. -/
theorem Tells.cancelled_of (h : Tells past s) (hsrc : s.sources[w.source]? = some src)
    (hoff : src.fired = true ∨ s.hasHandle w.source = false ∧ src.eternal = false) :
    Cancelled past w.source := by
  rw [← h.isCancelled_iff (List.getElem?_eq_some_iff.1 hsrc).1, isCancelled, hsrc]
  rcases hoff with hfired | ⟨hhandle, heternal⟩
  · simp only [hfired, Bool.true_or]
  · simp only [hhandle, heternal, Bool.not_false, Bool.and_self, Bool.or_true]

/-- The next step of a waiter leaves it with what is known of its next phase. -/
theorem heeds_next (h : Tells past s) (hsrc : s.sources[w.source]? = some src)
    {phase : SignalPhase}
    (hnext : w.phase.next? src (s.hasHandle w.source || src.eternal) = some phase) :
    Heeds past { w with phase } := by
  cases hphase : w.phase with
  | looking =>
      rw [hphase, SignalPhase.next?, Option.some.injEq] at hnext
      rw [← hnext]
      by_cases hfired : src.fired = true
      · rw [if_pos hfired]
        exact h.cancelled_of hsrc (.inl hfired)
      · -- It goes to sleep with the count of firings, and there were none.
        rw [if_neg hfired]
        by_contra hfirings
        exact hfired ((h.firings src (List.mem_of_getElem? hsrc)).2 hfirings)
  | waiting seen =>
      rw [hphase, SignalPhase.next?] at hnext
      split at hnext
      · rw [← Option.some.inj hnext]
        trivial
      · split at hnext
        · exact absurd hnext (by simp only [reduceCtorEq, not_false_eq_true])
        · next hgone =>
          rw [← Option.some.inj hnext]
          rw [Bool.not_eq_true, Bool.or_eq_false_iff] at hgone
          exact h.cancelled_of hsrc (.inr hgone)
  | done =>
      rw [hphase, SignalPhase.next?] at hnext
      exact absurd hnext (by simp only [reduceCtorEq, not_false_eq_true])

/-- What is done with handles and signals does not move a waiter. -/
theorem waiters_act? {act : SignalAction} (h : s.act? act = some t) : t.waiters = s.waiters := by
  cases act with
  | create handle signal | never signal =>
      cases Option.some.inj h
      rfl
  | _ =>
      rcases Option.map_eq_some_iff.1 h with ⟨i, -, rfl⟩
      rfl

/-- What is known of the waiters after every run. -/
theorem heeds_of_run {actions : List Action} (h : run? empty actions = some s) :
    ∀ waiter w, s.waiters.get? waiter = some w → Heeds actions w := by
  refine run_induction (fun past s => ∀ waiter w, s.waiters.get? waiter = some w → Heeds past w)
    (fun waiter w hw => ?_) (fun past a r s hrun ih hstep waiter w hw => ?_) h
  · rw [empty, Table.get?_empty] at hw
    cases hw
  have htells : Tells past r := tells_of_run hrun
  cases a with
  | act act =>
      rw [waiters_act? hstep] at hw
      exact (ih waiter w hw).mono _
  | spawn signal name =>
      rcases Option.map_eq_some_iff.1 hstep with ⟨i, -, rfl⟩
      rw [Table.get?_insert_eq] at hw
      split at hw
      · rw [← Option.some.inj hw]
        trivial
      · exact (ih waiter w hw).mono _
  | turn name =>
      -- Only the waiter whose turn it is comes to another phase.
      rcases Option.bind_eq_some_iff.1 hstep with ⟨v, hv, hrest⟩
      rcases Option.bind_eq_some_iff.1 hrest with ⟨src, hsrc, -⟩
      rw [step?, turn?_eq hv hsrc] at hstep
      rcases Option.map_eq_some_iff.1 hstep with ⟨phase, hnext, rfl⟩
      rw [Table.get?_insert_eq] at hw
      split at hw
      · rw [← Option.some.inj hw]
        exact (heeds_next htells hsrc hnext).mono _
      · exact (ih waiter w hw).mono _

/-- At rest, a waiter has ended exactly if its source is cancelled. -/
theorem woken_iff {actions : List Action} (h : run? empty actions = some s) (hrest : s.AtRest)
    (hw : s.waiters.get? waiter = some w) : w.phase = .done ↔ Cancelled actions w.source := by
  have htells := tells_of_run h
  have hheeds := heeds_of_run h waiter w hw
  have hlt : w.source < s.sources.length :=
    htells.lt_length ((htells.source (.waiter waiter) _).1 (by rw [source?, hw, Option.map_some]))
  have hsrc := List.getElem?_eq_getElem hlt
  have hstill := hrest waiter
  rw [turn?_eq hw hsrc, Option.map_eq_none_iff] at hstill
  cases hphase : w.phase with
  | looking =>
      rw [hphase, SignalPhase.next?] at hstill
      exact absurd hstill (by simp only [reduceCtorEq, not_false_eq_true])
  | waiting seen =>
      -- It sleeps: nothing was fired, and somebody is left who could.
      rw [Heeds, hphase] at hheeds
      rw [hphase, SignalPhase.next?, show seen = 0 from hheeds] at hstill
      refine iff_of_false SignalPhase.noConfusion ?_
      rw [← htells.isCancelled_iff hlt, isCancelled, hsrc, Bool.or_eq_true, not_or]
      split at hstill
      · exact absurd hstill (by simp only [reduceCtorEq, not_false_eq_true])
      · next hquiet =>
        split at hstill
        · next hsender =>
          refine ⟨fun hfired => hquiet ((htells.firings _ (List.getElem_mem hlt)).1 hfired), ?_⟩
          rcases Bool.or_eq_true_iff.1 hsender with hhandle | heternal
          · simp only [hhandle, Bool.not_true, Bool.and_false, Bool.false_eq_true, not_false_eq_true]
          · simp only [heternal, Bool.not_true, Bool.false_and, Bool.false_eq_true, not_false_eq_true]
        · exact absurd hstill (by simp only [reduceCtorEq, not_false_eq_true])
  | done =>
      rw [Heeds, hphase] at hheeds
      exact iff_of_true rfl hheeds

/-! ## Asking and waiting agree -/

/-- An answer is given, and it is yes exactly if something holds. -/
def Says (answer : Option Bool) (p : Prop) : Prop :=
  ∃ b, answer = some b ∧ (b = true ↔ p)

/-- What signals, handles and waiters say is what their history says. -/
structure Agrees (s : Signals) (past : List Action) : Prop where
  /-- Whatever there is stems from something that was made. -/
  stems : ∀ x n, s.source? x = some n ↔ Stems past x n
  /-- A signal is cancelled exactly when it was made with a handle, and it was fired by a handle of
  the same source or all of them are gone. -/
  cancelled : ∀ name n, Stems past (.signal name) n →
    Says (s.signalCancelled name) (Cancelled past n)
  /-- A signal that stems from one made without a handle is never cancelled. -/
  never : ∀ name n, Stems past (.signal name) n → Lone past n → s.signalCancelled name = some false
  /-- Once a signal is cancelled, all signals that stem from the same are, now and later. -/
  stays : ∀ name n, Stems past (.signal name) n → s.signalCancelled name = some true →
    ∀ more t, s.run? more = some t → ∀ other, Stems (past ++ more) (.signal other) n →
      t.signalCancelled other = some true
  /-- A handle knows whether one of the same source has fired. -/
  triggered : ∀ name n, Stems past (.handle name) n → Says (s.isTriggered name) (Triggered past n)
  /-- A handle can always fire, and then all signals that stem from the same are cancelled. -/
  fires : ∀ name n, Stems past (.handle name) n → ∃ t, s.step? (.act (.trigger name)) = some t ∧
    ∀ signal, Stems past (.signal signal) n → t.signalCancelled signal = some true
  /-- A waiter ends only if its signal is cancelled. -/
  woken : ∀ name n, Stems past (.waiter name) n → s.isWoken name = some true → Cancelled past n
  /-- When no waiter can go on, those have ended whose signal is cancelled, -/
  rest : s.AtRest → ∀ name n, Stems past (.waiter name) n → Says (s.isWoken name) (Cancelled past n)
  /-- so who asks a signal and who waits on it learn the same. -/
  same : s.AtRest → ∀ waiter signal n, Stems past (.waiter waiter) n →
    Stems past (.signal signal) n → s.isWoken waiter = s.signalCancelled signal
  /-- The waiters can always go on until none can any more. -/
  settles : s.Reaches s.settle ∧ s.settle.AtRest

theorem says_signalCancelled {actions : List Action} (h : run? empty actions = some s)
    {name : String} {n : Nat} (hname : Stems actions (.signal name) n) :
    Says (s.signalCancelled name) (Cancelled actions n) := by
  have htells := tells_of_run h
  have hget : s.signals.get? name = some n := (htells.source (.signal name) n).2 hname
  refine ⟨s.isCancelled n, ?_, htells.isCancelled_iff (htells.lt_length hname)⟩
  rw [htells.signalCancelled_eq, hget, Option.map_some]

theorem exists_waiter {actions : List Action} (h : run? empty actions = some s) {name : String}
    {n : Nat} (hname : Stems actions (.waiter name) n) :
    ∃ w, s.waiters.get? name = some w ∧ w.source = n :=
  Option.map_eq_some_iff.1 (((tells_of_run h).source (.waiter name) n).2 hname)

theorem says_isWoken {actions : List Action} (h : run? empty actions = some s) (hrest : s.AtRest)
    {name : String} {n : Nat} (hname : Stems actions (.waiter name) n) :
    Says (s.isWoken name) (Cancelled actions n) := by
  rcases exists_waiter h hname with ⟨w, hw, rfl⟩
  refine ⟨decide (w.phase = .done), by rw [isWoken, hw, Option.map_some], ?_⟩
  rw [decide_eq_true_iff]
  exact woken_iff h hrest hw

theorem Says.eq {answer answer' : Option Bool} {p : Prop} (h : Says answer p)
    (h' : Says answer' p) : answer = answer' := by
  rcases h with ⟨b, rfl, hb⟩
  rcases h' with ⟨b', rfl, hb'⟩
  rw [Bool.eq_iff_iff.2 (hb.trans hb'.symm)]

theorem Says.iff {answer : Option Bool} {p : Prop} (h : Says answer p) :
    answer = some true ↔ p := by
  rcases h with ⟨b, rfl, hb⟩
  rw [Option.some.injEq, hb]

theorem run?_append {actions more : List Action} (h : run? empty actions = some s)
    (hmore : s.run? more = some t) : run? empty (actions ++ more) = some t := by
  rw [run?, List.foldlM_append, show List.foldlM step? empty actions = some s from h]
  exact hmore

/-- A handle that is there can fire, and no signal of its source goes without that. -/
theorem trigger_of_stems {actions : List Action} (h : run? empty actions = some s) {name : String}
    {n : Nat} (hname : Stems actions (.handle name) n) :
    ∃ t, s.step? (.act (.trigger name)) = some t ∧
      ∀ signal, Stems actions (.signal signal) n → t.signalCancelled signal = some true := by
  have hget : s.handles.get? name = some n := ((tells_of_run h).source (.handle name) n).2 hname
  have hstep : s.step? (.act (.trigger name)) =
      some { s with sources := s.sources.modify n .fire } := by
    rw [step?, act?, trigger, hget, Option.map_some]
  refine ⟨_, hstep, fun signal hsignal => ?_⟩
  have hrun : run? empty (actions ++ [.act (.trigger name)]) = some _ := run_snoc h hstep
  have hcancelled : Cancelled (actions ++ [.act (.trigger name)]) n :=
    ⟨hname.paired.append _, .inl ⟨actions, name, List.prefix_refl _, hname⟩⟩
  exact (says_signalCancelled hrun (.kept rfl hsignal)).iff.2 hcancelled

/-- Handles and signals are made, copied, fired and given up, and waiters wait, in any order: the
two ways to learn of a signal agree with what was done, and with each other. -/
theorem agrees_of_run {actions : List Action} (h : run? empty actions = some s) :
    s.Agrees actions where
  stems := (tells_of_run h).source
  cancelled name n hname := says_signalCancelled h hname
  never name n hname hlone := by
    rcases says_signalCancelled h hname with ⟨b, hb, hiff⟩
    rw [hb, Bool.eq_false_iff.2 (fun htrue => not_lone_of_paired (hiff.1 htrue).1 hlone)]
  stays name n hname hoff more t hmore other hother := by
    have hcancelled := (says_signalCancelled h hname).iff.1 hoff
    exact (says_signalCancelled (run?_append h hmore) hother).iff.2 (hcancelled.mono more)
  triggered name n hname := by
    have hget : s.handles.get? name = some n := ((tells_of_run h).source (.handle name) n).2 hname
    exact ⟨s.hasFired n, by rw [isTriggered, hget, Option.map_some], (tells_of_run h).fired n⟩
  fires name n hname := trigger_of_stems h hname
  woken name n hname hdone := by
    rcases exists_waiter h hname with ⟨w, hw, rfl⟩
    have hheeds := heeds_of_run h name w hw
    rw [isWoken, hw, Option.map_some, Option.some.injEq, decide_eq_true_iff] at hdone
    rwa [Heeds, hdone] at hheeds
  rest hrest name n hname := says_isWoken h hrest hname
  same hrest waiter signal n hwaiter hsignal :=
    (says_isWoken h hrest hwaiter).eq (says_signalCancelled h hsignal)
  settles := settles s

/-- Two waiters go to sleep, one on a signal that never fires. A handle and its copy are given up
one after the other, the signal under its first name as well. A third waiter is on a signal whose
handle fires. -/
def leaving : List Action :=
  [.act (.create "owner" "stop"), .act (.cloneHandle "owner" "deputy"),
    .act (.cloneSignal "stop" "copy"), .act (.never "idle"), .spawn "stop" "worker",
    .spawn "idle" "sleeper", .turn "worker", .turn "sleeper", .act (.dropHandle "owner"),
    .act (.dropSignal "stop"), .act (.dropSignal "idle"), .act (.dropHandle "deputy"),
    .turn "worker", .act (.create "boss" "halt"), .spawn "halt" "clerk", .turn "clerk",
    .act (.trigger "boss"), .turn "clerk", .turn "clerk"]

/-- The first one ends, and so does the third, and the second sleeps on, though nobody else holds its
signal any more. -/
theorem agrees_of_run_leaving :
    ∃ s, run? empty leaving = some s ∧ s.AtRest ∧ s.isWoken "worker" = some true ∧
      s.signalCancelled "copy" = some true ∧ s.isWoken "sleeper" = some false ∧
      s.isWoken "clerk" = some true ∧ s.isTriggered "boss" = some true ∧
      Stems leaving (.waiter "worker") 0 ∧ Cancelled leaving 0 ∧
      Stems leaving (.waiter "sleeper") 1 ∧ ¬ Cancelled leaving 1 ∧
      Stems leaving (.handle "boss") 2 ∧ Triggered leaving 2 := by
  obtain ⟨s, hrun, hsettled, hworker, hcopy, hsleeper, hclerk, hboss, hone, htwo, hthree⟩ :
      ∃ s, run? empty leaving = some s ∧ s.settle = s ∧ s.isWoken "worker" = some true ∧
      s.signalCancelled "copy" = some true ∧ s.isWoken "sleeper" = some false ∧
      s.isWoken "clerk" = some true ∧ s.isTriggered "boss" = some true ∧
      s.source? (.waiter "worker") = some 0 ∧ s.source? (.waiter "sleeper") = some 1 ∧
      s.source? (.handle "boss") = some 2 := by
    refine ⟨_, rfl, ?_⟩
    decide
  have hagrees := agrees_of_run hrun
  have hrest : s.AtRest := hsettled ▸ hagrees.settles.2
  have hworker' := (hagrees.stems _ _).1 hone
  have hsleeper' := (hagrees.stems _ _).1 htwo
  have hboss' := (hagrees.stems _ _).1 hthree
  refine ⟨s, hrun, hrest, hworker, hcopy, hsleeper, hclerk, hboss, hworker',
    hagrees.woken _ _ hworker' hworker, hsleeper', fun hcancelled => ?_, hboss',
    (hagrees.triggered _ _ hboss').iff.1 hboss⟩
  have hwoken := (hagrees.rest hrest _ _ hsleeper').iff.2 hcancelled
  exact absurd (hsleeper.symm.trans hwoken) (by decide)

end Signals

end Bourse
