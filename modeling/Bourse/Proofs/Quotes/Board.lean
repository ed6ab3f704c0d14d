import Bourse.Proofs.Quotes.Cache
import Bourse.Proofs.Run
import Bourse.Signal

/-!
# Readers of the Quote Cache

Quotes come in, time passes, signals fire, and any number of readers wait for prices,
in any order of their steps. A quote comes in by two steps: it is entered, and only
then notice is given. A reader notes the number of notices, looks, waits, and starts
again. Between any two of these steps everybody else may take any number of theirs.

No reader waits in vain. It goes to wait because its look found nothing fresh, and
since old prices do not become fresh by waiting, this stays so until a quote is
entered. The notice of that quote is still owed then, or it was given after the
reader had noted their number, and the reader is not held up by it any more.

Where a reader both has a notice and has been called off, either may come first.

## Main definitions

* `Board`: the cache, the time, the signals, the readers, and the notices owed.
* `Board.Action`: one step of anybody.
* `Board.step?`, `Board.run?`: the board after one action, and after a list of them.
* `Board.AtRest`: nobody can go on before a quote comes in or time passes.
* `Board.Grants`: what the result of a reader says about the moment it got it.

## Theorems

* `sound_of_step?`: what is known of the readers after every step.
* `grants_of_step?`: the step at which a reader ends.
* `atRest_of_still`: when nobody can go on.
* `prompt_of_run`: readers get the right prices, and none waits in vain.
-/

namespace Bourse

/-- The reader after it has been called off while it waits. It may have a notice as well. -/
def QuoteReader.callOff? (r : QuoteReader) : Option QuoteReader :=
  match r.phase with
  | .waiting _ => some { r with phase := .done (.error .cancelled) }
  | _ => none

/-- A reader, the source of the signal that calls it off, and whether its price is still wanted. -/
structure Reading where
  reader : QuoteReader
  source : Nat
  present : Bool

/-- The cache, the time, the signals and the readers by number. -/
structure Board where
  cache : QuoteCache
  now : Nat
  signals : Signals
  /-- How many quotes were entered whose notice has not been given yet. -/
  owed : Nat
  readings : List Reading
  /-- The quotes that came in so far. No step reads them. -/
  came : List ReceivedQuote

/-- One step of anybody. -/
inductive Board.Action where
  | enter (q : Quote)
  | notify
  /-- Somebody wants a price of less than some age, and may be called off by a signal. -/
  | get (symbol : String) (maxAge : Nat) (signal : String)
  | turn (n : Nat)
  | callOff (n : Nat)
  | abandon (n : Nat)
  | wait (ms : Nat)
  | signal (a : SignalAction)

/-- Whether an action is the next step of something under way. The others come from outside. -/
def Board.Action.isOwn : Action → Bool
  | notify | turn _ | callOff _ => true
  | _ => false

namespace Board

/-- The board before the first quote and the first reader. -/
def opened : Board := ⟨.empty, 0, .empty, 0, [], []⟩

/-- The reader of a price that is still wanted. -/
def present? (b : Board) (n : Nat) : Option Reading :=
  (b.readings[n]?).filter (·.present)

/-- The board with a reader in another state. -/
def goOn (b : Board) (n : Nat) (r : Reading) (next : QuoteReader) : Board :=
  { b with readings := b.readings.set n { r with reader := next } }

/-- The board after one action, where it can be taken. -/
def step? (b : Board) : Action → Option Board
  | .enter q =>
    some { b with
      cache := b.cache.enter b.now q
      owed := b.owed + 1
      came := b.came ++ [⟨q, b.now⟩] }
  | .notify =>
    if b.owed = 0 then none
    else some { b with cache := b.cache.notify, owed := b.owed - 1 }
  | .get symbol maxAge signal =>
    (b.signals.signals.get? signal).map (fun source =>
      { b with readings := b.readings ++ [⟨.start b.cache symbol maxAge, source, true⟩] })
  | .turn n =>
    (b.present? n).bind (fun r =>
      (r.reader.step b.cache b.now (b.signals.isCancelled r.source)).map (b.goOn n r))
  | .callOff n =>
    (b.present? n).bind (fun r =>
      if b.signals.isCancelled r.source then r.reader.callOff?.map (b.goOn n r) else none)
  | .abandon n =>
    (b.present? n).map (fun r => { b with readings := b.readings.set n { r with present := false } })
  | .wait ms => some { b with now := b.now + ms }
  | .signal a => (b.signals.act? a).map (fun signals => { b with signals })

/-- The board after some actions, where all of them can be taken. -/
def run? (b : Board) (actions : List Action) : Option Board :=
  actions.foldlM step? b

/-- Nobody can go on before something comes in or time passes. -/
def AtRest (b : Board) : Prop :=
  ∀ a : Action, a.isOwn = true → b.step? a = none

/-- What a result says about the moment at which it is got. A price is that of the last quote of the
symbol that came in, less than `maxAge` ago; otherwise the reader was called off. -/
def Grants (b : Board) (r : Reading) : Except QuoteError Amount → Prop
  | .ok p => ∃ e, lastOf b.came r.reader.symbol = some e ∧ e.quote.price = p ∧
      e.receivedAt ≤ b.now ∧ b.now < e.receivedAt + r.reader.maxAge
  | .error e => e = .cancelled ∧ b.signals.isCancelled r.source = true

variable {b b' : Board} {a : Action} {n : Nat} {r r' : Reading}

theorem present?_eq_some (h : b.present? n = some r) :
    b.readings[n]? = some r ∧ r.present = true :=
  Option.filter_eq_some_iff.1 h

end Board

/-! ## The steps of a reader -/

namespace QuoteReader

variable {r r' : QuoteReader} {c : QuoteCache} {now : Nat} {cancelled : Bool}

/-- A reader is called off while it waits, and only then. -/
theorem cases_of_callOff? (h : r.callOff? = some r') :
    (r'.symbol = r.symbol ∧ r'.maxAge = r.maxAge) ∧ (∃ seen, r.phase = .waiting seen) ∧
      r'.phase = .done (.error .cancelled) := by
  unfold callOff? at h
  split at h
  · next seen hphase =>
    rw [← Option.some.inj h]
    exact ⟨⟨rfl, rfl⟩, ⟨seen, hphase⟩, rfl⟩
  · exact absurd h (by simp only [reduceCtorEq, not_false_eq_true])

/-- A reader that has not ended and cannot go on waits, with no notice and not called off. -/
theorem waiting_of_step_eq_none (h : r.step c now cancelled = none) (hgoing : r.result? = none) :
    r.phase = .waiting c.notices ∧ cancelled = false := by
  unfold step at h
  split at h
  · split at h
    · exact absurd h (by simp only [reduceCtorEq, not_false_eq_true])
    · exact absurd h (by simp only [reduceCtorEq, not_false_eq_true])
  · next seen hphase =>
    by_cases hseen : seen ≠ c.notices
    · rw [if_pos hseen] at h
      exact absurd h (by simp only [reduceCtorEq, not_false_eq_true])
    · rw [if_neg hseen] at h
      rw [hphase, Decidable.not_not.1 hseen]
      cases cancelled with
      | false => exact ⟨rfl, rfl⟩
      | true => exact absurd h (by simp only [if_true, reduceCtorEq, not_false_eq_true])
  · next result hphase =>
    rw [result?, hphase] at hgoing
    exact absurd hgoing (by simp only [reduceCtorEq, not_false_eq_true])

/-- A reader that is not fooled. It has not noted a notice that was not given. If it waits and has
no notice, there is nothing fresh for it, or one more notice is owed. -/
def Alert (r : QuoteReader) (c : QuoteCache) (now owed : Nat) : Prop :=
  match r.phase with
  | .looking seen => seen ≤ c.notices
  | .waiting seen => seen ≤ c.notices ∧
      (seen = c.notices → c.fresh? now r.symbol r.maxAge = none ∨ 0 < owed)
  | .done _ => True

variable {owed : Nat}

theorem alert_start (c : QuoteCache) (symbol : String) (maxAge now owed : Nat) :
    (start c symbol maxAge).Alert c now owed :=
  le_refl c.notices

theorem alert_of_step (hr : r.Alert c now owed) (h : r.step c now cancelled = some r') :
    r'.Alert c now owed := by
  rcases cases_of_step h with ⟨⟨hsymbol, hage⟩, hcases⟩
  unfold Alert at hr ⊢
  rcases hcases with ⟨seen, p, hphase, hfresh, hphase'⟩ | ⟨seen, hphase, hfresh, hphase'⟩ |
    ⟨seen, hphase, -, hphase'⟩ | ⟨seen, hphase, -, hphase'⟩
  · rw [hphase']
    trivial
  · -- The look has found nothing, so the reader may wait.
    rw [hphase] at hr
    rw [hphase', hsymbol, hage]
    exact ⟨hr, fun _ => Or.inl hfresh⟩
  · rw [hphase']
  · rw [hphase']
    trivial

/-- After a quote was entered its notice is owed to everybody. -/
theorem Alert.enter (hr : r.Alert c now owed) (q : Quote) :
    r.Alert (c.enter now q) now (owed + 1) := by
  unfold Alert at hr ⊢
  cases hphase : r.phase with
  | looking seen =>
      rw [hphase] at hr
      exact hr
  | waiting seen =>
      rw [hphase] at hr
      exact ⟨hr.1, fun _ => Or.inr (Nat.succ_pos owed)⟩
  | done result => trivial

/-- A notice reaches everybody who waits, as nobody has noted it before. -/
theorem Alert.notify (hr : r.Alert c now owed) (left : Nat) : r.Alert c.notify now left := by
  unfold Alert at hr ⊢
  have hnotices : c.notify.notices = c.notices + 1 := rfl
  cases hphase : r.phase with
  | looking seen =>
      rw [hphase] at hr
      exact Nat.le_succ_of_le hr
  | waiting seen =>
      rw [hphase] at hr
      exact ⟨Nat.le_succ_of_le hr.1, fun heq => absurd hr.1 (by omega)⟩
  | done result => trivial

theorem Alert.wait (hr : r.Alert c now owed) (ms : Nat) : r.Alert c (now + ms) owed := by
  unfold Alert at hr ⊢
  cases hphase : r.phase with
  | looking seen =>
      rw [hphase] at hr
      exact hr
  | waiting seen =>
      rw [hphase] at hr
      refine ⟨hr.1, fun heq => (hr.2 heq).imp_left (fun hnone => ?_)⟩
      exact QuoteCache.fresh?_eq_none_of_le (Nat.le_add_right now ms) hnone
  | done result => trivial

end QuoteReader

/-! ## The board after every step -/

namespace Board

variable {b b' : Board} {a : Action} {n : Nat} {r r' : Reading}

/-- What is known of a board: its cache has the last quotes that came in, none of them later than
now, and no reader is fooled. -/
structure Sound (b : Board) : Prop where
  holds : b.cache.Holds b.came
  past : ∀ e ∈ b.came, e.receivedAt ≤ b.now
  alert : ∀ r ∈ b.readings, r.reader.Alert b.cache b.now b.owed

theorem sound_opened : opened.Sound where
  holds := QuoteCache.holds_empty
  past := fun _ he => absurd he List.not_mem_nil
  alert := fun _ hr => absurd hr List.not_mem_nil

/-- A reader that goes on changes nothing but itself. -/
theorem sound_set (hb : b.Sound) (n : Nat) (hr : r.reader.Alert b.cache b.now b.owed) :
    ({ b with readings := b.readings.set n r } : Board).Sound where
  holds := hb.holds
  past := hb.past
  alert := by
    intro w hw
    rcases List.mem_or_eq_of_mem_set hw with hold | rfl
    · exact hb.alert w hold
    · exact hr

theorem sound_of_step? (hb : b.Sound) (h : b.step? a = some b') : b'.Sound := by
  cases a with
  | enter q =>
      rw [← Option.some.inj h]
      refine ⟨QuoteCache.holds_enter hb.holds b.now q, ?_, fun r hr => (hb.alert r hr).enter q⟩
      intro e he
      rcases List.mem_append.1 he with hold | hnew
      · exact hb.past e hold
      · rw [List.mem_singleton.1 hnew]
  | notify =>
      rw [step?] at h
      by_cases howed : b.owed = 0
      · rw [if_pos howed] at h
        exact absurd h (by simp only [reduceCtorEq, not_false_eq_true])
      · rw [if_neg howed] at h
        rw [← Option.some.inj h]
        exact ⟨hb.holds, hb.past, fun r hr => (hb.alert r hr).notify _⟩
  | get symbol maxAge signal =>
      rcases Option.map_eq_some_iff.1 h with ⟨source, -, rfl⟩
      refine ⟨hb.holds, hb.past, fun r hr => ?_⟩
      rcases List.mem_append.1 hr with hold | hnew
      · exact hb.alert r hold
      · rw [List.mem_singleton.1 hnew]
        exact QuoteReader.alert_start b.cache symbol maxAge b.now b.owed
  | turn n =>
      rcases Option.bind_eq_some_iff.1 h with ⟨r, hr, hgo⟩
      rcases Option.map_eq_some_iff.1 hgo with ⟨next, hnext, rfl⟩
      have hmem := List.mem_of_getElem? (present?_eq_some hr).1
      exact sound_set hb n (QuoteReader.alert_of_step (hb.alert r hmem) hnext)
  | callOff n =>
      rcases Option.bind_eq_some_iff.1 h with ⟨r, hr, hgo⟩
      rcases Option.ite_none_right_eq_some.1 hgo with ⟨-, hoff⟩
      rcases Option.map_eq_some_iff.1 hoff with ⟨next, hnext, rfl⟩
      refine sound_set hb n ?_
      simp only [QuoteReader.Alert, (QuoteReader.cases_of_callOff? hnext).2.2]
  | abandon n =>
      rcases Option.map_eq_some_iff.1 h with ⟨r, hr, rfl⟩
      have hmem := List.mem_of_getElem? (present?_eq_some hr).1
      exact sound_set hb n (hb.alert r hmem)
  | wait ms =>
      rw [← Option.some.inj h]
      exact ⟨hb.holds, fun e he => Nat.le_add_right_of_le (hb.past e he),
        fun r hr => (hb.alert r hr).wait ms⟩
  | signal a =>
      rcases Option.map_eq_some_iff.1 h with ⟨signals, -, rfl⟩
      exact ⟨hb.holds, hb.past, hb.alert⟩

theorem sound_of_run? {actions : List Action} (h : opened.run? actions = some b) : b.Sound :=
  run_induction (fun _ b => b.Sound) sound_opened
    (fun _ _ _ _ _ hb hstep => sound_of_step? hb hstep) h

/-! ## Results -/

/-- After one of the readings has changed, there is that one and the others. -/
theorem of_set_reading {readings : List Reading} {m : Nat} {r v w w' : Reading}
    (hr : readings[m]? = some r) (hw : readings[n]? = some w)
    (hw' : (readings.set m v)[n]? = some w') : w' = w ∨ w = r ∧ w' = v := by
  rw [List.getElem?_set] at hw'
  by_cases hn : m = n
  · rw [if_pos hn, if_pos (List.getElem?_eq_some_iff.1 hr).1] at hw'
    rw [← hn, hr] at hw
    exact Or.inr ⟨(Option.some.inj hw).symm, (Option.some.inj hw').symm⟩
  · rw [if_neg hn, hw] at hw'
    exact Or.inl (Option.some.inj hw').symm

/-- A price that is fresh is the right one. -/
theorem grants_of_fresh {p : Amount} (hb : b.Sound)
    (h : b.cache.fresh? b.now r.reader.symbol r.reader.maxAge = some p) : b.Grants r (.ok p) := by
  rcases hb.holds.fresh?_eq_some.1 h with ⟨e, he, hage, hprice⟩
  have hpast := hb.past e (of_lastOf he).1
  exact ⟨e, he, hprice, hpast, by omega⟩

/-- A step after which a reader has ended, and which it had not before, is its own, and its result
is right at that moment. -/
theorem grants_of_step? {result : Except QuoteError Amount} (hb : b.Sound)
    (h : b.step? a = some b') (hr : b.readings[n]? = some r) (hgoing : r.reader.result? = none)
    (hr' : b'.readings[n]? = some r') (hdone : r'.reader.result? = some result) :
    (r'.reader.symbol = r.reader.symbol ∧ r'.reader.maxAge = r.reader.maxAge ∧
      r'.source = r.source) ∧ b.Grants r result := by
  -- A reader that stays as it was has not ended.
  have hsame : r'.reader ≠ r.reader := by
    intro heq
    rw [heq, hgoing] at hdone
    exact absurd hdone (by simp only [reduceCtorEq, not_false_eq_true])
  have hstays : b'.readings[n]? = b.readings[n]? → r' = r := by
    intro heq
    rw [hr', hr] at heq
    exact Option.some.inj heq
  cases a with
  | enter q =>
      rw [← Option.some.inj h] at hstays
      exact absurd (congrArg Reading.reader (hstays rfl)) hsame
  | notify =>
      rcases Option.ite_none_left_eq_some.1 h with ⟨-, heq⟩
      rw [← Option.some.inj heq] at hstays
      exact absurd (congrArg Reading.reader (hstays rfl)) hsame
  | get symbol maxAge signal =>
      rcases Option.map_eq_some_iff.1 h with ⟨source, -, rfl⟩
      have hlt := (List.getElem?_eq_some_iff.1 hr).1
      exact absurd (congrArg Reading.reader (hstays (List.getElem?_append_left hlt))) hsame
  | turn m =>
      rcases Option.bind_eq_some_iff.1 h with ⟨w, hw, hgo⟩
      rcases Option.map_eq_some_iff.1 hgo with ⟨next, hnext, rfl⟩
      rcases of_set_reading (present?_eq_some hw).1 hr hr' with rfl | ⟨rfl, rfl⟩
      · exact absurd rfl hsame
      rcases QuoteReader.cases_of_step hnext with ⟨⟨hsymbol, hage⟩, hcases⟩
      refine ⟨⟨hsymbol, hage, rfl⟩, ?_⟩
      unfold QuoteReader.result? at hdone
      rcases hcases with ⟨seen, p, -, hfresh, hphase⟩ | ⟨seen, -, -, hphase⟩ |
        ⟨seen, -, -, hphase⟩ | ⟨seen, -, hoff, hphase⟩
      · rw [hphase] at hdone
        rw [← Option.some.inj hdone]
        exact grants_of_fresh hb hfresh
      · rw [hphase] at hdone
        exact absurd hdone (by simp only [reduceCtorEq, not_false_eq_true])
      · rw [hphase] at hdone
        exact absurd hdone (by simp only [reduceCtorEq, not_false_eq_true])
      · rw [hphase] at hdone
        rw [← Option.some.inj hdone]
        exact ⟨rfl, hoff⟩
  | callOff m =>
      rcases Option.bind_eq_some_iff.1 h with ⟨w, hw, hgo⟩
      rcases Option.ite_none_right_eq_some.1 hgo with ⟨hcancelled, hoff⟩
      rcases Option.map_eq_some_iff.1 hoff with ⟨next, hnext, rfl⟩
      rcases of_set_reading (present?_eq_some hw).1 hr hr' with rfl | ⟨rfl, rfl⟩
      · exact absurd rfl hsame
      rcases QuoteReader.cases_of_callOff? hnext with ⟨⟨hsymbol, hage⟩, -, hphase⟩
      rw [QuoteReader.result?, hphase] at hdone
      rw [← Option.some.inj hdone]
      exact ⟨⟨hsymbol, hage, rfl⟩, rfl, hcancelled⟩
  | abandon m =>
      rcases Option.map_eq_some_iff.1 h with ⟨w, hw, rfl⟩
      rcases of_set_reading (present?_eq_some hw).1 hr hr' with rfl | ⟨rfl, rfl⟩
      · exact absurd rfl hsame
      · exact absurd rfl hsame
  | wait ms =>
      rw [← Option.some.inj h] at hstays
      exact absurd (congrArg Reading.reader (hstays rfl)) hsame
  | signal c =>
      rcases Option.map_eq_some_iff.1 h with ⟨signals, -, rfl⟩
      exact absurd (congrArg Reading.reader (hstays rfl)) hsame

/-- Quotes come in, each by being entered and by a notice later, time passes, signals fire or lose
their last handle, and any number of readers want prices, in any order of all their steps, and any
of them may be given up. Whenever a reader gets a price, it is at that moment the price of the last
quote of its symbol that came in, and that came in less than `maxAge` ago. Whenever a reader ends
without one, its signal has fired. And when nobody can go on before something comes in or time
passes, every reader that has not ended wants a price of which there is none of less than `maxAge`,
and its signal has not fired. -/
theorem prompt_of_run {actions : List Action} (h : opened.run? actions = some b) :
    (∀ (a : Action) (b' : Board) (n : Nat) (r r' : Reading) (result : Except QuoteError Amount),
      b.step? a = some b' →
      b.readings[n]? = some r → r.reader.result? = none →
      b'.readings[n]? = some r' → r'.reader.result? = some result →
      (r'.reader.symbol = r.reader.symbol ∧ r'.reader.maxAge = r.reader.maxAge ∧
        r'.source = r.source) ∧ b.Grants r result) ∧
    (b.AtRest → ∀ r ∈ b.readings, r.present = true → r.reader.result? = none →
      (∀ e, lastOf b.came r.reader.symbol = some e → e.receivedAt + r.reader.maxAge ≤ b.now) ∧
        b.signals.isCancelled r.source = false) := by
  have hb := sound_of_run? h
  refine ⟨fun a b' n r r' result hstep hr hgoing hr' hdone =>
    grants_of_step? hb hstep hr hgoing hr' hdone, ?_⟩
  intro hrest r hr hpresent hgoing
  -- No notice is owed, so a reader that waits has seen all there is to see.
  have howed : b.owed = 0 := by
    by_contra howed
    have hnotify := hrest .notify rfl
    rw [step?, if_neg howed] at hnotify
    exact absurd hnotify (by simp only [reduceCtorEq, not_false_eq_true])
  rcases List.mem_iff_getElem?.1 hr with ⟨n, hn⟩
  have hturn := hrest (.turn n) rfl
  rw [step?, present?, hn, Option.filter_some, if_pos hpresent, Option.bind_some,
    Option.map_eq_none_iff] at hturn
  rcases QuoteReader.waiting_of_step_eq_none hturn hgoing with ⟨hphase, hoff⟩
  have halert := hb.alert r hr
  rw [QuoteReader.Alert, hphase] at halert
  rcases halert.2 rfl with hnone | hpos
  · refine ⟨fun e he => ?_, hoff⟩
    by_contra hyoung
    have hpast := hb.past e (of_lastOf he).1
    have hage : b.now - e.receivedAt < r.reader.maxAge := by omega
    rw [hb.holds.fresh?_eq_some.2 ⟨e, he, hage, rfl⟩] at hnone
    exact absurd hnone (by simp only [reduceCtorEq, not_false_eq_true])
  · exact absurd hpos (by omega)

/-- Nobody can go on if no notice is owed and no reader has a step. -/
theorem atRest_of_still (howed : b.owed = 0)
    (hstill : ∀ r ∈ b.readings,
      r.reader.step b.cache b.now (b.signals.isCancelled r.source) = none) : b.AtRest := by
  have hpresent : ∀ {n r}, b.present? n = some r →
      r.reader.step b.cache b.now (b.signals.isCancelled r.source) = none :=
    fun h => hstill _ (List.mem_of_getElem? (present?_eq_some h).1)
  intro a hown
  cases a with
  | notify => exact if_pos howed
  | turn n =>
      refine Option.bind_eq_none_iff.2 (fun r hr => ?_)
      rw [hpresent hr, Option.map_none]
  | callOff n =>
      refine Option.bind_eq_none_iff.2 (fun r hr => ?_)
      by_cases hoff : b.signals.isCancelled r.source = true
      · -- A reader that could be called off would have a step.
        rw [if_pos hoff, Option.map_eq_none_iff, QuoteReader.callOff?]
        split
        · next seen hphase =>
          have hgoing : r.reader.result? = none := by
            rw [QuoteReader.result?, hphase]
          have hnot := (QuoteReader.waiting_of_step_eq_none (hpresent hr) hgoing).2
          rw [hoff] at hnot
          exact absurd hnot (by simp only [Bool.true_eq_false, not_false_eq_true])
        · rfl
      · exact if_neg hoff
  | _ => exact absurd hown (by simp only [Action.isOwn, Bool.false_eq_true, not_false_eq_true])

/-- A reader looks before a quote is entered, and waits after it was entered and before the notice
is given. One waits for a symbol of which nothing comes in, until its signal loses its only handle.
One is not content with a quote of this age. -/
def crossing : List Action :=
  [.signal (.create "owner" "stop"), .signal (.never "never"), .get "BTC" 100 "stop",
    .get "ETH" 100 "stop", .get "BTC" 50 "never", .turn 1, .turn 2, .turn 0,
    .enter ⟨"BTC", .ofUnits 30000, ⟨0, 0⟩⟩, .wait 99, .notify, .turn 2, .turn 2, .turn 0,
    .signal (.dropHandle "owner")]

/-- The first reader gets the price on its second look, though it has been called off meanwhile, the
second ends at its next step, and then nobody can go on and the third waits. -/
theorem prompt_of_run_crossing :
    ∃ b r w b₁ r' b₂ w' v, opened.run? crossing = some b ∧
      b.readings[0]? = some r ∧ b.readings[1]? = some w ∧
      b.step? (.turn 0) = some b₁ ∧ b₁.readings[0]? = some r' ∧
      r'.reader.result? = some (.ok (.ofUnits 30000)) ∧ b.Grants r (.ok (.ofUnits 30000)) ∧
      b₁.step? (.callOff 1) = some b₂ ∧ b₂.readings[1]? = some w' ∧
      w'.reader.result? = some (.error .cancelled) ∧ b₁.Grants w (.error .cancelled) ∧
      b₂.AtRest ∧ v ∈ b₂.readings ∧ v.present = true ∧ v.reader.result? = none ∧
      b₂.signals.isCancelled v.source = false := by
  obtain ⟨b, r, w, b₁, r', b₂, w', v, hrun, hr, hrgoing, hw, hwgoing, hturn, hr', hrdone, hw₁, hoff,
      hw', hwdone, hv, hpresent, hvgoing, howed, hstill⟩ : ∃ b r w b₁ r' b₂ w' v,
        opened.run? crossing = some b ∧
        b.readings[0]? = some r ∧ r.reader.result? = none ∧
        b.readings[1]? = some w ∧ w.reader.result? = none ∧
        b.step? (.turn 0) = some b₁ ∧ b₁.readings[0]? = some r' ∧
        r'.reader.result? = some (.ok (.ofUnits 30000)) ∧
        b₁.readings[1]? = some w ∧ b₁.step? (.callOff 1) = some b₂ ∧
        b₂.readings[1]? = some w' ∧ w'.reader.result? = some (.error .cancelled) ∧
        b₂.readings[2]? = some v ∧ v.present = true ∧ v.reader.result? = none ∧ b₂.owed = 0 ∧
        ∀ r ∈ b₂.readings, r.reader.step b₂.cache b₂.now (b₂.signals.isCancelled r.source) = none := by
    refine ⟨_, _, _, _, _, _, _, _, rfl, rfl, rfl, rfl, rfl, rfl, rfl, rfl, rfl, rfl, rfl, rfl, rfl,
      rfl, rfl, rfl, ?_⟩
    decide
  have hrun₁ : opened.run? (crossing ++ [.turn 0]) = some b₁ := run_snoc hrun hturn
  have hrun₂ : opened.run? (crossing ++ [.turn 0] ++ [.callOff 1]) = some b₂ := run_snoc hrun₁ hoff
  have hgrants := (prompt_of_run hrun).1 (.turn 0) b₁ 0 r r' _ hturn hr hrgoing hr' hrdone
  have hcalled := (prompt_of_run hrun₁).1 (.callOff 1) b₂ 1 w w' _ hoff hw₁ hwgoing hw' hwdone
  have hrest := atRest_of_still howed hstill
  have hv' := List.mem_of_getElem? hv
  exact ⟨b, r, w, b₁, r', b₂, w', v, hrun, hr, hw, hturn, hr', hrdone, hgrants.2, hoff, hw', hwdone,
    hcalled.2, hrest, hv', hpresent, hvgoing, ((prompt_of_run hrun₂).2 hrest v hv' hpresent hvgoing).2⟩

end Board

end Bourse
