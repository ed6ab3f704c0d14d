import Bourse.Proofs.Floor.Basic
import Bourse.Proofs.Run

/-!
# Surveys

A *survey* is a valuation run over shared books, in any order of the steps that it
allows. The run hears the clock and prices, asks for pages and starts valuations; each
valuation writes and removes snapshots in its own time; and between any two steps
others may make any call on the books.

What the run and its valuations do is not said here. It is what `ValuationRun.next` and
`UserValuation.next` ask for, and a call does to the books what `Call.perform` does. The
phases of a run are told apart once, in `Survey.Move`, and all that is proved of surveys
goes through the moves.

A survey keeps the users that were listed, and of each valuation the document that it
is about, also after it has ended. No step reads them.

## Main definitions

* `Valuing`: a valuation that the run has started.
* `Survey`: the books, the run and its valuations.
* `Survey.Action`, `Survey.step?`, `Survey.run?`: steps, and the survey after them.
* `Survey.Move`: what a step can be, by the phase of the run or of a valuation.

## Theorems

* `Survey.move_of_step?`: every step is one of the moves.
-/

namespace Bourse

/-- A valuation that a run has started. -/
structure Valuing where
  /-- The document as it was listed. -/
  subject : User
  valuation : UserValuation
  /-- It has ended, and the run knows. -/
  ended : Bool

/-- The books, a valuation run, and the valuations it has started. -/
structure Survey where
  books : Books
  run : ValuationRun
  valuings : List Valuing
  /-- The users on the pages so far. -/
  listed : List User

namespace Survey

/-- One step of a survey. -/
inductive Action where
  | hear (news : News)
  /-- The run makes a call. -/
  | call (now : Nat)
  /-- The run starts a valuation. -/
  | start
  /-- A valuation makes a call. -/
  | value (n now : Nat)
  /-- A valuation ends, and the run is told. -/
  | finish (n : Nat)
  /-- Somebody else makes a call. -/
  | aside (now : Nat) (c : Call)

/-- Whether a step is one of the run or of its valuations. -/
def Action.isOwn : Action → Bool
  | aside .. => false
  | _ => true

/-- A run at some time, before its first step. -/
def opened (config : ValuationConfig) (symbols : List String) (time : Timestamp) (b : Books) :
    Survey :=
  ⟨b, .start config symbols time, [], []⟩

/-- The survey after a call of the run, with the users that were listed. -/
def called (s : Survey) (now : Nat) (c : Call) (resume : Except StoreError c.Result → ValuationRun) :
    Survey :=
  let run := resume (c.perform s.books now).1
  { s with
    books := (c.perform s.books now).2
    run
    listed := s.listed ++ match run.phase with
      | .visiting page _ => page
      | _ => [] }

/-- The survey after one step, where it can be taken. -/
def step? (s : Survey) : Action → Option Survey
  | .hear news => (s.run.next.hear? news).map (fun run => { s with run })
  | .call now =>
    match s.run.next with
    | .calling c _ resume => some (s.called now c resume)
    | _ => none
  | .start =>
    match s.run.phase, s.run.next with
    | .visiting (u :: _) _, .starting x run =>
      some { s with run, valuings := s.valuings ++ [⟨u, x, false⟩] }
    | _, _ => none
  | .value n now =>
    match s.valuings[n]? with
    | some v =>
      match @UserValuation.next UserValuation v.valuation with
      | .calling c _ resume =>
        some { s with
          books := (c.perform s.books now).2
          valuings := s.valuings.set n { v with valuation := resume (c.perform s.books now).1 } }
      | _ => none
    | none => none
  | .finish n =>
    match s.valuings[n]? with
    | some ⟨u, x, false⟩ =>
      match @UserValuation.next UserValuation x with
      | .finished r =>
        some { s with run := s.run.ended r.toOption, valuings := s.valuings.set n ⟨u, x, true⟩ }
      | _ => none
    | _ => none
  | .aside now c => some { s with books := (c.perform s.books now).2 }

/-- The survey after some steps, where all of them can be taken. -/
def run? (s : Survey) (actions : List Action) : Option Survey :=
  actions.foldlM step? s

/-- The result of the run, if it has ended. -/
def result? (s : Survey) : Option (Except TradeError ValuationReport) :=
  match s.run.next with
  | .finished r => some r
  | _ => none

/-- The error of a run that has waited too long for a price. -/
def unpriced (symbol : String) : TradeError :=
  .unavailable ("no fresh " ++ symbol ++ " quote for valuation")

/-- The users on a page. -/
def page (s : Survey) (after : Option String) : List User :=
  s.books.store.listUsers after s.run.pageSize

/-- A valuation of a user that has just been started. -/
def begun (s : Survey) (u : User) : Valuing :=
  ⟨u, .start u s.run.prices s.run.hour s.run.cutoff, false⟩

/-- How many snapshots a valuation removes. -/
def removed (s : Survey) (x : UserValuation) : Nat :=
  (s.books.store.deleteSnapshotsBefore x.user x.cutoff).1

/-- What a step can be, with all that it changes. -/
inductive Move (s : Survey) : Action → Survey → Prop
  /-- The time is read before a price is waited for. -/
  | timed (m : Moment) (symbol : String) (missing : List String)
      (h : s.run.phase = .asking (symbol :: missing)) :
      Move s (.hear (.clock m))
        { s with run := { s.run with
            phase := .pricing symbol (m.now + s.run.config.quoteDeadlineMs) missing } }
  | priced (price : Amount) (symbol : String) (due : Nat) (missing : List String)
      (h : s.run.phase = .pricing symbol due missing) :
      Move s (.hear (.price (.ok price)))
        { s with run := { s.run with
            prices := s.run.prices.insert symbol price, phase := .asking missing } }
  | refused (e : QuoteError) (symbol : String) (due : Nat) (missing : List String)
      (h : s.run.phase = .pricing symbol due missing) :
      Move s (.hear (.price (.error e))) { s with run := s.run.fail (.ofQuote e) }
  | late (symbol : String) (due : Nat) (missing : List String)
      (h : s.run.phase = .pricing symbol due missing) :
      Move s (.hear .late) { s with run := s.run.fail (unpriced symbol) }
  | listed (now : Nat) (after : Option String)
      (h : s.run.phase = .asking [] ∧ after = none ∨
        ∃ last, s.run.phase = .visiting [] (some last) ∧ after = some last) :
      Move s (.call now)
        { s with run := s.run.listed (.ok (s.page after)), listed := s.listed ++ s.page after }
  | started (u : User) (page : List User) (more : Option String)
      (h : s.run.phase = .visiting (u :: page) more) (hroom : s.run.running < s.run.parallelism) :
      Move s .start
        { s with
          run := { s.run with running := s.run.running + 1, phase := .visiting page more }
          valuings := s.valuings ++ [s.begun u] }
  | written (n now : Nat) (v : Valuing) (value : Amount) (hv : s.valuings[n]? = some v)
      (h : v.valuation.phase = .writing value) :
      Move s (.value n now)
        { s with
          books := { s.books with
            store := s.books.store.putSnapshot v.valuation.user ⟨v.valuation.hour, value⟩ }
          valuings := s.valuings.set n { v with valuation := v.valuation.enter .sweeping } }
  | swept (n now : Nat) (v : Valuing) (hv : s.valuings[n]? = some v)
      (h : v.valuation.phase = .sweeping) :
      Move s (.value n now)
        { s with
          books := { s.books with
            store := (s.books.store.deleteSnapshotsBefore v.valuation.user v.valuation.cutoff).2 }
          valuings := s.valuings.set n { v with
            valuation := v.valuation.swept (.ok (s.removed v.valuation)) } }
  | finished (n : Nat) (u : User) (x : UserValuation) (r : Except TradeError Nat)
      (hv : s.valuings[n]? = some ⟨u, x, false⟩) (h : x.phase = .finished r) :
      Move s (.finish n)
        { s with run := s.run.ended r.toOption, valuings := s.valuings.set n ⟨u, x, true⟩ }
  | aside (now : Nat) (c : Call) :
      Move s (.aside now c) { s with books := (c.perform s.books now).2 }

variable {s t : Survey} {a : Action}

/-- Beyond prices, nothing is heard. -/
theorem hear?_visiting {page : List User} {more : Option String} (news : News)
    (h : s.run.phase = .visiting page more) : s.run.next.hear? news = none := by
  rw [ValuationRun.next, h]
  cases page with
  | nil =>
      cases more with
      | none =>
          simp only []
          split <;> cases news <;> rfl
      | some last => cases news <;> rfl
  | cons u page =>
      simp only []
      split <;> cases news <;> rfl

theorem move_of_hear? {news : News} {run : ValuationRun} (h : s.run.next.hear? news = some run) :
    Move s (.hear news) { s with run } := by
  cases hphase : s.run.phase with
  | asking missing =>
      rw [ValuationRun.next, hphase] at h
      cases missing with
      | nil =>
          simp only [] at h
          split at h <;> cases news <;> cases h
      | cons symbol missing =>
          cases news with
          | clock m =>
              cases Option.some.inj h
              exact .timed m symbol missing hphase
          | price answer | late => cases h
  | pricing symbol due missing =>
      rw [ValuationRun.next, hphase] at h
      cases news with
      | clock m => cases h
      | price answer =>
          cases Option.some.inj h
          cases answer with
          | ok price => exact .priced price symbol due missing hphase
          | error e => exact .refused e symbol due missing hphase
      | late =>
          cases Option.some.inj h
          exact .late symbol due missing hphase
  | visiting page more =>
      rw [hear?_visiting news hphase] at h
      cases h
  | finished r | broken =>
      rw [ValuationRun.next, hphase] at h
      cases news <;> cases h

/-- What a run calls for is a page, the first one or the next. -/
theorem call_of_next {c : Call} {d : Deadline ValuationRun}
    {resume : Except StoreError c.Result → ValuationRun} (h : s.run.next = .calling c d resume) :
    ∃ after, (s.run.phase = .asking [] ∧ after = none ∨
        ∃ last, s.run.phase = .visiting [] (some last) ∧ after = some last) ∧
      s.run.next = s.run.list after := by
  cases hphase : s.run.phase with
  | asking missing =>
      cases missing with
      | nil =>
          rw [ValuationRun.next, hphase] at h ⊢
          simp only [] at h ⊢
          split at h
          · next hadmitted => exact ⟨none, .inl ⟨trivial, rfl⟩, if_pos hadmitted⟩
          · cases h
      | cons symbol missing =>
          rw [ValuationRun.next, hphase] at h
          cases h
  | visiting page more =>
      cases page with
      | nil =>
          cases more with
          | none =>
              rw [ValuationRun.next, hphase] at h
              simp only [] at h
              split at h <;> cases h
          | some last =>
              refine ⟨some last, .inr ⟨last, rfl, rfl⟩, ?_⟩
              rw [ValuationRun.next, hphase]
      | cons u page =>
          rw [ValuationRun.next, hphase] at h
          simp only [] at h
          split at h <;> cases h
  | pricing symbol due missing | finished r | broken =>
      rw [ValuationRun.next, hphase] at h
      cases h

theorem move_of_start (h : s.step? .start = some t) : Move s .start t := by
  simp only [step?] at h
  split at h
  · next u page more x run hphase hnext =>
    rw [ValuationRun.next, hphase] at hnext
    simp only [] at hnext
    split at hnext
    · next hroom =>
      cases hnext
      rw [← Option.some.inj h]
      exact .started u page more hphase hroom
    · cases hnext
  · cases h

theorem move_of_value {n now : Nat} (h : s.step? (.value n now) = some t) :
    Move s (.value n now) t := by
  simp only [step?] at h
  split at h
  · next v hv =>
    cases hphase : v.valuation.phase with
    | writing value =>
        simp only [UserValuation.next, hphase] at h
        rw [← Option.some.inj h]
        exact .written n now v value hv hphase
    | sweeping =>
        simp only [UserValuation.next, hphase] at h
        rw [← Option.some.inj h]
        exact .swept n now v hv hphase
    | finished r =>
        simp only [UserValuation.next, hphase] at h
        cases h
  · cases h

theorem move_of_finish {n : Nat} (h : s.step? (.finish n) = some t) : Move s (.finish n) t := by
  simp only [step?] at h
  split at h
  · next u x hv =>
    cases hphase : x.phase with
    | writing value | sweeping =>
        simp only [UserValuation.next, hphase] at h
        cases h
    | finished r =>
        simp only [UserValuation.next, hphase] at h
        rw [← Option.some.inj h]
        exact .finished n u x r hv hphase
  · cases h

/-- Every step is one of the moves. -/
theorem move_of_step? (h : s.step? a = some t) : Move s a t := by
  cases a with
  | hear news =>
      rcases Option.map_eq_some_iff.1 h with ⟨run, hrun, rfl⟩
      exact move_of_hear? hrun
  | call now =>
      simp only [step?] at h
      split at h
      · next c d resume hnext =>
        rcases call_of_next hnext with ⟨after, hphase, hlist⟩
        rw [hlist] at hnext
        cases hnext
        rw [← Option.some.inj h]
        exact .listed now after hphase
      · cases h
  | start => exact move_of_start h
  | value n now => exact move_of_value h
  | finish n => exact move_of_finish h
  | aside now c =>
      rw [← Option.some.inj h]
      exact .aside now c

end Survey

end Bourse
