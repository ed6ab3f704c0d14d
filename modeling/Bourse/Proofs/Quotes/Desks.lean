import Bourse.Proofs.Quotes.Board
import Bourse.QuoteDesk
import Mathlib.Data.List.Nodup

/-!
# Desks and Boards

Everything that happens at a quote desk is a run of a board. At a desk every reader goes on
as far as it can whenever something has happened, and whoever asks for a price and does not
get it at once waits in vain; on a board everybody takes single steps. So what is true after
every run of every board is true of every desk.

## Main definitions

* `QuoteDesk.Action`, `QuoteDesk.act`: what can be done at a desk.
* `Board.Reaches`: where steps lead from a board.
* `Board.TellsOf`: a board tells of a desk.

## Theorems

* `reaches_settle`: a reader that goes as far as it can takes steps of a board.
* `exists_settled`: so do some readers, one after the other.
* `exists_run_of_desk`: whatever is done at a desk, there is a run that leads there.
* `exists_run_of_ask`: who asks there gets what a reader on the board gets.
-/

namespace Bourse

namespace QuoteDesk

/-- What can be done at a desk. -/
inductive Action where
  | update (quotes : List Quote)
  | wait (ms : Nat)
  | stop
  | ask (symbol : String) (maxAge timeout : Nat) (heedsStop : Bool)
  | spawn (name symbol : String) (maxAge : Nat)
  | poll (name : String)

/-- The desk after something has been done. -/
def act (d : QuoteDesk) : Action → QuoteDesk
  | .update quotes => d.update quotes
  | .wait ms => d.wait ms
  | .stop => d.stop
  | .ask symbol maxAge timeout heedsStop => (d.ask symbol maxAge timeout heedsStop).2
  | .spawn name symbol maxAge => d.spawn name symbol maxAge
  | .poll name => (d.poll name).2

def after (d : QuoteDesk) (actions : List Action) : QuoteDesk := actions.foldl act d

/-- The signals of a desk: that by which its readers are called off, and one that never fires. -/
def signals (stopped : Bool) : Signals :=
  let s := (Signals.empty.create "stop" "stop").never "never"
  if stopped then (s.trigger "stop").getD s else s

theorem get?_signals (stopped : Bool) : (signals stopped).signals.get? "stop" = some 0 ∧
    (signals stopped).signals.get? "never" = some 1 := by
  cases stopped with
  | false => decide
  | true => decide

theorem isCancelled_signals (stopped : Bool) :
    (signals stopped).isCancelled 0 = stopped ∧ (signals stopped).isCancelled 1 = false := by
  cases stopped with
  | false => decide
  | true => decide

/-- The signal that somebody heeds who asks at a desk. -/
def heeded (heedsStop : Bool) : String := if heedsStop then "stop" else "never"

theorem exists_source (stopped heedsStop : Bool) : ∃ source,
    (signals stopped).signals.get? (heeded heedsStop) = some source ∧
      (signals stopped).isCancelled source = (heedsStop && stopped) := by
  cases heedsStop with
  | false => exact ⟨1, (get?_signals stopped).2, (isCancelled_signals stopped).2⟩
  | true => exact ⟨0, (get?_signals stopped).1, (isCancelled_signals stopped).1⟩

end QuoteDesk

/-- A reader that goes as far as it can still wants what it wanted. -/
theorem QuoteReader.wants_settle (r : QuoteReader) (c : QuoteCache) (now : Nat) (cancelled : Bool) :
    (r.settle c now cancelled).symbol = r.symbol ∧ (r.settle c now cancelled).maxAge = r.maxAge := by
  have hnext : ∀ r : QuoteReader, ((r.step c now cancelled).getD r).symbol = r.symbol ∧
      ((r.step c now cancelled).getD r).maxAge = r.maxAge := by
    intro r
    cases hstep : r.step c now cancelled with
    | none => exact ⟨rfl, rfl⟩
    | some r' => exact (cases_of_step hstep).1
  rw [settle]
  simp only [hnext, and_self]

namespace Board

variable {b b' : Board} {n : Nat} {r : Reading} {d : QuoteDesk} {number : String → Nat}

/-- Some steps lead from one board to another. -/
abbrev Reaches : Board → Board → Prop :=
  Relation.ReflTransGen (fun b b' => ∃ a, b.step? a = some b')

theorem reaches_of_step? (a : Action) (h : b.step? a = some b') : b.Reaches b' := .single ⟨a, h⟩

/-! ## Readers -/

theorem present?_goOn (h : b.present? n = some r) (next : QuoteReader) :
    (b.goOn n r next).present? n = some { r with reader := next } := by
  rcases present?_eq_some h with ⟨hr, hpresent⟩
  rw [present?, goOn, List.getElem?_set_self (List.getElem?_eq_some_iff.1 hr).1,
    Option.filter_some]
  exact if_pos hpresent

theorem goOn_self (h : b.present? n = some r) : b.goOn n r r.reader = b := by
  rcases List.getElem?_eq_some_iff.1 (present?_eq_some h).1 with ⟨hn, hr⟩
  have hsame : b.readings.set n r = b.readings := by rw [← hr, List.set_getElem_self]
  rw [goOn, hsame]

/-- The reader after its next step, or as it is without one. -/
def next (b : Board) (r : Reading) (reader : QuoteReader) : QuoteReader :=
  (reader.step b.cache b.now (b.signals.isCancelled r.source)).getD reader

/-- A reader that has its next step can take it. -/
theorem reaches_next (h : b.present? n = some r) (reader : QuoteReader) :
    (b.goOn n r reader).Reaches (b.goOn n r (b.next r reader)) := by
  have hpresent := present?_goOn h reader
  have hset : ∀ reader', (b.goOn n r reader).goOn n { r with reader } reader' = b.goOn n r reader' :=
    fun reader' => by simp only [goOn, List.set_set]
  unfold next
  cases hstep : reader.step b.cache b.now (b.signals.isCancelled r.source) with
  | none => exact .refl
  | some reader' =>
      refine reaches_of_step? (.turn n) ?_
      rw [step?, hpresent, Option.bind_some]
      rw [show reader.step (b.goOn n r reader).cache (b.goOn n r reader).now
        ((b.goOn n r reader).signals.isCancelled r.source) = _ from hstep]
      rw [Option.map_some, hset]
      rfl

/-- A reader that goes as far as it can takes steps of the board. -/
theorem reaches_settle (h : b.present? n = some r) :
    b.Reaches (b.goOn n r (r.reader.settle b.cache b.now (b.signals.isCancelled r.source))) := by
  have hfirst : b.Reaches (b.goOn n r (b.next r r.reader)) := by
    have hnext := reaches_next h r.reader
    rw [goOn_self h] at hnext
    exact hnext
  exact ((hfirst.trans (reaches_next h _)).trans (reaches_next h _)).trans (reaches_next h _)

/-- Some readers can go as far as they can, one after the other, and nobody else does anything. -/
theorem exists_settled (numbers : List Nat) (hnodup : numbers.Nodup)
    (hpresent : ∀ n ∈ numbers, ∃ r, b.present? n = some r) :
    ∃ readings, b.Reaches { b with readings } ∧
      (∀ n ∈ numbers, ∀ r, b.present? n = some r →
        ({ b with readings } : Board).present? n = some { r with
          reader := r.reader.settle b.cache b.now (b.signals.isCancelled r.source) }) ∧
      ∀ n, n ∉ numbers → readings[n]? = b.readings[n]? := by
  induction numbers generalizing b with
  | nil => exact ⟨b.readings, .refl, fun _ hn => absurd hn List.not_mem_nil, fun _ _ => rfl⟩
  | cons k rest ih =>
      rcases List.nodup_cons.1 hnodup with ⟨hk, hrest⟩
      rcases hpresent k List.mem_cons_self with ⟨w, hw⟩
      have hfirst := reaches_settle hw
      have hsettled := present?_goOn hw
        (w.reader.settle b.cache b.now (b.signals.isCancelled w.source))
      have hothers : ∀ n, n ≠ k → ∀ reader, (b.goOn k w reader).readings[n]? = b.readings[n]? :=
        fun n hn _ => List.getElem?_set_ne (Ne.symm hn)
      have hpresent' : ∀ n, n ≠ k → ∀ reader, (b.goOn k w reader).present? n = b.present? n :=
        fun n hn reader => congrArg (Option.filter Reading.present) (hothers n hn reader)
      have hne : ∀ n ∈ rest, n ≠ k := fun n hn heq => hk (heq ▸ hn)
      rcases ih hrest (b := b.goOn k w _) (fun n hn => by
          rw [hpresent' n (hne n hn)]
          exact hpresent n (List.mem_cons_of_mem _ hn)) with ⟨readings, hreach, hdone, hleft⟩
      refine ⟨readings, hfirst.trans hreach, fun n hn r hr => ?_, fun n hn => ?_⟩
      · rcases List.mem_cons.1 hn with rfl | hn
        · cases Option.some.inj (hw.symm.trans hr)
          exact (congrArg (Option.filter Reading.present) (hleft n hk)).trans hsettled
        · exact hdone n hn r ((hpresent' n (hne n hn) _).trans hr)
      · rcases not_or.1 (List.mem_cons.not.1 hn) with ⟨hnk, hnrest⟩
        exact (hleft n hnrest).trans (hothers n hnk _)

/-! ## Desks -/

/-- A board tells of a desk. The readers that wait aside at the desk have numbers on the board. -/
structure TellsOf (b : Board) (number : String → Nat) (d : QuoteDesk) : Prop where
  cache : b.cache = d.cache
  now : b.now = d.now
  signals : b.signals = QuoteDesk.signals d.stopped
  readers : ∀ name r, d.readers.get? name = some r → b.present? (number name) = some ⟨r, 0, true⟩
  apart : ∀ name ∈ d.readers.keys, ∀ name' ∈ d.readers.keys, number name = number name' →
    name = name'

theorem TellsOf.lt_length (h : b.TellsOf number d) {name : String} (hname : name ∈ d.readers.keys) :
    number name < b.readings.length := by
  rcases Option.isSome_iff_exists.1 (Table.mem_keys_iff.1 hname) with ⟨r, hr⟩
  exact (List.getElem?_eq_some_iff.1 (present?_eq_some (h.readers name r hr)).1).1

/-- More readers on the board make no difference. -/
theorem TellsOf.of_longer (h : b.TellsOf number d) (hcache : b'.cache = b.cache)
    (hnow : b'.now = b.now) (hsignals : b'.signals = b.signals)
    (hreadings : ∀ n, n < b.readings.length → b'.readings[n]? = b.readings[n]?) :
    b'.TellsOf number d := by
  refine ⟨hcache.trans h.cache, hnow.trans h.now, hsignals.trans h.signals, fun name r hr => ?_,
    h.apart⟩
  have hlt := h.lt_length (Table.mem_keys_iff.2 (Option.isSome_iff_exists.2 ⟨r, hr⟩))
  rw [present?, hreadings _ hlt]
  exact h.readers name r hr

/-- Some steps lead from a board to one that tells of a desk. -/
def Leads (b : Board) (d : QuoteDesk) : Prop :=
  ∃ b' number, b.Reaches b' ∧ b'.TellsOf number d

theorem Leads.settle (h : b.Leads d) : b.Leads d.settle := by
  rcases h with ⟨c, number, hreach, htells⟩
  have hnodup : (d.readers.keys.map number).Nodup :=
    List.Nodup.map_on htells.apart d.readers.nodup_keys
  have hpresent : ∀ n ∈ d.readers.keys.map number, ∃ r, c.present? n = some r := by
    intro n hn
    rcases List.mem_map.1 hn with ⟨name, hname, rfl⟩
    rcases Option.isSome_iff_exists.1 (Table.mem_keys_iff.1 hname) with ⟨r, hr⟩
    exact ⟨_, htells.readers name r hr⟩
  have hkeys : d.settle.readers.keys = d.readers.keys := List.map_map
  rcases exists_settled _ hnodup hpresent with ⟨readings, hsettle, hdone, -⟩
  refine ⟨{ c with readings }, number, hreach.trans hsettle, htells.cache, htells.now,
    htells.signals, fun name r' hr' => ?_, hkeys ▸ htells.apart⟩
  rcases Table.get?_mapValues_eq_some.1 hr' with ⟨r, hr, rfl⟩
  have hname : name ∈ d.readers.keys := Table.mem_keys_iff.2 (Option.isSome_iff_exists.2 ⟨r, hr⟩)
  rw [hdone _ (List.mem_map_of_mem hname) _ (htells.readers name r hr), htells.cache, htells.now,
    htells.signals, (QuoteDesk.isCancelled_signals d.stopped).1]

/-- A quote comes in, and notice is given at once. -/
theorem reaches_update (b : Board) (q : Quote) : b.Reaches { b with
    cache := b.cache.update b.now q, came := b.came ++ [⟨q, b.now⟩] } := by
  refine (reaches_of_step? (.enter q) rfl).trans (reaches_of_step? .notify ?_)
  rw [step?, if_neg (Nat.succ_ne_zero b.owed)]
  rfl

theorem Leads.update (h : b.Leads d) (quotes : List Quote) : b.Leads (d.update quotes) := by
  suffices hentered : b.Leads { d with
      cache := quotes.foldl (fun c q => c.update d.now q) d.cache } from hentered.settle
  induction quotes generalizing d with
  | nil => exact h
  | cons q rest ih =>
      refine ih (d := { d with cache := d.cache.update d.now q }) ?_
      rcases h with ⟨c, number, hreach, htells⟩
      refine ⟨_, number, hreach.trans (reaches_update c q), ?_, htells.now, htells.signals,
        htells.readers, htells.apart⟩
      rw [← htells.cache, ← htells.now]

theorem TellsOf.wait (h : b.TellsOf number d) (ms : Nat) :
    ({ b with now := b.now + ms } : Board).TellsOf number (d.wait ms) :=
  ⟨h.cache, congrArg (· + ms) h.now, h.signals, h.readers, h.apart⟩

theorem Leads.wait (h : b.Leads d) (ms : Nat) : b.Leads (d.wait ms) := by
  rcases h with ⟨c, number, hreach, htells⟩
  exact ⟨_, number, hreach.tail ⟨.wait ms, rfl⟩, htells.wait ms⟩

theorem Leads.stop (h : b.Leads d) : b.Leads d.stop := by
  suffices hstopped : b.Leads { d with stopped := true } from hstopped.settle
  by_cases hd : d.stopped = true
  · -- Readers who have been called off are not called off again.
    rw [show ({ d with stopped := true } : QuoteDesk) = d by rw [← hd]]
    exact h
  · rcases h with ⟨c, number, hreach, htells⟩
    have htrigger : c.signals.act? (.trigger "stop") = some (QuoteDesk.signals true) := by
      rw [htells.signals, eq_false_of_ne_true hd]
      decide
    exact ⟨{ c with signals := QuoteDesk.signals true }, number,
      hreach.tail ⟨.signal (.trigger "stop"), congrArg (Option.map _) htrigger⟩, htells.cache,
      htells.now, rfl, htells.readers, htells.apart⟩

/-- A reader begins to wait aside. -/
theorem Leads.spawn (h : b.Leads d) (name symbol : String) (maxAge : Nat) :
    b.Leads (d.spawn name symbol maxAge) := by
  suffices hstarted : b.Leads { d with
      readers := d.readers.insert name (.start d.cache symbol maxAge) } from hstarted.settle
  rcases h with ⟨c, number, hreach, htells⟩
  have hstop : c.signals.signals.get? "stop" = some 0 := by
    rw [htells.signals]
    exact (QuoteDesk.get?_signals d.stopped).1
  have hget : c.step? (.get symbol maxAge "stop") = some { c with
      readings := c.readings ++ [⟨.start c.cache symbol maxAge, 0, true⟩] } :=
    congrArg (Option.map _) hstop
  have hlonger : TellsOf { c with
      readings := c.readings ++ [⟨.start c.cache symbol maxAge, 0, true⟩] } number d :=
    htells.of_longer rfl rfl rfl (fun n hn => List.getElem?_append_left hn)
  refine ⟨_, Function.update number name c.readings.length, hreach.tail ⟨_, hget⟩, hlonger.cache,
    hlonger.now, hlonger.signals, fun name' r hr => ?_, fun name₁ h₁ name₂ h₂ heq => ?_⟩
  · rw [Table.get?_insert_eq] at hr
    split at hr
    · next hname =>
      rw [← Option.some.inj hr, hname, Function.update_self, present?,
        List.getElem?_concat_length, htells.cache]
      rfl
    · next hname =>
      rw [Function.update_of_ne hname]
      exact hlonger.readers name' r hr
  · -- The number of the new reader is larger than all others.
    have hold : ∀ name' ∈ (d.readers.insert name (.start d.cache symbol maxAge)).keys,
        name' ≠ name → name' ∈ d.readers.keys :=
      fun name' hmem hne => (Table.mem_keys_insert.1 hmem).resolve_left hne
    by_cases hnew₁ : name₁ = name
    · by_cases hnew₂ : name₂ = name
      · exact hnew₁.trans hnew₂.symm
      · rw [hnew₁, Function.update_self, Function.update_of_ne hnew₂] at heq
        exact absurd heq (Nat.ne_of_gt (htells.lt_length (hold name₂ h₂ hnew₂)))
    · by_cases hnew₂ : name₂ = name
      · rw [hnew₂, Function.update_self, Function.update_of_ne hnew₁] at heq
        exact absurd heq (Nat.ne_of_lt (htells.lt_length (hold name₁ h₁ hnew₁)))
      · rw [Function.update_of_ne hnew₁, Function.update_of_ne hnew₂] at heq
        exact htells.apart name₁ (hold name₁ h₁ hnew₁) name₂ (hold name₂ h₂ hnew₂) heq

/-- A result is handed over, and its reader is gone. -/
theorem Leads.poll (h : b.Leads d) (name : String) : b.Leads (d.poll name).2 := by
  unfold QuoteDesk.poll
  split
  · exact h
  · split
    · exact h
    · rcases h with ⟨c, number, hreach, htells⟩
      have hkeys : ∀ name' ∈ (d.readers.filter (fun k _ => k ≠ name)).keys,
          name' ∈ d.readers.keys := by
        intro name' hmem
        rcases Option.isSome_iff_exists.1 (Table.mem_keys_iff.1 hmem) with ⟨r, hr⟩
        exact Table.mem_keys_iff.2
          (Option.isSome_iff_exists.2 ⟨r, (Table.get?_filter_eq_some.1 hr).1⟩)
      exact ⟨c, number, hreach, htells.cache, htells.now, htells.signals,
        fun name' r hr => htells.readers name' r (Table.get?_filter_eq_some.1 hr).1,
        fun name₁ h₁ name₂ h₂ => htells.apart name₁ (hkeys name₁ h₁) name₂ (hkeys name₂ h₂)⟩

/-! ## Asking -/

/-- Who asks at a desk is a reader on the board, who goes as far as it can. -/
theorem TellsOf.exists_asked (h : b.TellsOf number d) (symbol : String) (maxAge timeout : Nat)
    (heedsStop : Bool) : ∃ (b' : Board) (n : Nat) (r : Reading), b.Reaches b' ∧
      b'.TellsOf number (d.ask symbol maxAge timeout heedsStop).2 ∧ b'.readings[n]? = some r ∧
      r.reader.symbol = symbol ∧ r.reader.maxAge = maxAge ∧
      r.reader.result? = (d.ask symbol maxAge timeout heedsStop).1 := by
  rcases QuoteDesk.exists_source d.stopped heedsStop with ⟨source, hget, hcancelled⟩
  rw [← h.signals] at hget hcancelled
  generalize hw : (⟨.start b.cache symbol maxAge, source, true⟩ : Reading) = w
  have hstep : b.step? (.get symbol maxAge (QuoteDesk.heeded heedsStop)) =
      some { b with readings := b.readings ++ [w] } := hw ▸ congrArg (Option.map _) hget
  have hpresent : ({ b with readings := b.readings ++ [w] } : Board).present? b.readings.length =
      some w := by
    rw [present?, List.getElem?_concat_length, ← hw]
    rfl
  generalize hsettled : (QuoteReader.start d.cache symbol maxAge).settle d.cache d.now
    (heedsStop && d.stopped) = reader
  have hreader : w.reader.settle b.cache b.now (b.signals.isCancelled w.source) = reader := by
    rw [← hw, ← hsettled, hcancelled, h.cache, h.now]
  have hwants := QuoteReader.wants_settle (.start d.cache symbol maxAge) d.cache d.now
    (heedsStop && d.stopped)
  rw [hsettled] at hwants
  have hreach := (reaches_of_step? _ hstep).trans (reaches_settle hpresent)
  rw [show w.reader.settle _ _ _ = reader from hreader] at hreach
  have hread := (present?_eq_some (present?_goOn hpresent reader)).1
  have htells : (goOn { b with readings := b.readings ++ [w] } b.readings.length w reader).TellsOf
      number d :=
    h.of_longer rfl rfl rfl fun n hn =>
      (List.getElem?_set_ne (Nat.ne_of_gt hn)).trans (List.getElem?_append_left hn)
  rw [QuoteDesk.ask, hsettled]
  cases hresult : reader.result? with
  | some result => exact ⟨_, _, _, hreach, htells, hread, hwants.1, hwants.2, hresult⟩
  | none =>
      exact ⟨_, _, _, hreach.tail ⟨.wait timeout, rfl⟩, htells.wait timeout, hread, hwants.1,
        hwants.2, hresult⟩

theorem Leads.act (h : b.Leads d) (a : QuoteDesk.Action) : b.Leads (d.act a) := by
  cases a with
  | update quotes => exact h.update quotes
  | wait ms => exact h.wait ms
  | stop => exact h.stop
  | spawn name symbol maxAge => exact h.spawn name symbol maxAge
  | poll name => exact h.poll name
  | ask symbol maxAge timeout heedsStop =>
      rcases h with ⟨c, number, hreach, htells⟩
      rcases htells.exists_asked symbol maxAge timeout heedsStop with ⟨c', -, -, hasked, htells', -⟩
      exact ⟨c', number, hreach.trans hasked, htells'⟩

/-! ## Runs -/

theorem leads_after (done : List QuoteDesk.Action) : opened.Leads (QuoteDesk.empty.after done) := by
  have hfirst : opened.Leads .empty := by
    refine ⟨{ opened with signals := QuoteDesk.signals false }, fun _ => 0,
      (reaches_of_step? (.signal (.create "stop" "stop")) rfl).trans
        (reaches_of_step? (.signal (.never "never")) rfl), rfl, rfl, rfl,
      fun name r hr => absurd hr.symm (Option.some_ne_none r),
      fun name hname => absurd hname List.not_mem_nil⟩
  have hafter : ∀ d, opened.Leads d → opened.Leads (d.after done) := by
    induction done with
    | nil => exact fun d hd => hd
    | cons a rest ih => exact fun d hd => ih (d.act a) (hd.act a)
  exact hafter .empty hfirst

/-- Whatever is done at a desk, there is a run that leads to a board which tells of it. -/
theorem exists_run_of_desk (done : List QuoteDesk.Action) : ∃ actions b number,
    opened.run? actions = some b ∧ b.TellsOf number (QuoteDesk.empty.after done) := by
  rcases leads_after done with ⟨b, number, hreach, htells⟩
  rcases exists_run_of_reaches hreach with ⟨actions, hrun⟩
  exact ⟨actions, b, number, hrun, htells⟩

/-- Whoever asks at a desk gets what a reader gets that wants the same on a board. -/
theorem exists_run_of_ask (done : List QuoteDesk.Action) (symbol : String) (maxAge timeout : Nat)
    (heedsStop : Bool) : ∃ (actions : List Action) (b : Board) (n : Nat) (r : Reading),
      opened.run? actions = some b ∧ b.readings[n]? = some r ∧ r.reader.symbol = symbol ∧
      r.reader.maxAge = maxAge ∧ r.reader.result? =
        ((QuoteDesk.empty.after done).ask symbol maxAge timeout heedsStop).1 := by
  rcases leads_after done with ⟨b, number, hreach, htells⟩
  rcases htells.exists_asked symbol maxAge timeout heedsStop with
    ⟨b', n, r, hasked, -, hr, hsymbol, hage, hresult⟩
  rcases exists_run_of_reaches (hreach.trans hasked) with ⟨actions, hrun⟩
  exact ⟨actions, b', n, r, hrun, hr, hsymbol, hage, hresult⟩

end Board

end Bourse
