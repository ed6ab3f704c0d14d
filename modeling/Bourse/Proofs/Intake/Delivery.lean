import Bourse.Proofs.Ingestor.Flow
import Bourse.Proofs.Intake.Chronicle

/-!
# Delivery

Every tick that is sent to an ingestor and is worth a quote comes to its consumer as one
quote, in the order in which the ticks were sent, however often the connection is lost
and made again. Only the last tick taken may be on its way to a full buffer, or may have
been given up because the ingestor had to stop. A tick without a quote is counted and
makes no other difference.

No two ingestors share a connection, so what one of them does to the feed does not
concern the others. This is what carries the flow of ticks from one ingestor to all.

## Main definitions

* `Chronicle.Flowing`: the books of all ingestors agree with the feed.
* `Chronicle.Delivers`: what an ingestor makes of the ticks sent to it.

## Theorems

* `flowing_of_run?`: the books agree with the feed after any run.
* `delivers_of_run`: what every ingestor makes of its ticks in any run.
-/

namespace Bourse

namespace Ingestor

variable {s : IngestorSettings} {now : Nat} {f : StagedFeed} {w : Ingestor}

/-- A quote that an ingestor at rest has in hand waits for room. -/
theorem full_of_rest (hrest : w.step? s now f = none) (hhand : w.hand ≠ []) :
    s.buffer ≤ w.output.length := by
  cases hphase : w.phase with
  | sending c q =>
      simp only [step?, hphase] at hrest
      split at hrest
      · exact absurd hrest (Option.some_ne_none _)
      · split at hrest
        · exact absurd hrest (Option.some_ne_none _)
        · next hfull => exact Nat.le_of_not_lt hfull
  | _ =>
      rw [hand, hphase] at hhand
      exact absurd rfl hhand

/-- Through the connection of an ingestor at rest that is wanted nothing is under way, unless the
buffer is full. -/
theorem peek?_of_rest {c : Nat} (hrest : w.step? s now f = none) (hwanted : w.isUnwanted = false)
    (hroom : w.output.length < s.buffer) (hheld : w.connection? = some c) : f.peek? c = none := by
  cases hphase : w.phase with
  | streaming d =>
      rw [connection?, hphase, Option.some.injEq] at hheld
      rw [← hheld]
      cases hpeek : f.peek? d with
      | none => rfl
      | some t =>
          simp only [step?, hphase, hwanted, hpeek, Bool.false_eq_true, if_false,
            reduceCtorEq] at hrest
  | sending d q =>
      have hfull := full_of_rest hrest (by simp only [hand, hphase, ne_eq, reduceCtorEq,
        not_false_eq_true])
      omega
  | _ =>
      rw [connection?, hphase] at hheld
      exact absurd hheld.symm (Option.some_ne_none c)

/-- A tick without a quote is counted and makes no other difference. -/
theorem takeTick_of_quote?_eq_none {t : RawTick} {symbols : List String}
    (h : t.quote? symbols = none) (w : Ingestor) (f : StagedFeed) (c : Nat) :
    ∃ warning, w.takeTick symbols f c t =
      ⟨{ w with stats := { w.stats with rejected := w.stats.rejected + 1 } }, f.take c,
        warning⟩ := by
  rw [RawTick.quote?_eq] at h
  unfold takeTick
  cases hdecode : t.decode symbols with
  | ok q =>
      rw [hdecode] at h
      exact absurd h (Option.some_ne_none q)
  | error e => exact ⟨_, rfl⟩

end Ingestor

namespace Chronicle

open Intake (Action)

variable {k k' : Chronicle} {i : Nat} {w : Ingestor}

theorem settings_of_run? {settings : IngestorSettings} {buffer delay failures : Nat}
    {actions : List Action} (h : (opened settings buffer delay failures).run? actions = some k) :
    k.intake.settings = settings := by
  refine run?_induction (fun k => k.intake.settings = settings) (fun k k' hk hmove => ?_) rfl h
  cases hmove with
  | _ => exact hk

/-- An ingestor that comes to a tick without a quote counts it. -/
theorem reject_of_peek? {c : Nat} {t : RawTick} (hw : k.intake.ingestors[i]? = some w)
    (hphase : w.phase = .streaming c) (hpeek : k.intake.feed.peek? c = some t)
    (hquote : t.quote? k.intake.settings.symbols = none) :
    ∃ k', k.step? (.turn i .goOn) = some k' ∧
      k'.intake.ingestors[i]? =
        some { w with stats := { w.stats with rejected := w.stats.rejected + 1 } } ∧
      k'.books i = { k.books i with takings := (k.books i).takings ++ [(c, t)] } := by
  rcases Ingestor.takeTick_of_quote?_eq_none hquote w k.intake.feed c with ⟨warning, htick⟩
  have hstep : k.step? (.turn i .goOn) = some (k.noted { k.intake with
      feed := k.intake.feed.take c
      ingestors := k.intake.ingestors.set i
        { w with stats := { w.stats with rejected := w.stats.rejected + 1 } }
      warnings := k.intake.warnings ++ warning.toList } i (.took c t)) := by
    simp only [step?, hw, Ingestor.turn?, hphase, hpeek, htick, Option.map_some]
  exact ⟨_, hstep, List.getElem?_set_self (List.getElem?_eq_some_iff.1 hw).1,
    Function.update_self ..⟩

/-! ## The flow to all ingestors -/

/-- The books of every ingestor agree with the feed, and no connection is in two of them. -/
structure Flowing (k : Chronicle) : Prop where
  kept : k.Kept
  flowing : ∀ i w, k.intake.ingestors[i]? = some w →
    Ingestor.Flowing k.intake.feed k.sent w (k.books i)
  apart : ∀ i j c, c ∈ (k.books i).connections → c ∈ (k.books j).connections → i = j
  unsent : ∀ c, k.intake.feed.connections.length ≤ c → k.sent c = []

theorem flowing_opened (settings : IngestorSettings) (buffer delay failures : Nat) :
    (opened settings buffer delay failures).Flowing :=
  ⟨kept_opened settings buffer delay failures,
    fun _ _ hw => absurd hw (by
      simp only [opened, Intake.create, List.getElem?_nil, reduceCtorEq, not_false_eq_true]),
    fun _ _ _ hc => absurd hc List.not_mem_nil, fun _ _ => rfl⟩

/-- The connections in the books are connections of the feed. -/
theorem Flowing.lt_length (h : k.Flowing) {c : Nat} (hc : c ∈ (k.books i).connections) :
    c < k.intake.feed.connections.length := by
  by_cases hi : i < k.intake.ingestors.length
  · exact (h.flowing i _ (List.getElem?_eq_getElem hi)).lt_length hc
  · rw [h.kept.fresh i (Nat.le_of_not_lt hi)] at hc
    exact absurd hc List.not_mem_nil

/-- Connections stay in the books of one ingestor when an event makes another. -/
theorem Flowing.apart_of_note (h : k.Flowing) {e : Ingestor.Event}
    (hmade : ∀ c ∈ e.made, c = k.intake.feed.connections.length) (j j' c : Nat)
    (hj : c ∈ (Function.update k.books i ((k.books i).note e) j).connections)
    (hj' : c ∈ (Function.update k.books i ((k.books i).note e) j').connections) : j = j' := by
  have hcases : ∀ {j}, c ∈ (Function.update k.books i ((k.books i).note e) j).connections →
      c ∈ (k.books j).connections ∨ j = i ∧ c = k.intake.feed.connections.length := by
    intro j hj
    by_cases hji : j = i
    · subst hji
      rw [Function.update_self, Ingestor.Books.connections_note, List.mem_append] at hj
      exact hj.imp_right (fun hc => ⟨rfl, hmade c hc⟩)
    · rw [Function.update_of_ne hji] at hj
      exact Or.inl hj
  rcases hcases hj with hold | ⟨rfl, hnew⟩
  · rcases hcases hj' with hold' | ⟨rfl, hnew'⟩
    · exact h.apart j j' c hold hold'
    · exact absurd (h.lt_length hold) (Nat.not_lt_of_le (Nat.le_of_eq hnew'.symm))
  · rcases hcases hj' with hold' | ⟨rfl, -⟩
    · exact absurd (h.lt_length hold') (Nat.not_lt_of_le (Nat.le_of_eq hnew.symm))
    · rfl

theorem flowing_of_move (h : k.Flowing) (hmove : Move k k') : k'.Flowing := by
  have hkept := kept_of_move h.kept hmove
  cases hmove with
  | happen i w w' e warnings hw hstep hfinds =>
      have hflow := h.flowing i w hw
      refine ⟨hkept, fun j v hv => ?_, ?_, fun c hc => ?_⟩
      · refine forall_of_set (fun j v hj hv => ?_) hw
          (Ingestor.flowing_of_step hflow h.unsent hstep hfinds) hv
        -- The event is about a connection that the other ingestor does not have.
        refine (h.flowing j v hv).of_same rfl rfl rfl rfl (fun c hc => ?_) (fun _ _ => rfl)
        refine Ingestor.connection_after (h.lt_length hc) (fun he => hj ?_)
        have hheld := hflow.mem_of_held (Ingestor.connection?_of_step hstep he)
        exact h.apart j i c hc hheld
      · exact h.apart_of_note (fun c hc => Ingestor.eq_length_of_made hfinds hstep hc)
      · exact h.unsent c (Nat.le_trans (Ingestor.length_le_after _ e) hc)
  | start c fired hconnect =>
      rcases k.intake.feed.cases_of_connect with ⟨hnumber, hnew⟩ | ⟨⟨fault, hfault⟩, -⟩
      · refine ⟨hkept, fun j v hv => ?_, ?_, fun d hd => ?_⟩
        · refine forall_of_concat (fun j v hv => ?_) ?_ hv
          · refine (h.flowing j v hv).of_same rfl rfl rfl rfl (fun d hd => ?_) (fun _ _ => rfl)
            simp only [noted, hnew]
            exact List.getElem?_append_left (h.lt_length hd)
          · rw [h.kept.fresh _ (Nat.le_refl _)]
            exact Ingestor.flowing_start fired h.unsent hconnect
        · refine h.apart_of_note (fun d hd => ?_)
          rw [Ingestor.Event.made, List.mem_singleton] at hd
          rw [hd]
          exact Except.ok.inj (hconnect.symm.trans hnumber)
        · refine h.unsent d (Nat.le_trans ?_ hd)
          simp only [noted, hnew, List.length_append]
          exact Nat.le_add_right _ _
      · exact absurd (hconnect.symm.trans hfault)
          (by simp only [reduceCtorEq, not_false_eq_true])
  | refuse feed hgrown =>
      refine ⟨hkept, fun j v hv => ?_, h.apart,
        fun c hc => h.unsent c (Nat.le_trans hgrown.length_le hc)⟩
      refine (h.flowing j v hv).of_same rfl rfl rfl rfl (fun c hc => ?_) (fun _ _ => rfl)
      rcases hgrown with ⟨rest, hrest⟩
      simp only [← hrest]
      exact List.getElem?_append_left (h.lt_length hc)
  | tend t =>
      refine ⟨hkept, fun j v hv => Ingestor.flowing_tend (h.flowing j v hv) t, h.apart,
        fun c hc => ?_⟩
      simp only [StagedFeed.length_tend] at hc
      simp only [h.unsent c hc, StagedFeed.sends_of_le t hc, List.append_nil]
  | wait ms => exact ⟨hkept, h.flowing, h.apart, h.unsent⟩

theorem flowing_of_run? {settings : IngestorSettings} {buffer delay failures : Nat}
    {actions : List Action} (h : (opened settings buffer delay failures).run? actions = some k) :
    k.Flowing :=
  run?_induction Flowing (fun _ _ => flowing_of_move)
    (flowing_opened settings buffer delay failures) h

/-! ## What comes of it -/

/-- What an ingestor makes of the ticks sent to it. -/
structure Delivers (settings : IngestorSettings) (k : Chronicle) (i : Nat) (w : Ingestor) :
    Prop where
  /-- The ticks of one connection come before those of the next one. -/
  ordered : (k.books i).takings.map (·.2) =
    (k.books i).connections.flatMap (k.books i).takenFrom
  rising : (k.books i).connections.Pairwise (· < ·)
  /-- They are taken in the order in which they were sent, and none is left out. -/
  sent : ∀ c ∈ (k.books i).connections, (k.books i).takenFrom c <+: k.sent c
  /-- Their quotes are put into the buffer. -/
  quotes : ((k.books i).takings.map (·.2)).filterMap (·.quote? settings.symbols) =
    (k.books i).puts ++ (w.hand ++ (k.books i).givenUp)
  /-- Only that of the last tick may not be there: it waits for room or was given up. -/
  last : w.hand ++ (k.books i).givenUp = [] ∨
    ∃ t q, ((k.books i).takings.map (·.2)).getLast? = some t ∧
      t.quote? settings.symbols = some q ∧ w.hand ++ (k.books i).givenUp = [q]
  full : k.intake.stepAt? i = none → w.hand ≠ [] → settings.buffer ≤ w.output.length
  ended : (k.books i).givenUp ≠ [] → w.state = .terminated
  /-- Quotes in the buffer stay there until they are received. -/
  output : (k.books i).puts = (k.books i).receipts ++ w.output
  counted : w.stats.quotes = (k.books i).receipts.length + w.output.length
  rejected : w.stats.rejected =
    ((k.books i).takings.map (·.2)).countP (fun t => (t.quote? settings.symbols).isNone)
  /-- A tick without a quote makes no difference but in the counter. -/
  rejects : ∀ c t, w.phase = .streaming c → k.intake.feed.peek? c = some t →
    t.quote? settings.symbols = none → ∃ k', k.step? (.turn i .goOn) = some k' ∧
      k'.intake.ingestors[i]? =
        some { w with stats := { w.stats with rejected := w.stats.rejected + 1 } } ∧
      k'.books i = { k.books i with takings := (k.books i).takings ++ [(c, t)] }
  /-- Nothing is lost as long as nobody stops the ingestor. -/
  complete : (k.books i).parted = false → k.intake.stepAt? i = none →
    w.output.length < settings.buffer →
      (∀ c ∈ (k.books i).connections, (k.books i).takenFrom c = k.sent c) ∧
      (k.books i).puts =
        ((k.books i).connections.flatMap k.sent).filterMap (·.quote? settings.symbols)

/-- At rest nothing that was sent to an ingestor that is wanted is under way, unless its buffer is
full. -/
theorem Flowing.takenFrom_eq_sent (h : k.Flowing) (hw : k.intake.ingestors[i]? = some w)
    (hparted : (k.books i).parted = false) (hrest : k.intake.stepAt? i = none)
    (hroom : w.output.length < k.intake.settings.buffer) :
    ∀ c ∈ (k.books i).connections, (k.books i).takenFrom c = k.sent c := by
  have hflow := h.flowing i w hw
  have hbalanced := h.kept.balanced i w hw
  have hwanted : w.isUnwanted = false := by rw [hbalanced.parted, hparted]
  intro c hc
  by_cases hheld : w.connection? = some c
  · rcases hflow.held c hheld with ⟨x, hx, -, hsent⟩
    have hnone := Ingestor.peek?_of_rest (rest_of_stepAt? hw hrest) hwanted hroom hheld
    rw [StagedFeed.peek?, hx, Option.bind_some, List.head?_eq_none_iff] at hnone
    rw [hsent, hnone, List.append_nil]
  · -- A past connection was given up empty, unless the ingestor stopped on it.
    have hgoing : w.state ≠ .terminated := fun hended => by
      rw [hbalanced.ended hended] at hwanted
      exact absurd hwanted (by simp only [reduceCtorEq, not_false_eq_true])
    refine (hflow.past c hc hheld).2.2 ?_
    rw [(hbalanced.going hgoing).2]
    exact List.not_mem_nil

/-- What every ingestor makes of the ticks sent to it in any run. -/
theorem delivers_of_run {settings : IngestorSettings} {buffer delay failures : Nat}
    {actions : List Action} (h : (opened settings buffer delay failures).run? actions = some k)
    (hw : k.intake.ingestors[i]? = some w) : k.Delivers settings i w := by
  have hflowing := flowing_of_run? h
  have hflow := hflowing.flowing i w hw
  have hfaithful := hflowing.kept.faithful i w hw
  rw [settings_of_run? h] at hfaithful
  have hsettings := settings_of_run? h
  have hquotes : ((k.books i).takings.map (·.2)).filterMap (·.quote? settings.symbols) =
      (k.books i).puts ++ (w.hand ++ (k.books i).givenUp) := by
    rw [List.filterMap_map]
    exact hfaithful.quotes
  refine ⟨hflow.ordered, hflow.rising, fun c hc => hflow.isPrefix hc, hquotes, ?_, ?_, ?_,
    hfaithful.output, ?_, ?_, ?_, ?_⟩
  · refine hfaithful.last.imp_right fun ⟨p, q, hlast, hquote, hheld⟩ => ⟨p.2, q, ?_, hquote, hheld⟩
    rw [List.getLast?_map, hlast]
    rfl
  · intro hrest
    rw [← hsettings]
    exact Ingestor.full_of_rest (rest_of_stepAt? hw hrest)
  · intro hgiven
    by_contra hgoing
    refine hgiven (hfaithful.ended (fun hphase => hgoing ?_))
    rw [Ingestor.state, hphase]
  · rw [hfaithful.counted, hfaithful.output, List.length_append]
  · rw [hfaithful.rejected, List.countP_map]
    rfl
  · intro c t hphase hpeek hquote
    exact reject_of_peek? hw hphase hpeek (hsettings ▸ hquote)
  · intro hparted hrest hroom
    rw [← hsettings] at hroom
    have hall := hflowing.takenFrom_eq_sent hw hparted hrest hroom
    have hnone : w.hand = [] := by
      by_contra hhand
      exact absurd (Ingestor.full_of_rest (rest_of_stepAt? hw hrest) hhand)
        (Nat.not_le_of_lt hroom)
    have hgiven : (k.books i).givenUp = [] := by
      refine hfaithful.ended (fun hphase => ?_)
      have hbalanced := hflowing.kept.balanced i w hw
      rw [← hbalanced.parted, hbalanced.ended (by rw [Ingestor.state, hphase])] at hparted
      exact absurd hparted (by simp only [reduceCtorEq, not_false_eq_true])
    refine ⟨hall, ?_⟩
    rw [hnone, hgiven, List.append_nil, List.append_nil, hflow.ordered,
      List.flatMap_congr hall] at hquotes
    exact hquotes.symm

/-- Two ticks, of which one is for another symbol, a connection that ends behind them, and a third
tick on the next one. -/
def reconnecting : List Action :=
  [.open false, .tend .accept, .tend (.send 0 ⟨"BTC", "1", ⟨0, 0⟩⟩),
    .tend (.send 0 ⟨"ETH", "1", ⟨0, 0⟩⟩), .tend (.close 0), .turn 0 .goOn, .turn 0 .goOn,
    .turn 0 .goOn, .turn 0 .goOn, .wait 5, .turn 0 .goOn, .turn 0 .goOn, .tend .accept,
    .tend (.send 1 ⟨"BTC", "2", ⟨1, 0⟩⟩), .turn 0 .goOn, .turn 0 .goOn, .receive 0]

/-- The two quotes are those of the ticks sent through both connections. -/
theorem delivers_of_run_reconnecting :
    ∃ k w, (opened ⟨["BTC"], 5, 2⟩ 4 0 0).run? reconnecting = some k ∧
      k.intake.ingestors[0]? = some w ∧ w.stats.quotes = 2 ∧ w.stats.rejected = 1 ∧
      (k.books 0).puts = ([0, 1].flatMap k.sent).filterMap (·.quote? ["BTC"]) := by
  obtain ⟨k, w, hrun, hw, hquotes, hrejected, hconnections, hparted, hrest, hroom⟩ : ∃ k w,
      (opened ⟨["BTC"], 5, 2⟩ 4 0 0).run? reconnecting = some k ∧
      k.intake.ingestors[0]? = some w ∧ w.stats.quotes = 2 ∧ w.stats.rejected = 1 ∧
      (k.books 0).connections = [0, 1] ∧ (k.books 0).parted = false ∧
      k.intake.stepAt? 0 = none ∧ w.output.length = 1 :=
    ⟨_, _, rfl, rfl, rfl, rfl, rfl, rfl, rfl, rfl⟩
  have hall := ((delivers_of_run hrun hw).complete hparted hrest (hroom ▸ Nat.one_lt_two)).2
  rw [hconnections] at hall
  exact ⟨k, w, hrun, hw, hquotes, hrejected, hall⟩

end Chronicle

end Bourse
