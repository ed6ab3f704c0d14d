import Bourse.Proofs.Market.Lines
import Bourse.Proofs.Table

/-!
# Sessions on a Market

A market in any order of its steps. The market of the clients does in a fixed order what
needs no time, and settles before anybody does anything else; in a session the ingestors,
the dispatch of each line, the requests and those who leave come in any order, and time
may pass while there is still something to do. The dispatch may also take some more quotes
before it finds out that its bus has closed.

Along with the market goes the list of subscriptions that are held: those that requests
were answered with, without those given up since. No step reads it.

## Main definitions

* `Market.Action`, `Market.act?`: what can happen, and the market after it.
* `Session`, `Session.step?`, `Session.run?`: a market and the subscriptions held on it.
* `Market.Fit`, `Market.Queued`: what is true of the ingestors and of the requests.
* `Market.SameDesk`: what leaves the requests alone.

## Theorems

* `step_leave`, `step_dispatchAt?`: what those who leave and the dispatch do to the
  outline of the market.
-/

namespace Bourse

/-- What can happen around a market. -/
inductive Market.Action where
  /-- Somebody asks for a subscription. -/
  | request
  /-- The next request gets its turn. -/
  | nextTurn
  /-- The attempt to connect ends. -/
  | endAttempt
  /-- The first subscriber of a line gets its seat. -/
  | takeSeat
  /-- A subscription is given up. -/
  | leave (seat : Seat)
  | receive (seat : Seat)
  /-- A subscription is given to the cache. -/
  | addFeeder (seat : Seat)
  /-- The cache looks for the next quote of a subscription. -/
  | feed (seat : Seat)
  | dispatch (i : Nat)
  /-- The dispatch of a line takes a quote before it finds out that the bus has closed. -/
  | spill (i : Nat)
  | turn (i : Nat) (branch : Ingestor.Branch)
  | tend (t : StagedFeed.Tending)
  /-- Time passes. -/
  | wait (ms : Nat)
deriving DecidableEq

/-- The seat that an answer gives, if it gives one. -/
def Grant.seat? : Grant → Option Seat
  | .seated s => some s
  | _ => none

namespace Market

/-- The market after the dispatch of a closed line has taken a quote, which goes to nobody. -/
def spillAt? (m : Market) (i : Nat) : Option Market :=
  match m.lines[i]?, m.intake.receive i with
  | some l, (.item _, intake) =>
    if l.dispatching && l.bus.closed then some { m with intake } else none
  | _, _ => none

/-- The market after something has happened, where it can happen. -/
def act? (m : Market) : Action → Option Market
  | .request => some m.request.2
  | .nextTurn => m.nextTurn?
  | .endAttempt => m.endAttempt?
  | .takeSeat => m.takeSeat?
  | .leave s => some (m.leave s)
  | .receive s => some (m.receive s).2
  | .addFeeder s => some (m.addFeeder s)
  | .feed s => if s ∈ m.feeders then m.feed? s else none
  | .dispatch i => m.dispatchAt? i
  | .spill i => m.spillAt? i
  | .turn i branch => (m.intake.turnAt? i branch).map (fun intake => { m with intake })
  | .tend t => some { m with intake := { m.intake with feed := m.intake.feed.tend t } }
  | .wait ms => some (m.moved (m.now + ms))

/-- The requests that have not been answered, first come first. -/
def asking (m : Market) : List Nat := (m.attempt.map (·.ticket)).toList ++ m.waiting

/-- The seats that some requests were answered with. -/
def seats (m : Market) (tickets : List Nat) : List Seat :=
  tickets.filterMap (fun t => (m.grant? t).bind Grant.seat?)

end Market

/-- A market and the subscriptions held on it. -/
structure Session where
  market : Market
  held : List Seat

namespace Session

open Market (Action)

/-- A session before the first request. -/
def opened (settings : IngestorSettings) (buffer delay failures capacity : Nat) : Session :=
  ⟨.create settings (.create buffer delay failures) capacity, []⟩

/-- The subscriptions held after something has happened: those who were asking may have got one, and
somebody may have given one up. -/
def heldAfter (x : Session) (m : Market) : Action → List Seat
  | .nextTurn | .endAttempt | .takeSeat => x.held ++ m.seats x.market.asking
  | .leave s => x.held.filter (fun t => t ≠ s)
  | .feed s =>
    if (x.market.receive s).1 = .ended then x.held.filter (fun t => t ≠ s) else x.held
  | _ => x.held

/-- The session after something has happened, where it can happen. -/
def step? (x : Session) (a : Action) : Option Session :=
  (x.market.act? a).map (fun m => ⟨m, x.heldAfter m a⟩)

/-- The session after some steps, where all of them can be taken. -/
def run? (x : Session) : List Action → Option Session
  | [] => some x
  | a :: rest =>
    match x.step? a with
    | some x => x.run? rest
    | none => none

end Session

namespace Market

variable {m m' : Market} {i : Nat} {l : Line} {w : Ingestor}

/-! ## The requests -/

/-- The requests that have not been answered are different, were made, and have no answer. -/
structure Queued (m : Market) : Prop where
  nodup : m.asking.Nodup
  asked : ∀ t ∈ m.asking, t < m.requests
  unanswered : ∀ t, t ∈ m.asking ∨ m.requests ≤ t → m.grant? t = none

theorem Queued.of_same (h : m.Queued) (hasking : m'.asking = m.asking)
    (hrequests : m'.requests = m.requests) (hgrants : m'.grants = m.grants) : m'.Queued := by
  refine ⟨?_, ?_, ?_⟩
  · rw [hasking]
    exact h.nodup
  · rw [hasking, hrequests]
    exact h.asked
  · rw [hasking, hrequests]
    unfold grant?
    rw [hgrants]
    exact h.unanswered

theorem Queued.of_request (h : m.Queued) : m.request.2.Queued := by
  have hasking : m.request.2.asking = m.asking ++ [m.requests] :=
    (List.append_assoc _ _ _).symm
  have hrequests : m.request.2.requests = m.requests + 1 := rfl
  refine ⟨?_, ?_, ?_⟩
  · rw [hasking, List.nodup_append]
    refine ⟨h.nodup, List.nodup_singleton _, fun t ht t' ht' => ?_⟩
    rw [List.mem_singleton.1 ht']
    exact Nat.ne_of_lt (h.asked t ht)
  · rw [hasking, hrequests]
    intro t ht
    rcases List.mem_append.1 ht with ht | ht
    · exact Nat.lt_succ_of_lt (h.asked t ht)
    · rw [List.mem_singleton.1 ht]
      exact Nat.lt_succ_self _
  · rw [hasking, hrequests]
    intro t ht
    refine h.unanswered t ?_
    rcases ht with ht | ht
    · rcases List.mem_append.1 ht with ht | ht
      · exact Or.inl ht
      · exact Or.inr (Nat.le_of_eq (List.mem_singleton.1 ht).symm)
    · exact Or.inr (Nat.le_of_succ_le ht)

section Answer

variable {ticket : Nat} {rest : List Nat} {g : Grant}

theorem grant?_of_answer (hgrants : m'.grants = m.grants.insert ticket g) (t : Nat) :
    m'.grant? t = if t = ticket then some g else m.grant? t := by
  rw [grant?, hgrants, Table.get?_insert_eq]
  rfl

theorem Queued.of_answer (h : m.Queued) (hasking : m.asking = ticket :: rest)
    (hrest : m'.asking = rest) (hrequests : m'.requests = m.requests)
    (hgrants : m'.grants = m.grants.insert ticket g) : m'.Queued := by
  have hnodup := h.nodup
  have hasked := h.asked
  have hunanswered := h.unanswered
  rw [hasking] at hnodup hasked hunanswered
  refine ⟨?_, ?_, ?_⟩
  · rw [hrest]
    exact (List.nodup_cons.1 hnodup).2
  · rw [hrest, hrequests]
    exact fun t ht => hasked t (List.mem_cons_of_mem _ ht)
  · rw [hrest, hrequests]
    intro t ht
    have hne : t ≠ ticket := by
      rintro rfl
      rcases ht with ht | ht
      · exact (List.nodup_cons.1 hnodup).1 ht
      · exact Nat.not_lt_of_le ht (hasked t List.mem_cons_self)
    rw [grant?_of_answer hgrants, if_neg hne]
    exact hunanswered t (ht.imp_left (List.mem_cons_of_mem _))

/-- Who was asking and is not answered has no seat. -/
theorem Queued.seats_eq_nil (h : m.Queued) {tickets : List Nat}
    (hsub : ∀ t ∈ tickets, t ∈ m.asking) (hsame : ∀ t ∈ tickets, m'.grant? t = m.grant? t) :
    m'.seats tickets = [] := by
  refine List.filterMap_eq_nil_iff.2 fun t ht => ?_
  rw [hsame t ht, h.unanswered t (Or.inl (hsub t ht)), Option.bind_none]

/-- An answer seats at most the one who is answered. -/
theorem Queued.seats_of_answer (h : m.Queued) (hasking : m.asking = ticket :: rest)
    (hgrants : m'.grants = m.grants.insert ticket g) : m'.seats m.asking = g.seat?.toList := by
  have hself : m'.grant? ticket = some g := by rw [grant?_of_answer hgrants, if_pos rfl]
  have hrest : m'.seats rest = [] := by
    refine h.seats_eq_nil (fun t ht => hasking ▸ List.mem_cons_of_mem _ ht) fun t ht => ?_
    have hnodup := h.nodup
    rw [hasking, List.nodup_cons] at hnodup
    rw [grant?_of_answer hgrants, if_neg (fun heq : t = ticket => hnodup.1 (heq ▸ ht))]
  unfold seats at hrest ⊢
  rw [hasking, List.filterMap_cons, hself, hrest]
  cases g with
  | _ => rfl

theorem Queued.seats_of_seated (h : m.Queued) (hasking : m.asking = ticket :: rest) {s : Seat}
    (hgrants : m'.grants = m.grants.insert ticket (.seated s)) : m'.seats m.asking = [s] :=
  h.seats_of_answer hasking hgrants

theorem Queued.seats_of_unseated (h : m.Queued) (hasking : m.asking = ticket :: rest)
    (hgrants : m'.grants = m.grants.insert ticket g) (hunseated : ∀ s, g ≠ .seated s) :
    m'.seats m.asking = [] := by
  rw [h.seats_of_answer hasking hgrants]
  cases g with
  | seated s => exact absurd rfl (hunseated s)
  | _ => rfl

end Answer

/-! ## The ingestors -/

/-- Every line has its ingestor, and no ingestor stops for good while it is wanted. -/
structure Fit (m : Market) : Prop where
  paired : m.Paired
  ended : ∀ w ∈ m.intake.ingestors, w.state = .terminated → w.isUnwanted = true

theorem Fit.of_same (h : m.Fit) (hlines : m'.lines.length = m.lines.length)
    (hingestors : m'.intake.ingestors = m.intake.ingestors) : m'.Fit := by
  refine ⟨?_, ?_⟩
  · rw [Paired, hlines, hingestors]
    exact h.paired
  · rw [hingestors]
    exact h.ended

theorem Fit.of_set (h : m.Fit) (hlines : m'.lines.length = m.lines.length)
    (hingestors : m'.intake.ingestors = m.intake.ingestors.set i w)
    (hw : w.state = .terminated → w.isUnwanted = true) : m'.Fit := by
  refine ⟨?_, ?_⟩
  · rw [Paired, hlines, hingestors, List.length_set]
    exact h.paired
  · rw [hingestors]
    intro v hv
    rcases List.mem_or_eq_of_mem_set hv with hold | rfl
    · exact h.ended v hold
    · exact hw

theorem Fit.of_concat (h : m.Fit) (hlines : m'.lines.length = m.lines.length + 1)
    (hingestors : m'.intake.ingestors = m.intake.ingestors ++ [w])
    (hw : w.state = .terminated → w.isUnwanted = true) : m'.Fit := by
  refine ⟨?_, ?_⟩
  · rw [Paired, hlines, hingestors, List.length_append, h.paired]
    rfl
  · rw [hingestors]
    intro v hv
    rcases List.mem_append.1 hv with hold | hnew
    · exact h.ended v hold
    · rw [List.mem_singleton.1 hnew]
      exact hw

theorem Fit.changeBus (h : m.Fit) (i : Nat) (f : Bus → Bus) : (m.changeBus i f).Fit := by
  cases hl : m.lines[i]? with
  | none =>
      rw [changeBus_of_none hl]
      exact h
  | some l =>
      rcases h.paired.exists_ingestor hl with ⟨w, hw⟩
      rw [changeBus_eq hl]
      split
      · exact h.of_set (List.length_modify _ _ _)
          (congrArg Intake.ingestors (Chronicle.change_eq_set hw _)) (fun _ => Bool.true_or _)
      · exact h.of_same (List.length_modify _ _ _) rfl

theorem Fit.endDispatch (h : m.Fit) (hw : m.intake.ingestors[i]? = some w) :
    (m.endDispatch i).Fit :=
  h.of_set (List.length_modify _ _ _) (congrArg Intake.ingestors (Chronicle.change_eq_set hw _))
    (fun _ => Bool.or_true _)

/-- A turn of an ingestor leaves the standings alone. -/
theorem Fit.turnAt? (h : m.Fit) {branch : Ingestor.Branch} {intake : Intake}
    (hturn : m.intake.turnAt? i branch = some intake) :
    ({ m with intake } : Market).Fit ∧ ({ m with intake } : Market).standing? = m.standing? := by
  rcases Intake.turnAt?_eq_some hturn with ⟨w, e, moved, hw, hmoved, rfl⟩
  rcases Ingestor.turn?_eq_some hmoved with ⟨hstep, -, -, hown⟩
  rcases Ingestor.signals_of_step hstep hown with ⟨hstopped, hconsumed, hended⟩
  have hunwanted : moved.ingestor.isUnwanted = w.isUnwanted := by
    rw [Ingestor.isUnwanted, hstopped, hconsumed]
    rfl
  refine ⟨h.of_set rfl rfl fun hstate => ?_, ?_⟩
  · rw [hunwanted]
    exact (hended hstate).elim (h.ended w (List.mem_of_getElem? hw)) id
  · exact standing?_of_signals rfl rfl hw hstopped hconsumed

/-- So does taking a quote out of a buffer. -/
theorem Fit.taken (h : m.Fit) (hw : m.intake.ingestors[i]? = some w) (rest : List Quote) :
    (m.setIngestor i { w with output := rest }).Fit ∧
      (m.setIngestor i { w with output := rest }).standing? = m.standing? :=
  ⟨h.of_set rfl rfl (h.ended w (List.mem_of_getElem? hw)), standing?_of_signals rfl rfl hw rfl rfl⟩

/-- What the dispatch of a line takes too much is the first quote out of a buffer. -/
theorem spillAt?_eq_some (h : m.spillAt? i = some m') : ∃ l w q rest,
    m.lines[i]? = some l ∧ l.bus.closed = true ∧ m.intake.ingestors[i]? = some w ∧
      w.output = q :: rest ∧ m' = m.setIngestor i { w with output := rest } := by
  unfold spillAt? at h
  split at h
  · next l q intake hl hitem =>
    split at h
    · next hspilling =>
      rcases Chronicle.receive_eq_item hitem with ⟨w, rest, hw, houtput, rfl⟩
      rw [Bool.and_eq_true] at hspilling
      exact ⟨l, w, q, rest, hl, hspilling.2, hw, houtput, (Option.some.inj h).symm⟩
    · exact absurd h (by simp only [reduceCtorEq, not_false_eq_true])
  · exact absurd h (by simp only [reduceCtorEq, not_false_eq_true])

/-! ## What leaves the requests alone -/

/-- What is done to the lines and the intake, and not to the requests. -/
def SameDesk (m m' : Market) : Prop :=
  ∃ lines intake cache feeders, m' = { m with lines, intake, cache, feeders }

theorem SameDesk.trans {m'' : Market} (h : m.SameDesk m') (h' : m'.SameDesk m'') :
    m.SameDesk m'' := by
  rcases h with ⟨_, _, _, _, rfl⟩
  rcases h' with ⟨_, _, _, _, rfl⟩
  exact ⟨_, _, _, _, rfl⟩

theorem sameDesk_cache (m : Market) (cache : QuoteCache) (feeders : List Seat) :
    m.SameDesk { m with cache, feeders } := ⟨_, _, _, _, rfl⟩

theorem sameDesk_changeBus (m : Market) (i : Nat) (f : Bus → Bus) :
    m.SameDesk (m.changeBus i f) := by
  cases hl : m.lines[i]? with
  | none => exact ⟨_, _, _, _, changeBus_of_none hl f⟩
  | some l => exact ⟨_, _, _, _, changeBus_eq hl f⟩

theorem sameDesk_receive (m : Market) (s : Seat) : m.SameDesk (m.receive s).2 := by
  unfold receive
  split
  · exact ⟨_, _, _, _, rfl⟩
  · exact ⟨_, _, _, _, rfl⟩

theorem SameDesk.queued (h : m.SameDesk m') (hqueued : m.Queued) : m'.Queued := by
  rcases h with ⟨_, _, _, _, rfl⟩
  exact hqueued.of_same rfl rfl rfl

theorem SameDesk.outline_eq (h : m.SameDesk m') (held : List Seat) :
    m'.outline held = { m.outline held with lines := m'.standing? } := by
  rcases h with ⟨_, _, _, _, rfl⟩
  rfl

/-- What leaves the standings and the requests alone leaves the outline alone. -/
theorem SameDesk.outline_of_standing (h : m.SameDesk m') (hstanding : m'.standing? = m.standing?)
    (held : List Seat) : m'.outline held = m.outline held := by
  rw [h.outline_eq, hstanding]
  rfl

theorem SameDesk.stay (h : m.SameDesk m') (hstanding : m'.standing? = m.standing?)
    (held : List Seat) : Outline.Step (m.outline held) (m'.outline held) := by
  rw [h.outline_of_standing hstanding]
  exact .stay

/-- The cache takes the next quote of a subscription, or gives it up at the end. -/
theorem cases_of_feed? {s : Seat} (h : m.feed? s = some m') :
    (∃ q, (m.receive s).1 = .item q ∧ m' = { (m.receive s).2 with
      cache := (m.receive s).2.cache.update (m.receive s).2.now q }) ∨
    ((m.receive s).1 = .ended ∧ m' = (m.receive s).2.removeFeeder s) := by
  unfold feed? at h
  split at h
  · next q m₁ hitem =>
    rw [hitem]
    exact Or.inl ⟨q, rfl, (Option.some.inj h).symm⟩
  · next m₁ hended =>
    rw [hended]
    exact Or.inr ⟨rfl, (Option.some.inj h).symm⟩
  · exact absurd h (by simp only [reduceCtorEq, not_false_eq_true])

theorem Fit.receive (h : m.Fit) (s : Seat) : (m.receive s).2.Fit := by
  unfold Market.receive
  split
  · exact h
  · exact h.of_same List.length_set rfl

theorem Fit.leave (h : m.Fit) (s : Seat) : (m.leave s).Fit := h.changeBus s.line _

theorem sameDesk_leave (m : Market) (s : Seat) : m.SameDesk (m.leave s) :=
  sameDesk_changeBus m s.line _

/-! ## Steps of the outline -/

theorem step_leave (h : m.Fit) (s : Seat) (held : List Seat) :
    Outline.Step (m.outline held) ((m.leave s).outline (held.filter (fun t => t ≠ s))) := by
  have hstep := Outline.Step.leave (o := m.outline held) s.line s.id
  rw [(sameDesk_leave m s).outline_eq, standing?_leave h.paired s]
  exact hstep

/-- A step of the dispatch of a line stops it or leaves the standings alone. -/
theorem step_dispatchAt? (h : m.Fit) (hdispatch : m.dispatchAt? i = some m') (held : List Seat) :
    Outline.Step (m.outline held) (m'.outline held) ∧ m'.Fit ∧ m.SameDesk m' := by
  rcases cases_of_dispatchAt? h.paired hdispatch with
    ⟨l, w, hl, hw, ⟨hclosed, rfl⟩ | ⟨hopen, q, rest, houtput, rfl⟩ | ⟨hopen, hphase, rfl⟩⟩
  · have hdesk : m.SameDesk (m.endDispatch i) := ⟨_, _, _, _, rfl⟩
    refine ⟨?_, h.endDispatch hw, hdesk⟩
    rw [hdesk.outline_eq, standing?_endDispatch hl hw]
    exact .finish i _ (standing?_eq hl hw) hclosed
  · -- The quote goes out of the buffer of the ingestor and then to the bus.
    rcases h.taken hw rest with ⟨hfit, htaken⟩
    have hdesk : m.SameDesk ((m.setIngestor i { w with output := rest }).changeBus i
        (·.publish q)) :=
      SameDesk.trans ⟨_, _, _, _, rfl⟩ (sameDesk_changeBus _ i _)
    have hpublish := standing?_publish (m := m.setIngestor i { w with output := rest }) hl
      (List.getElem?_set_self (List.getElem?_eq_some_iff.1 hw).1) hopen q
    exact ⟨hdesk.stay (hpublish.trans htaken) held, hfit.changeBus i _, hdesk⟩
  · -- The quotes have ended, so the ingestor has stopped for good and was not wanted.
    have hdesk : m.SameDesk ((m.changeBus i (·.close)).endDispatch i) :=
      (sameDesk_changeBus m i _).trans ⟨_, _, _, _, rfl⟩
    have hw' : i < (m.changeBus i (·.close)).intake.ingestors.length := by
      have hlength : (m.changeBus i (·.close)).lines.length = m.lines.length := by
        rw [changeBus_eq hl]
        exact List.length_modify _ _ _
      rw [← (h.changeBus i _).paired, hlength]
      exact (List.getElem?_eq_some_iff.1 hl).1
    refine ⟨?_, (h.changeBus i _).endDispatch (List.getElem?_eq_getElem hw'), hdesk⟩
    have hunwanted := h.ended w (List.mem_of_getElem? hw) (by rw [Ingestor.state, hphase])
    rw [Ingestor.isUnwanted, Bool.or_eq_true, Bool.not_eq_true'] at hunwanted
    rw [hdesk.outline_eq, standing?_of_end hl hw]
    exact .starve i _ (standing?_eq hl hw) hunwanted

end Market

end Bourse
