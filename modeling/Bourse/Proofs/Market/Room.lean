import Bourse.Proofs.Market.Seating

/-!
# Room for Buffers

There are three kinds of buffers in a market: those of the connections of the feed, those
behind the ingestors, and those in front of subscribers. Each is asked for with a size, and
a size that nobody can make a buffer of breaks off whoever asks. A bus takes the size one in
place of zero; the other two take it as it is.

The sizes are settings and stay what they are. So where there is room for all three, no
request breaks off, whatever happens. And where there can be no buffer behind an ingestor,
there never is one: whoever asks first breaks off as soon as there is a connection, and so
does everybody after that.

## Main definitions

* `Market.Roomy`: there is room for every buffer that is asked for.
* `Market.Unbroken`: no request has broken off.
* `Market.Barren`: a market where nobody can get a subscription.

## Theorems

* `roomy_act?`: there stays room.
* `Session.Kept.unbroken_act?`: no request breaks off where there is room.
* `crashed_of_buffer`: a request breaks off where there can be no buffer behind an ingestor.
* `barren_act?`: nobody ever gets a subscription there.
-/

namespace Bourse

/-! ## Feeds -/

namespace StagedFeed

theorem buffer_connect (f : StagedFeed) : f.connect.2.buffer = f.buffer := by
  unfold connect
  simp only []
  split_ifs
  · rfl
  · rfl
  · rfl

theorem buffer_tend (f : StagedFeed) (t : Tending) : (f.tend t).buffer = f.buffer := by
  cases t with
  | accept =>
      rw [tend, accept]
      split
      · rfl
      · rfl
  | send c tick =>
      rw [tend, send]
      split
      · rfl
      · split_ifs
        · rfl
        · rfl
        · rfl
  | fail n =>
      rw [tend, fail]
      split
      · rfl
      · rfl
  | _ => rfl

theorem buffer_after (f : StagedFeed) (e : Ingestor.Event) : (f.after e).buffer = f.buffer := by
  unfold after
  split
  · rfl
  · rfl
  · rfl
  · rfl
  · exact buffer_connect f
  · exact buffer_connect f
  · rfl

end StagedFeed

theorem Intake.buffer_attempt (k : Intake) (fired : Bool) :
    (k.attempt fired).2.feed.buffer = k.feed.buffer := by
  have hconnect := k.feed.buffer_connect
  unfold attempt
  split
  · generalize k.feed.connect = connected at hconnect ⊢
    rcases connected with ⟨r, feed⟩
    cases r with
    | error e => exact hconnect
    | ok c =>
        simp only []
        split
        · exact hconnect
        · exact hconnect
  · rfl

namespace Market

variable {m m' : Market} {a : Action}

/-- There is room for every buffer that is asked for. -/
structure Roomy (m : Market) : Prop where
  feed : isBufferSize m.intake.feed.buffer = true
  intake : isBufferSize m.intake.settings.buffer = true
  lines : isBufferSize (max m.capacity 1) = true

/-- The room of a market is that of another. -/
structure SameRoom (m m' : Market) : Prop where
  feed : m'.intake.feed.buffer = m.intake.feed.buffer
  capacity : m'.capacity = m.capacity

theorem sameRoom_changeBus (m : Market) (i : Nat) (f : Bus → Bus) :
    m.SameRoom (m.changeBus i f) := by
  refine ⟨?_, ?_⟩
  · unfold changeBus
    simp only []
    split
    · rfl
    · rfl
  · rcases sameDesk_changeBus m i f with ⟨_, _, _, _, hdesk⟩
    rw [hdesk]

theorem SameRoom.trans {m'' : Market} (h : m.SameRoom m') (h' : m'.SameRoom m'') :
    m.SameRoom m'' :=
  ⟨h'.feed.trans h.feed, h'.capacity.trans h.capacity⟩

theorem Change.sameRoom (h : m.Change m') : m.SameRoom m' := by
  cases h with
  | bus i f => exact sameRoom_changeBus m i f
  | read s =>
      unfold receive
      split
      · exact ⟨rfl, rfl⟩
      · exact ⟨rfl, rfl⟩
  | tended t => exact ⟨m.intake.feed.buffer_tend t, rfl⟩
  | used e => exact ⟨m.intake.feed.buffer_after e, rfl⟩
  | _ => exact ⟨rfl, rfl⟩

/-- The sizes of buffers stay what they are, whatever happens. -/
theorem sameRoom_act? (hpaired : m.Paired) (hact : m.act? a = some m') : m.SameRoom m' := by
  cases a with
  | request =>
      cases Option.some.inj hact
      exact ⟨rfl, rfl⟩
  | nextTurn =>
      rcases turn_of_nextTurn? hact with ⟨ticket, rest, hattempt, hwaiting⟩
      refine ⟨by rw [intake_of_nextTurn? hact], ?_⟩
      cases hactive : m.isActive with
      | true =>
          rcases exists_of_isActive hactive with ⟨i, l, hcurrent, hl, hopen⟩
          rcases nextTurn?_of_active hattempt hwaiting hcurrent hl hopen with ⟨bus, -, hturn⟩
          cases Option.some.inj (hturn.symm.trans hact)
          rfl
      | false =>
          -- There are no symbols, or an attempt to open a line begins.
          rw [act?, nextTurn?_of_inactive hattempt hwaiting hactive] at hact
          split at hact
          · cases Option.some.inj hact
            rfl
          · cases Option.some.inj hact
            rfl
  | endAttempt =>
      rcases attempt_of_endAttempt? hact with ⟨a, hattempt, hline, hdue⟩
      have hbuffer := m.intake.buffer_attempt false
      rcases Chronicle.cases_of_attempt m.intake false with
        ⟨-, hopened⟩ | ⟨r, feed, hrefused, hnot, -⟩
      · rw [hopened] at hbuffer
        rw [act?, endAttempt?_of_opened hpaired hattempt hline hdue hopened] at hact
        cases Option.some.inj hact
        exact ⟨hbuffer, rfl⟩
      · rw [hrefused] at hbuffer
        rcases endAttempt?_of_refused hattempt hline hdue hrefused hnot with ⟨g, -, -, heq⟩
        cases Option.some.inj (heq.symm.trans hact)
        exact ⟨hbuffer, rfl⟩
  | takeSeat =>
      rcases cases_of_takeSeat? hact with ⟨a, i, -, -, ⟨l, bus, -, -, rfl⟩ | rfl | ⟨e, rfl⟩⟩
      · exact ⟨rfl, rfl⟩
      · exact ⟨rfl, rfl⟩
      · exact ⟨rfl, rfl⟩
  | _ =>
      exact keeps_act? hpaired rfl Action.noConfusion hact ⟨rfl, rfl⟩
        (fun _ _ hn hchange => hn.trans hchange.sameRoom)

/-- Where there is room, there stays room. -/
theorem roomy_act? (h : m.Roomy) (hpaired : m.Paired) (hact : m.act? a = some m') : m'.Roomy := by
  have hroom := sameRoom_act? hpaired hact
  have hsettings := (moves_act? hpaired hact).settings
  refine ⟨?_, ?_, ?_⟩
  · rw [hroom.feed]
    exact h.feed
  · rw [hsettings]
    exact h.intake
  · rw [hroom.capacity]
    exact h.lines

/-- No request has broken off. -/
def Unbroken (m : Market) : Prop := ∀ ticket, m.grant? ticket ≠ some .crashed

theorem Unbroken.answer {ticket : Nat} {g : Grant} (h : m.Unbroken)
    (hgrants : m'.grants = m.grants.insert ticket g) (hg : g ≠ .crashed) : m'.Unbroken := by
  intro t hcrashed
  rw [grant?_of_answer hgrants] at hcrashed
  split at hcrashed
  · exact hg (Option.some.inj hcrashed)
  · exact h t hcrashed

end Market

namespace Session

open Market (Action)

variable {x : Session} {m : Market} {a : Action}

/-- A turn seats a request on the open line, where others have been seated before, or answers it
without a seat. -/
theorem Kept.unbroken_nextTurn? (h : x.Kept) (hunbroken : x.market.Unbroken)
    (hturn : x.market.nextTurn? = some m) : m.Unbroken := by
  rcases Market.turn_of_nextTurn? hturn with ⟨ticket, rest, hattempt, hwaiting⟩
  rcases h.sound with ⟨i, standing, hopen⟩ | hshut
  · rcases Market.step_of_active h.fit h.queued hattempt hwaiting hopen with ⟨lines, heq, -⟩
    cases Option.some.inj (heq.symm.trans hturn)
    exact hunbroken.answer rfl Grant.noConfusion
  · have hidle : x.market.isActive = false :=
      (Market.isActive_eq h.fit.paired x.held).trans hshut.active
    rw [Market.nextTurn?_of_inactive hattempt hwaiting hidle] at hturn
    split at hturn
    · cases Option.some.inj hturn
      exact hunbroken.answer rfl Grant.noConfusion
    · cases Option.some.inj hturn
      exact hunbroken

/-- An attempt opens a line or fails. -/
theorem Kept.unbroken_endAttempt? (h : x.Kept) (hroom : x.market.Roomy)
    (hunbroken : x.market.Unbroken) (hend : x.market.endAttempt? = some m) : m.Unbroken := by
  rcases Market.attempt_of_endAttempt? hend with ⟨a, hattempt, hline, hdue⟩
  cases hconnect : x.market.intake.feed.connect.1 with
  | ok c =>
      have hopened := Market.attempt_of_ok hconnect hroom.feed hroom.intake false
      rw [Market.endAttempt?_of_opened h.fit.paired hattempt hline hdue hopened] at hend
      cases Option.some.inj hend
      exact hunbroken
  | error e =>
      have hfailed := Market.attempt_of_error hconnect hroom.feed false
      rcases Market.endAttempt?_of_refused hattempt hline hdue hfailed
        (fun _ => Opening.noConfusion) with ⟨g, -, hg, heq⟩
      cases Option.some.inj (heq.symm.trans hend)
      exact hunbroken.answer rfl (by rw [hg e rfl]; exact Grant.noConfusion)

/-- There is room for the first subscriber of a line. -/
theorem Kept.unbroken_takeSeat? (h : x.Kept) (hroom : x.market.Roomy)
    (hunbroken : x.market.Unbroken) (hseat : x.market.takeSeat? = some m) : m.Unbroken := by
  rcases Market.cases_of_takeSeat? hseat with ⟨a, i, hattempt, hline, -⟩
  rcases Market.takeSeat?_of_sound h.sound hattempt hline with ⟨l, w, bus, -, -, -, -, heq⟩
  rw [heq, if_pos hroom.lines] at hseat
  cases Option.some.inj hseat
  exact hunbroken.answer rfl Grant.noConfusion

/-- No request breaks off where there is room, whatever happens. -/
theorem Kept.unbroken_act? (h : x.Kept) (hroom : x.market.Roomy) (hunbroken : x.market.Unbroken)
    (hact : x.market.act? a = some m) : m.Unbroken := by
  cases a with
  | nextTurn => exact h.unbroken_nextTurn? hunbroken hact
  | endAttempt => exact h.unbroken_endAttempt? hroom hunbroken hact
  | takeSeat => exact h.unbroken_takeSeat? hroom hunbroken hact
  | _ =>
      intro ticket
      rw [Market.grant?, Market.grants_act? h.fit.paired rfl hact]
      exact hunbroken ticket

end Session

/-! ## Without a buffer -/

/-- Where there can be no buffer behind an ingestor, there is no ingestor. -/
theorem Intake.attempt_ne_opened {k : Intake} (h : isBufferSize k.settings.buffer = false)
    (fired : Bool) (i : Nat) : (k.attempt fired).1 ≠ .opened i := by
  unfold attempt
  split
  · split
    · exact Opening.noConfusion
    · rw [h]
      exact Opening.noConfusion
  · exact Opening.noConfusion

namespace Market

variable {m m' : Market} {a : Action}

/-- A request breaks off as soon as there is a connection. -/
theorem crashed_of_buffer {opening : LineAttempt} {c : Nat} (hattempt : m.attempt = some opening)
    (hconnect : m.intake.feed.connect.1 = .ok c)
    (hbuffer : isBufferSize m.intake.settings.buffer = false) (hend : m.endAttempt? = some m') :
    m'.grant? opening.ticket = some .crashed := by
  rcases attempt_of_endAttempt? hend with ⟨opening', hattempt', hline, hdue⟩
  cases Option.some.inj (hattempt.symm.trans hattempt')
  have hcrashed : (m.intake.attempt false).1 = .crashed := by
    unfold Intake.attempt
    split
    · split
      · next heq =>
        rw [heq] at hconnect
        cases hconnect
      · rw [hbuffer]
        rfl
    · rfl
  rw [endAttempt?_eq hattempt hline hdue] at hend
  rcases hr : m.intake.attempt false with ⟨r, intake⟩
  rw [hr] at hcrashed hend
  cases hcrashed
  cases Option.some.inj hend
  rw [grant?_of_answer rfl, if_pos rfl]

/-- A market where nobody has got a subscription and nobody can. -/
structure Barren (m : Market) : Prop where
  buffer : isBufferSize m.intake.settings.buffer = false
  ingestors : m.intake.ingestors = []
  unseated : ∀ ticket s, m.grant? ticket ≠ some (.seated s)

theorem Barren.lines (h : m.Barren) (hpaired : m.Paired) : m.lines = [] := by
  rw [← List.length_eq_zero_iff, hpaired, h.ingestors, List.length_nil]

theorem Barren.isActive (h : m.Barren) (hpaired : m.Paired) : m.isActive = false := by
  cases hactive : m.isActive with
  | false => rfl
  | true =>
      rcases exists_of_isActive hactive with ⟨i, l, -, hl, -⟩
      rw [h.lines hpaired] at hl
      exact absurd hl.symm (Option.some_ne_none _)

/-- An answer that is no subscription. -/
theorem Barren.answer {ticket : Nat} {g : Grant} (h : m.Barren)
    (hgrants : m'.grants = m.grants.insert ticket g) (hg : ∀ s, g ≠ .seated s) (t : Nat) (s : Seat) :
    m'.grant? t ≠ some (.seated s) := by
  rw [grant?_of_answer hgrants]
  split
  · exact fun hseated => hg s (Option.some.inj hseated)
  · exact h.unseated t s

/-- Nobody ever gets a subscription there. -/
theorem barren_act? (h : m.Barren) (hfit : m.Fit) (hact : m.act? a = some m') : m'.Barren := by
  have hbuffer : isBufferSize m'.intake.settings.buffer = false := by
    rw [(moves_act? hfit.paired hact).settings]
    exact h.buffer
  by_cases hend : a = .endAttempt
  · subst hend
    rcases attempt_of_endAttempt? hact with ⟨opening, hattempt, hline, hdue⟩
    rcases Chronicle.cases_of_attempt m.intake false with ⟨-, hopened⟩ | ⟨r, feed, hrefused, hnot, -⟩
    · exact absurd (congrArg Prod.fst hopened) (Intake.attempt_ne_opened h.buffer false _)
    · rcases endAttempt?_of_refused hattempt hline hdue hrefused hnot with ⟨g, hg, -, heq⟩
      cases Option.some.inj (heq.symm.trans hact)
      exact ⟨hbuffer, h.ingestors, h.answer rfl hg⟩
  · have hingestors : m'.intake.ingestors = [] := by
      rw [← List.length_eq_zero_iff, length_act? hfit hend hact, h.ingestors, List.length_nil]
    refine ⟨hbuffer, hingestors, fun ticket s => ?_⟩
    cases a with
    | endAttempt => exact absurd rfl hend
    | nextTurn =>
        rcases turn_of_nextTurn? hact with ⟨t, rest, hattempt, hwaiting⟩
        rw [act?, nextTurn?_of_inactive hattempt hwaiting (h.isActive hfit.paired)] at hact
        split at hact
        · cases Option.some.inj hact
          exact h.answer rfl (fun _ => Grant.noConfusion) ticket s
        · cases Option.some.inj hact
          exact h.unseated ticket s
    | takeSeat =>
        -- There is no line to be seated on.
        rcases cases_of_takeSeat? hact with ⟨a, i, -, -, ⟨l, bus, hl, -, -⟩ | rfl | ⟨e, rfl⟩⟩
        · rw [h.lines hfit.paired] at hl
          exact absurd hl.symm (Option.some_ne_none l)
        · exact h.answer rfl (fun _ => Grant.noConfusion) ticket s
        · exact h.answer rfl (fun _ => Grant.noConfusion) ticket s
    | _ =>
        rw [grant?, grants_act? hfit.paired rfl hact]
        exact h.unseated ticket s

end Market

end Bourse
