import Bourse.Proofs.Market.Supply

/-!
# The Seats of a Market

The second half of the way of a quote: from the bus of a line into the buffer of a
subscription, and from there into the cache. A subscription that is neither left nor
read by anybody else changes in two ways only. Its line publishes a quote, which comes
last unless the buffer is full; or the cache takes the first.

## Main definitions

* `Market.ChangesBus`: what changes one bus.
* `Market.Grows`: what can become of the lines.
* `Market.subscription?`: the subscription of a seat.
* `Market.Action.isAside`, `isCaching`: what something is about.

## Theorems

* `grows_act?`, `buses_act?`: lines are only altered or opened, and buses stay sound.
* `subscription?_dispatch`, `subscription?_feed`, `subscription?_act?`: a subscription
  after something has happened.
* `cache_act?`, `grants_act?`, `requests_act?`: what stays as it is.
-/

namespace Bourse

namespace Market

variable {m m' : Market} {i : Nat} {a : Action}

/-! ## The buses -/

/-- The lines of a market are those of another with one bus changed. -/
def ChangesBus (m m' : Market) (i : Nat) (f : Bus → Bus) : Prop :=
  m'.lines = m.lines.modify i (fun l => { l with bus := f l.bus })

theorem changesBus_changeBus (m : Market) (i : Nat) (f : Bus → Bus) :
    m.ChangesBus (m.changeBus i f) i f := by
  unfold changeBus
  simp only []
  split
  · rfl
  · rfl

theorem changesBus_leave (m : Market) (s : Seat) : m.ChangesBus (m.leave s) s.line (·.drop s.id) :=
  changesBus_changeBus m s.line _

theorem changesBus_removeFeeder (m : Market) (s : Seat) :
    m.ChangesBus (m.removeFeeder s) s.line (·.drop s.id) :=
  changesBus_changeBus { m with feeders := m.feeders.filter (· ≠ s) } s.line _

theorem changesBus_receive (m : Market) (s : Seat) :
    m.ChangesBus (m.receive s).2 s.line (fun b => (b.receive s.id).2) := by
  unfold ChangesBus receive
  split
  · next hl => exact (List.modify_eq_self (List.getElem?_eq_none_iff.1 hl)).symm
  · next l hl =>
    rw [List.modify_eq_set_getElem?, hl]
    rfl

/-- The turn of a request lets somebody join a bus, or leaves all of them alone. -/
theorem lines_of_nextTurn? (h : m.nextTurn? = some m') : m'.lines = m.lines ∨
    ∃ i l bus id, m.lines[i]? = some l ∧ l.bus.subscribe = some (id, bus) ∧
      m.ChangesBus m' i (fun _ => bus) := by
  rcases turn_of_nextTurn? h with ⟨ticket, rest, hattempt, hwaiting⟩
  cases hactive : m.isActive with
  | true =>
      rcases exists_of_isActive hactive with ⟨i, l, hcurrent, hl, hopen⟩
      rcases nextTurn?_of_active hattempt hwaiting hcurrent hl hopen with ⟨bus, hsubscribe, hturn⟩
      cases Option.some.inj (hturn.symm.trans h)
      exact Or.inr ⟨i, l, bus, _, hl, hsubscribe, rfl⟩
  | false =>
      rw [nextTurn?_of_inactive hattempt hwaiting hactive] at h
      split at h
      · cases Option.some.inj h
        exact Or.inl rfl
      · cases Option.some.inj h
        exact Or.inl rfl

/-- The end of an attempt leaves the buses alone, but for a new one. -/
theorem lines_of_endAttempt? (hpaired : m.Paired) (h : m.endAttempt? = some m') :
    m'.lines = m.lines ∨ m'.lines = m.lines ++ [⟨.create m.capacity, true⟩] := by
  rcases attempt_of_endAttempt? h with ⟨a, hattempt, hline, hdue⟩
  rcases Chronicle.cases_of_attempt m.intake false with
    ⟨-, hopened⟩ | ⟨r, feed, hrefused, hnot, -⟩
  · rw [endAttempt?_of_opened hpaired hattempt hline hdue hopened] at h
    cases Option.some.inj h
    exact Or.inr rfl
  · rcases endAttempt?_of_refused hattempt hline hdue hrefused hnot with ⟨g, -, -, heq⟩
    rw [heq] at h
    cases Option.some.inj h
    exact Or.inl rfl

/-- No line is taken away. The buses of those there are alter, and that of a new one is sound. -/
structure Grows (m m' : Market) : Prop where
  altered : ∀ (i : Nat) (l : Line), m.lines[i]? = some l →
    ∃ l' : Line, m'.lines[i]? = some l' ∧ l.bus.Altered l'.bus
  new : ∀ (i : Nat) (l' : Line), m.lines[i]? = none → m'.lines[i]? = some l' → l'.bus.Sound

theorem grows_of_lines (h : m'.lines = m.lines) : m.Grows m' := by
  refine ⟨fun i l hl => ⟨l, h.symm ▸ hl, .same l.bus⟩, fun i l' hnone hl' => ?_⟩
  rw [h] at hl'
  exact absurd (hnone.symm.trans hl') (Option.some_ne_none l').symm

theorem Grows.trans {m'' : Market} (h : m.Grows m') (h' : m'.Grows m'') : m.Grows m'' := by
  refine ⟨fun i l hl => ?_, fun i l'' hnone hl'' => ?_⟩
  · rcases h.altered i l hl with ⟨l', hl', halter⟩
    rcases h'.altered i l' hl' with ⟨l'', hl'', halter'⟩
    exact ⟨l'', hl'', halter.trans halter'⟩
  · cases hl' : m'.lines[i]? with
    | none => exact h'.new i l'' hl' hl''
    | some l' =>
        rcases h'.altered i l' hl' with ⟨k, hk, halter⟩
        cases Option.some.inj (hk.symm.trans hl'')
        exact Bus.sound_of_altered (h.new i l' hnone hl') halter

/-- Sound buses stay sound. -/
theorem Grows.buses (hgrows : m.Grows m') (h : ∀ l ∈ m.lines, l.bus.Sound) :
    ∀ l ∈ m'.lines, l.bus.Sound := by
  intro l' hl'
  rcases List.mem_iff_getElem?.1 hl' with ⟨i, hi⟩
  cases hl : m.lines[i]? with
  | none => exact hgrows.new i l' hl hi
  | some l =>
      rcases hgrows.altered i l hl with ⟨k, hk, halter⟩
      cases Option.some.inj (hk.symm.trans hi)
      exact Bus.sound_of_altered (h l (List.mem_of_getElem? hl)) halter

theorem ChangesBus.grows {f : Bus → Bus} (hlines : m.ChangesBus m' i f)
    (hf : ∀ l, m.lines[i]? = some l → l.bus.Altered (f l.bus)) : m.Grows m' := by
  refine ⟨fun j l hl => ?_, fun j l' hnone hl' => ?_⟩
  · rw [hlines, List.getElem?_modify, hl]
    refine ⟨_, rfl, ?_⟩
    split
    · next hi => exact hf l (hi ▸ hl)
    · exact .same l.bus
  · rw [hlines, List.getElem?_modify, hnone] at hl'
    exact absurd hl'.symm (Option.some_ne_none l')

/-- The end of a dispatch leaves the buses alone. -/
theorem grows_endDispatch (m : Market) (i : Nat) : m.Grows (m.endDispatch i) := by
  refine ⟨fun j l hl => ?_, fun j l' hnone hl' => ?_⟩
  · simp only [endDispatch, List.getElem?_modify, hl]
    refine ⟨_, rfl, ?_⟩
    split
    · exact .same l.bus
    · exact .same l.bus
  · simp only [endDispatch, List.getElem?_modify, hnone] at hl'
    exact absurd hl'.symm (Option.some_ne_none l')

/-- The first subscriber of a line joins its bus, or all buses are left alone. -/
theorem grows_takeSeat? (h : m.takeSeat? = some m') : m.Grows m' := by
  rcases cases_of_takeSeat? h with ⟨a, i, -, -, ⟨l, bus, hl, hsubscribe, rfl⟩ | rfl | ⟨e, rfl⟩⟩
  · refine ChangesBus.grows (i := i) (f := fun _ => bus) rfl (fun l' hl' => ?_)
    cases Option.some.inj (hl.symm.trans hl')
    exact Bus.altered_subscribe hsubscribe
  · have hended : m.Grows (m.endDispatch i) := grows_endDispatch m i
    exact hended.trans (grows_of_lines rfl)
  · exact grows_of_lines rfl

/-- Whatever happens, lines are only altered or opened. -/
theorem grows_act? (hpaired : m.Paired) (hact : m.act? a = some m') : m.Grows m' := by
  cases a with
  | nextTurn =>
      rcases lines_of_nextTurn? hact with hsame | ⟨i, l, bus, id, hl, hsubscribe, hlines⟩
      · exact grows_of_lines hsame
      · refine hlines.grows (fun l' hl' => ?_)
        cases Option.some.inj (hl.symm.trans hl')
        exact Bus.altered_subscribe hsubscribe
  | endAttempt =>
      rcases lines_of_endAttempt? hpaired hact with hsame | hlines
      · exact grows_of_lines hsame
      · refine ⟨fun i l' hl' => ⟨l', ?_, .same l'.bus⟩, fun i l' hnone hl' => ?_⟩
        · rw [hlines, List.getElem?_append_left (List.getElem?_eq_some_iff.1 hl').1]
          exact hl'
        · rw [hlines, List.getElem?_append_right (List.getElem?_eq_none_iff.1 hnone)] at hl'
          rw [List.mem_singleton.1 (List.mem_of_getElem? hl')]
          exact Bus.sound_create m.capacity
  | takeSeat => exact grows_takeSeat? hact
  | leave s =>
      cases Option.some.inj hact
      exact (changesBus_leave m s).grows (fun l _ => Bus.altered_drop l.bus s.id)
  | receive s =>
      cases Option.some.inj hact
      exact (changesBus_receive m s).grows (fun l _ => Bus.altered_receive l.bus s.id)
  | feed s =>
      simp only [act?] at hact
      split at hact
      · have hread : m.Grows (m.receive s).2 :=
          (changesBus_receive m s).grows (fun l _ => Bus.altered_receive l.bus s.id)
        rcases cases_of_feed? hact with ⟨q, -, rfl⟩ | ⟨-, rfl⟩
        · exact hread.trans (grows_of_lines rfl)
        · exact hread.trans ((changesBus_removeFeeder _ s).grows
            (fun l _ => Bus.altered_drop l.bus s.id))
      · exact absurd hact (by simp only [reduceCtorEq, not_false_eq_true])
  | dispatch i =>
      rcases cases_of_dispatchAt? hpaired hact with
        ⟨l, w, -, -, ⟨-, rfl⟩ | ⟨-, q, rest, -, rfl⟩ | ⟨-, -, rfl⟩⟩
      · exact grows_endDispatch m i
      · have htaken : m.Grows (m.setIngestor i { w with output := rest }) := grows_of_lines rfl
        exact htaken.trans
          ((changesBus_changeBus _ i _).grows (fun l _ => Bus.altered_publish l.bus q))
      · exact ((changesBus_changeBus m i _).grows (fun l _ => Bus.altered_close l.bus)).trans
          (grows_endDispatch _ i)
  | spill i =>
      rcases spillAt?_eq_some hact with ⟨-, w, -, rest, -, -, -, -, rfl⟩
      exact grows_of_lines rfl
  | turn i branch =>
      rcases Option.map_eq_some_iff.1 hact with ⟨intake, -, rfl⟩
      exact grows_of_lines rfl
  | _ =>
      cases Option.some.inj hact
      exact grows_of_lines rfl

/-- Whatever happens, buses stay sound. -/
theorem buses_act? (hpaired : m.Paired) (h : ∀ l ∈ m.lines, l.bus.Sound)
    (hact : m.act? a = some m') : ∀ l ∈ m'.lines, l.bus.Sound :=
  (grows_act? hpaired hact).buses h

/-! ## One subscription -/

/-- The subscription of a seat. -/
def subscription? (m : Market) (s : Seat) : Option Subscription :=
  (m.lines[s.line]?).bind (·.bus.find? s.id)

/-- Whether something is not about a subscription: neither its holder nor its line does anything. -/
def Action.isAside (s : Seat) : Action → Bool
  | leave t | receive t | feed t => t ≠ s
  | dispatch i => i ≠ s.line
  | _ => true

variable {s : Seat} {u : Subscription}

theorem subscription?_eq_some (h : m.subscription? s = some u) :
    ∃ l, m.lines[s.line]? = some l ∧ l.bus.find? s.id = some u :=
  Option.bind_eq_some_iff.1 h

/-- A subscription after a bus has changed: only on the same line does this make a difference. -/
theorem ChangesBus.subscription? {f : Bus → Bus} {u' : Subscription}
    (hlines : m.ChangesBus m' i f) (h : m.subscription? s = some u)
    (hf : ∀ l : Line, m.lines[i]? = some l → i = s.line → l.bus.find? s.id = some u →
      (f l.bus).find? s.id = some u') (hne : i ≠ s.line → u' = u) :
    m'.subscription? s = some u' := by
  rcases subscription?_eq_some h with ⟨l, hl, hu⟩
  rw [Market.subscription?, hlines, List.getElem?_modify, hl]
  by_cases hi : i = s.line
  · simp only [hi, if_true, Option.map_eq_map, Option.map_some, Option.bind_some]
    exact hf l (hi ▸ hl) hi hu
  · simp only [hi, if_false, Option.map_eq_map, Option.map_some, Option.bind_some]
    rw [hne hi]
    exact hu

theorem subscription?_endDispatch (m : Market) (i : Nat) (s : Seat) :
    (m.endDispatch i).subscription? s = m.subscription? s := by
  simp only [subscription?, endDispatch, List.getElem?_modify]
  cases m.lines[s.line]? with
  | none => rfl
  | some l =>
      simp only [Option.map_eq_map, Option.map_some, Option.bind_some]
      split
      · rfl
      · rfl

/-- A subscription is left alone by everything that is not about it. -/
theorem subscription?_act? (hpaired : m.Paired) (hbuses : ∀ l ∈ m.lines, l.bus.Sound)
    (h : m.subscription? s = some u) (haside : a.isAside s = true) (hact : m.act? a = some m') :
    m'.subscription? s = some u := by
  have hsound : ∀ {j : Nat} {l : Line}, m.lines[j]? = some l → l.bus.Sound :=
    fun hl => hbuses _ (List.mem_of_getElem? hl)
  -- Seats of one line that are different have different numbers.
  have hid : ∀ {t : Seat}, t ≠ s → t.line = s.line → t.id ≠ s.id := by
    intro t hne hline hid
    refine hne ?_
    cases t
    cases s
    cases hline
    cases hid
    rfl
  have hread : ∀ t, t ≠ s → (m.receive t).2.subscription? s = some u := by
    intro t hne
    refine (changesBus_receive m t).subscription? h (fun l hl hline hu => ?_) (fun _ => rfl)
    rw [Bus.find?_receive hu, if_neg (hid hne hline)]
  cases a with
  | nextTurn =>
      rcases lines_of_nextTurn? hact with hsame | ⟨i, l, bus, id, hl, hsubscribe, hlines⟩
      · rw [subscription?, hsame]
        exact h
      · refine hlines.subscription? h (fun l' hl' _ hu => ?_) (fun _ => rfl)
        cases Option.some.inj (hl.symm.trans hl')
        exact Bus.find?_subscribe hu hsubscribe
  | endAttempt =>
      rcases lines_of_endAttempt? hpaired hact with hsame | hlines
      · rw [subscription?, hsame]
        exact h
      · rcases subscription?_eq_some h with ⟨l', hl', hu⟩
        rw [subscription?, hlines,
          List.getElem?_append_left (List.getElem?_eq_some_iff.1 hl').1, hl']
        exact hu
  | takeSeat =>
      rcases cases_of_takeSeat? hact with ⟨a, i, -, -, ⟨l, bus, hl, hsubscribe, rfl⟩ | rfl | ⟨e, rfl⟩⟩
      · refine ChangesBus.subscription? (i := i) (f := fun _ => bus) rfl h (fun l' hl' _ hu => ?_)
          (fun _ => rfl)
        cases Option.some.inj (hl.symm.trans hl')
        exact Bus.find?_subscribe hu hsubscribe
      · exact (subscription?_endDispatch m i s).trans h
      · exact h
  | leave t =>
      cases Option.some.inj hact
      have hne : t ≠ s := of_decide_eq_true haside
      exact (changesBus_leave m t).subscription? h
        (fun l hl hline hu => Bus.find?_drop (hsound hl) hu (hid hne hline)) (fun _ => rfl)
  | receive t =>
      cases Option.some.inj hact
      exact hread t (of_decide_eq_true haside)
  | feed t =>
      have hne : t ≠ s := of_decide_eq_true haside
      simp only [act?] at hact
      split at hact
      · rcases cases_of_feed? hact with ⟨q, -, rfl⟩ | ⟨-, rfl⟩
        · exact hread t hne
        · have hsound' := ((changesBus_receive m t).grows
            (fun l _ => Bus.altered_receive l.bus t.id)).buses hbuses
          exact (changesBus_removeFeeder _ t).subscription? (hread t hne)
            (fun l hl hline hu => Bus.find?_drop (hsound' l (List.mem_of_getElem? hl)) hu
              (hid hne hline)) (fun _ => rfl)
      · exact absurd hact (by simp only [reduceCtorEq, not_false_eq_true])
  | dispatch i =>
      have hne : i ≠ s.line := of_decide_eq_true haside
      have hother : ∀ {n : Market} {f : Bus → Bus}, n.lines = m.lines →
          (n.changeBus i f).subscription? s = some u := by
        intro n f hn
        refine (changesBus_changeBus n i f).subscription? (u := u) ?_
          (fun _ _ hi => absurd hi hne) (fun _ => rfl)
        rw [subscription?, hn]
        exact h
      rcases cases_of_dispatchAt? hpaired hact with
        ⟨l, w, -, -, ⟨-, rfl⟩ | ⟨-, q, rest, -, rfl⟩ | ⟨-, -, rfl⟩⟩
      · rw [subscription?_endDispatch]
        exact h
      · exact hother rfl
      · rw [subscription?_endDispatch]
        exact hother rfl
  | spill i =>
      rcases spillAt?_eq_some hact with ⟨-, w, -, rest, -, -, -, -, rfl⟩
      exact h
  | turn i branch =>
      rcases Option.map_eq_some_iff.1 hact with ⟨intake, -, rfl⟩
      exact h
  | _ =>
      cases Option.some.inj hact
      exact h

/-- While its line goes on, a subscription is offered every quote that the dispatch takes. -/
theorem subscription?_dispatch (hpaired : m.Paired) (hbuses : ∀ l ∈ m.lines, l.bus.Sound)
    (h : m.subscription? s = some u) {l : Line} (hl : m.lines[s.line]? = some l)
    (hopen : l.bus.closed = false)
    (hgoing : ∀ w, m.intake.ingestors[s.line]? = some w → w.phase ≠ .terminated)
    (hact : m.dispatchAt? s.line = some m') :
    ∃ q, m.published? s.line = some q ∧
      m'.subscription? s = some (Bus.deliver l.bus.capacity q u) := by
  rcases cases_of_published? hpaired hact with
    ⟨l', w, hl', hw, ⟨-, q, rest, hq, -, rfl⟩ | ⟨-, ⟨hclosed, -⟩ | ⟨hended, -⟩⟩⟩
  · refine ⟨q, hq, ?_⟩
    refine (changesBus_changeBus (m.setIngestor s.line { w with output := rest }) s.line
      _).subscription? h (fun l'' hl'' _ hu => ?_) (fun hne => absurd rfl hne)
    cases Option.some.inj (hl.symm.trans hl'')
    exact Bus.find?_publish (hbuses l (List.mem_of_getElem? hl)) hu q
  · cases Option.some.inj (hl.symm.trans hl')
    rw [hopen] at hclosed
    exact absurd hclosed Bool.false_ne_true
  · exact absurd hended (hgoing w hw)

/-- While it is joined, a subscription of the cache gives its first quote to the cache. -/
theorem subscription?_feed (h : m.subscription? s = some u) (hjoined : u.joined = true)
    (hact : m.feed? s = some m') :
    ∃ q rest, u.buffer = q :: rest ∧ (m.receive s).1 = .item q ∧
      m'.subscription? s = some { u with buffer := rest } ∧
      m' = { (m.receive s).2 with cache := m.cache.update m.now q } := by
  rcases subscription?_eq_some h with ⟨l, hl, hu⟩
  have hreceive : (m.receive s).1 = (l.bus.receive s.id).1 := by
    rw [receive, hl]
  have hfound : (m.receive s).2.subscription? s = some { u with buffer := u.buffer.drop 1 } := by
    refine (changesBus_receive m s).subscription? h (fun l' hl' _ hu => ?_)
      (fun hne => absurd rfl hne)
    rw [Bus.find?_receive hu, if_pos rfl]
  rcases cases_of_feed? hact with ⟨q, hitem, heq⟩ | ⟨hended, -⟩
  · have hbuffer : u.buffer = q :: u.buffer.drop 1 := by
      rw [hreceive, Bus.receive, hu] at hitem
      cases hb : u.buffer with
      | nil =>
          simp only [hb, hjoined, if_true] at hitem
          exact absurd hitem (by simp only [reduceCtorEq, not_false_eq_true])
      | cons q' rest =>
          simp only [hb] at hitem
          cases hitem
          rfl
    refine ⟨q, u.buffer.drop 1, hbuffer, hitem, ?_, ?_⟩
    · rw [heq]
      exact hfound
    · have hsame : (m.receive s).2.cache = m.cache := by
        unfold receive
        split
        · rfl
        · rfl
      have hnow : (m.receive s).2.now = m.now := congrArg Intake.now (intake_receive m s)
      rw [heq, hsame, hnow]
  · rw [hreceive] at hended
    have hleft := ((Bus.receive_eq_ended hu).1 hended).2
    rw [hjoined] at hleft
    exact absurd hleft (by simp only [Bool.true_eq_false, not_false_eq_true])

/-! ## What stays -/

/-- Whether something is about the subscriptions of the cache. -/
def Action.isCaching : Action → Bool
  | addFeeder _ | feed _ => true
  | _ => false

theorem cache_changeBus (m : Market) (i : Nat) (f : Bus → Bus) :
    (m.changeBus i f).cache = m.cache ∧ (m.changeBus i f).feeders = m.feeders := by
  unfold changeBus
  simp only []
  split
  · exact ⟨rfl, rfl⟩
  · exact ⟨rfl, rfl⟩

theorem cache_removeFeeder (m : Market) (s : Seat) :
    (m.removeFeeder s).cache = m.cache ∧
      (m.removeFeeder s).feeders = m.feeders.filter (fun t => t ≠ s) :=
  cache_changeBus { m with feeders := m.feeders.filter (· ≠ s) } s.line (·.drop s.id)

theorem cache_receive (m : Market) (s : Seat) :
    (m.receive s).2.cache = m.cache ∧ (m.receive s).2.feeders = m.feeders := by
  unfold receive
  split
  · exact ⟨rfl, rfl⟩
  · exact ⟨rfl, rfl⟩

theorem cache_dispatchAt? (hpaired : m.Paired) (h : m.dispatchAt? i = some m') :
    m'.cache = m.cache ∧ m'.feeders = m.feeders := by
  rcases cases_of_dispatchAt? hpaired h with
    ⟨l, w, -, -, ⟨-, rfl⟩ | ⟨-, q, rest, -, rfl⟩ | ⟨-, -, rfl⟩⟩
  · exact ⟨rfl, rfl⟩
  · exact cache_changeBus _ i _
  · exact cache_changeBus m i _

/-- The turn of a request does not touch the cache, and no request is made by it. -/
theorem cache_nextTurn? (h : m.nextTurn? = some m') :
    m'.cache = m.cache ∧ m'.feeders = m.feeders ∧ m'.requests = m.requests := by
  rcases turn_of_nextTurn? h with ⟨ticket, rest, hattempt, hwaiting⟩
  cases hactive : m.isActive with
  | true =>
      rcases exists_of_isActive hactive with ⟨i, l, hcurrent, hl, hopen⟩
      rcases nextTurn?_of_active hattempt hwaiting hcurrent hl hopen with ⟨bus, -, hturn⟩
      cases Option.some.inj (hturn.symm.trans h)
      exact ⟨rfl, rfl, rfl⟩
  | false =>
      rw [nextTurn?_of_inactive hattempt hwaiting hactive] at h
      split at h
      · cases Option.some.inj h
        exact ⟨rfl, rfl, rfl⟩
      · cases Option.some.inj h
        exact ⟨rfl, rfl, rfl⟩

theorem cache_endAttempt? (hpaired : m.Paired) (h : m.endAttempt? = some m') :
    m'.cache = m.cache ∧ m'.feeders = m.feeders ∧ m'.requests = m.requests := by
  rcases attempt_of_endAttempt? h with ⟨a, hattempt, hline, hdue⟩
  rcases Chronicle.cases_of_attempt m.intake false with
    ⟨-, hopened⟩ | ⟨r, feed, hrefused, hnot, -⟩
  · rw [endAttempt?_of_opened hpaired hattempt hline hdue hopened] at h
    cases Option.some.inj h
    exact ⟨rfl, rfl, rfl⟩
  · rcases endAttempt?_of_refused hattempt hline hdue hrefused hnot with ⟨g, -, -, heq⟩
    rw [heq] at h
    cases Option.some.inj h
    exact ⟨rfl, rfl, rfl⟩

theorem cache_takeSeat? (h : m.takeSeat? = some m') :
    m'.cache = m.cache ∧ m'.feeders = m.feeders ∧ m'.requests = m.requests := by
  rcases cases_of_takeSeat? h with ⟨a, i, -, -, ⟨l, bus, -, -, rfl⟩ | rfl | ⟨e, rfl⟩⟩
  · exact ⟨rfl, rfl, rfl⟩
  · exact ⟨rfl, rfl, rfl⟩
  · exact ⟨rfl, rfl, rfl⟩

/-- The cache changes only by its own subscriptions. -/
theorem cache_act? (hpaired : m.Paired) (ha : a.isCaching = false) (h : m.act? a = some m') :
    m'.cache = m.cache ∧ m'.feeders = m.feeders := by
  cases a with
  | nextTurn =>
      have hsame := cache_nextTurn? h
      exact ⟨hsame.1, hsame.2.1⟩
  | endAttempt =>
      have hsame := cache_endAttempt? hpaired h
      exact ⟨hsame.1, hsame.2.1⟩
  | takeSeat =>
      have hsame := cache_takeSeat? h
      exact ⟨hsame.1, hsame.2.1⟩
  | leave s =>
      cases Option.some.inj h
      exact cache_changeBus m s.line _
  | receive s =>
      cases Option.some.inj h
      exact cache_receive m s
  | dispatch i => exact cache_dispatchAt? hpaired h
  | spill i =>
      rcases spillAt?_eq_some h with ⟨-, w, -, rest, -, -, -, -, rfl⟩
      exact ⟨rfl, rfl⟩
  | turn i branch =>
      rcases Option.map_eq_some_iff.1 h with ⟨intake, -, rfl⟩
      exact ⟨rfl, rfl⟩
  | addFeeder s => exact absurd ha (by simp only [Action.isCaching, Bool.true_eq_false,
      not_false_eq_true])
  | feed s => exact absurd ha (by simp only [Action.isCaching, Bool.true_eq_false,
      not_false_eq_true])
  | _ =>
      cases Option.some.inj h
      exact ⟨rfl, rfl⟩

theorem sameDesk_removeFeeder (m : Market) (s : Seat) : m.SameDesk (m.removeFeeder s) :=
  (sameDesk_cache m m.cache _).trans (sameDesk_leave _ s)

/-- Only a turn, the end of an attempt and a first seat answer a request. -/
theorem grants_act? (hpaired : m.Paired) (ha : a.isAnswering = false) (h : m.act? a = some m') :
    m'.grants = m.grants := by
  by_cases hrequest : a = .request
  · subst hrequest
    cases Option.some.inj h
    rfl
  · rcases sameDesk_act? hpaired ha hrequest h with ⟨_, _, _, _, rfl⟩
    rfl

/-- The numbers of requests go on counting. -/
theorem requests_act? (hpaired : m.Paired) (h : m.act? a = some m') :
    m.requests ≤ m'.requests := by
  cases a with
  | request =>
      cases Option.some.inj h
      exact Nat.le_succ _
  | nextTurn => exact Nat.le_of_eq (cache_nextTurn? h).2.2.symm
  | endAttempt => exact Nat.le_of_eq (cache_endAttempt? hpaired h).2.2.symm
  | takeSeat => exact Nat.le_of_eq (cache_takeSeat? h).2.2.symm
  | _ =>
      rcases sameDesk_act? hpaired rfl Action.noConfusion h with ⟨_, _, _, _, rfl⟩
      exact Nat.le_refl _

end Market

end Bourse
