import Bourse.Market.Basic
import Bourse.Proofs.Bus.Roll
import Mathlib.Logic.Function.Basic

/-!
# The Outline of a Market

What is left of a market without its quotes, its clock and its queue: who is on which
line, which ingestors are still wanted, who has the turn, and which subscriptions are
held. Whatever happens to a market does one of a few things to its outline, and each of
them is guarded by what has been looked at first.

One invariant says all there is to say. Either the current line is open; then those who
are on it are those who hold subscriptions, and its ingestor goes on. Or it is not, and
nobody holds a subscription; then there may be a line that was just opened for somebody
who has the turn. On every other line nobody is left and the ingestor has been told to
stop.

Subscribers are numbered from zero on every line, so numbers say nothing without the
line, and leaving one line cannot touch another.

## Main definitions

* `Standing`: what matters of a line and its ingestor.
* `Turn`: what whoever has the turn does.
* `Outline`, `Outline.Step`: what matters of a market, and what can happen to it.
* `Outline.OpenAt`, `Outline.Shut`: the two kinds of outlines.

## Theorems

* `Outline.sound_of_step`: every step leads from one of the two kinds to one of them.
-/

namespace Bourse

/-- What matters of a line and its ingestor. -/
structure Standing where
  roll : Roll
  dispatching : Bool
  /-- Whether the ingestor has been told to stop. -/
  stopped : Bool
  /-- Whether somebody takes quotes from it. -/
  consumed : Bool
  /-- Whether a buffer can be made for a subscriber. -/
  seating : Bool
deriving DecidableEq

/-- What whoever has the turn does. -/
inductive Turn where
  /-- Nobody has it. -/
  | free
  | connecting
  /-- A line was opened, and nobody is on it yet. -/
  | opened (i : Nat)
deriving DecidableEq

/-- What matters of a market, and the subscriptions that were given and not given up. -/
structure Outline where
  lines : Nat → Option Standing
  current : Option Nat
  turn : Turn
  /-- Whether a buffer can be made for a subscriber of a new line. -/
  room : Bool
  held : List Seat

namespace Standing

/-- Somebody leaves; the last one tells the ingestor to stop. -/
def leave (s : Standing) (id : Nat) : Standing :=
  { s with roll := s.roll.leave id, stopped := s.stopped || (s.roll.leave id).closed }

/-- Somebody comes. -/
def join (s : Standing) : Standing := { s with roll := s.roll.join }

/-- The dispatch ends and leaves the ingestor alone. -/
def finish (s : Standing) : Standing := { s with dispatching := false, consumed := false }

/-- The quotes end, which closes the bus. -/
def starve (s : Standing) : Standing := { s.finish with roll := s.roll.close, stopped := true }

/-- A line that was just opened. -/
def fresh (room : Bool) : Standing := ⟨.opened, true, false, true, room⟩

/-- A line with its first subscriber. -/
def first : Standing := ⟨Roll.opened.join, true, false, true, true⟩

/-- A line whose subscriber could not be seated. -/
def vain : Standing := ⟨.opened, false, true, false, false⟩

/-- A line that is open: somebody is there, and quotes come in. -/
structure Live (s : Standing) : Prop where
  sound : s.roll.Sound
  isOpen : s.roll.closed = false
  attended : s.roll.here ≠ []
  dispatching : s.dispatching = true
  wanted : s.stopped = false
  consumed : s.consumed = true
  seating : s.seating = true

/-- A line that is over: nobody is there, and the ingestor has been told to stop. -/
structure Idle (s : Standing) : Prop where
  left : s.roll.here = []
  stopped : s.stopped = true

variable {s : Standing} {id : Nat}

theorem live_first : first.Live :=
  ⟨Roll.sound_join Roll.sound_opened, rfl, List.cons_ne_nil _ _, rfl, rfl, rfl, rfl⟩

theorem idle_vain : vain.Idle := ⟨rfl, rfl⟩

/-- Nobody can leave a line where nobody is. -/
theorem leave_fresh (room : Bool) (id : Nat) : (fresh room).leave id = fresh room := by
  rw [Standing.leave, fresh, Roll.leave_of_not_mem List.not_mem_nil]
  rfl

theorem Idle.leave (h : s.Idle) (id : Nat) : (s.leave id).Idle := by
  refine ⟨?_, ?_⟩
  · rw [Standing.leave, Roll.leave_of_not_mem (by rw [h.left]; exact List.not_mem_nil)]
    exact h.left
  · rw [Standing.leave, h.stopped, Bool.true_or]

theorem Idle.finish (h : s.Idle) : s.finish.Idle := ⟨h.left, h.stopped⟩

theorem Idle.starve (h : s.Idle) : s.starve.Idle := by
  refine ⟨?_, rfl⟩
  simp only [Standing.starve, Roll.close]
  split
  · exact h.left
  · rfl

theorem Live.join (h : s.Live) : s.join.Live := by
  have hjoin : s.roll.join =
      { s.roll with here := s.roll.here ++ [s.roll.next], next := s.roll.next + 1 } := by
    rw [Roll.join, if_neg (by rw [h.isOpen]; exact Bool.false_ne_true)]
  refine ⟨Roll.sound_join h.sound, ?_, ?_, h.dispatching, h.wanted, h.consumed, h.seating⟩
  · rw [Standing.join, hjoin]
    exact h.isOpen
  · rw [Standing.join, hjoin]
    exact List.append_ne_nil_of_right_ne_nil _ (List.cons_ne_nil _ _)

/-- A line stays open as long as one is left who has not gone. -/
theorem Live.leave (h : s.Live) (hopen : (s.roll.leave id).closed = false) :
    (s.leave id).Live := by
  have hsound := Roll.sound_leave h.sound id
  refine ⟨hsound, hopen, hsound.attended hopen ?_, h.dispatching, ?_, h.consumed, h.seating⟩
  · rw [Roll.next_leave]
    rcases List.exists_mem_of_ne_nil _ h.attended with ⟨j, hj⟩
    exact Nat.ne_of_gt (Nat.lt_of_le_of_lt (Nat.zero_le _) (h.sound.lt_next hj))
  · rw [Standing.leave, h.wanted, hopen]
    rfl

/-- A line is over when the last one has gone. -/
theorem Live.idle_leave (h : s.Live) (hclosed : (s.roll.leave id).closed = true) :
    (s.leave id).Idle ∧ s.roll.here = [id] := by
  refine ⟨⟨(Roll.sound_leave h.sound id).ended hclosed, ?_⟩, ?_⟩
  · rw [Standing.leave, hclosed, Bool.or_true]
  · refine ((Roll.closed_leave h.sound id).1 hclosed).resolve_left (fun hnot => ?_)
    rw [h.isOpen] at hnot
    exact absurd hnot Bool.false_ne_true

end Standing

namespace Outline

/-- The outline with another standing of one line. -/
def set (o : Outline) (i : Nat) (s : Option Standing) : Outline :=
  { o with lines := Function.update o.lines i s }

/-- Whether the current line is open. -/
def active (o : Outline) : Bool :=
  ((o.current.bind o.lines).map (fun s => !s.roll.closed)).getD false

/-- What can happen. -/
inductive Step (o : Outline) : Outline → Prop
  | stay : Step o o
  /-- Somebody leaves a line, where there is one. -/
  | leave (i id : Nat) : Step o
      { o.set i ((o.lines i).map (·.leave id)) with held := o.held.filter (fun s => s ≠ ⟨i, id⟩) }
  /-- Somebody joins the current line. -/
  | join (i : Nat) (s : Standing) (hcurrent : o.current = some i) (hline : o.lines i = some s)
      (hopen : s.roll.closed = false) :
      Step o { o.set i (some s.join) with held := o.held ++ [⟨i, s.roll.next⟩] }
  /-- The dispatch of a line stops at its closed bus. -/
  | finish (i : Nat) (s : Standing) (hline : o.lines i = some s) (hclosed : s.roll.closed = true) :
      Step o (o.set i (some s.finish))
  /-- The quotes of a line end, which they do if its ingestor is not wanted. -/
  | starve (i : Nat) (s : Standing) (hline : o.lines i = some s)
      (hunwanted : s.stopped = true ∨ s.consumed = false) : Step o (o.set i (some s.starve))
  /-- Somebody begins to open a line. -/
  | begin (hturn : o.turn = .free) (hnone : o.active = false) : Step o { o with turn := .connecting }
  | fail (hturn : o.turn = .connecting) : Step o { o with turn := .free }
  /-- A line is opened. -/
  | launch (n : Nat) (hturn : o.turn = .connecting) (hnew : o.lines n = none) :
      Step o { o.set n (some (.fresh o.room)) with turn := .opened n }
  /-- Its first subscriber joins it. -/
  | seat (n : Nat) (hturn : o.turn = .opened n) :
      Step o { o.set n (some .first) with
        current := some n, turn := .free, held := o.held ++ [⟨n, 0⟩] }
  /-- It is given up. -/
  | drop (n : Nat) (hturn : o.turn = .opened n) :
      Step o { o.set n (some .vain) with turn := .free }

/-- Line `i` is open, and it is the only one. -/
structure OpenAt (o : Outline) (i : Nat) (s : Standing) : Prop where
  current : o.current = some i
  line : o.lines i = some s
  live : s.Live
  held : o.held = s.roll.here.map (Seat.mk i)
  turn : o.turn = .free
  others : ∀ j t, j ≠ i → o.lines j = some t → t.Idle

/-- No line is open, but for one that was just opened. -/
structure Shut (o : Outline) : Prop where
  held : o.held = []
  current : ∀ i, o.current = some i → ∃ s, o.lines i = some s ∧ s.roll.closed = true
  opened : ∀ i, o.turn = .opened i → o.lines i = some (.fresh o.room)
  lines : ∀ i s, o.turn ≠ .opened i → o.lines i = some s → s.Idle

/-- At most one line is open. -/
def Sound (o : Outline) : Prop := (∃ i s, o.OpenAt i s) ∨ o.Shut

variable {o o' : Outline} {i j : Nat} {s t : Standing}

theorem set_self (o : Outline) (i : Nat) (s : Option Standing) : (o.set i s).lines i = s :=
  Function.update_self ..

theorem set_of_ne (o : Outline) (h : j ≠ i) (s : Option Standing) :
    (o.set i s).lines j = o.lines j := Function.update_of_ne h ..

theorem OpenAt.active (h : o.OpenAt i s) : o.active = true := by
  rw [Outline.active, h.current, Option.bind_some, h.line, Option.map_some, h.live.isOpen]
  rfl

theorem Shut.active (h : o.Shut) : o.active = false := by
  unfold Outline.active
  cases hcurrent : o.current with
  | none => rfl
  | some i =>
      rcases h.current i hcurrent with ⟨s, hs, hclosed⟩
      rw [Option.bind_some, hs, Option.map_some, hclosed]
      rfl

theorem Sound.shut (h : o.Sound) (hnone : o.active = false) : o.Shut := by
  refine h.resolve_left fun ⟨i, s, hopen⟩ => ?_
  rw [hopen.active] at hnone
  exact absurd hnone (by simp only [Bool.true_eq_false, not_false_eq_true])

/-- While somebody has the turn, no line is open. -/
theorem Sound.shut_of_turn (h : o.Sound) (hturn : o.turn ≠ .free) : o.Shut :=
  h.resolve_left fun ⟨_, _, hopen⟩ => hturn hopen.turn

/-- The line in use is not the one that was just opened. -/
theorem Shut.ne_opened (h : o.Shut) (hi : o.current = some i) : o.turn ≠ .opened i := by
  intro hturn
  rcases h.current i hi with ⟨s, hs, hclosed⟩
  cases Option.some.inj ((h.opened i hturn).symm.trans hs)
  exact absurd hclosed Bool.false_ne_true

/-- The other lines are over after something has happened to one. -/
theorem idle_of_set {u : Option Standing} {k : Nat}
    (h : ∀ j t, j ≠ k → o.lines j = some t → t.Idle)
    (hi : i ≠ k → ∀ t, u = some t → t.Idle) :
    ∀ j t, j ≠ k → (o.set i u).lines j = some t → t.Idle := by
  intro j t hj ht
  by_cases hji : j = i
  · subst hji
    rw [set_self] at ht
    exact hi hj t ht
  · rw [set_of_ne o hji] at ht
    exact h j t hj ht

/-- What happens on another line leaves the open one open. -/
theorem OpenAt.set_of_ne (h : o.OpenAt i s) (hj : j ≠ i) {u : Option Standing}
    (hidle : ∀ t, u = some t → t.Idle) : (o.set j u).OpenAt i s :=
  ⟨h.current, (Outline.set_of_ne o (Ne.symm hj) u).trans h.line, h.live, h.held, h.turn,
    idle_of_set h.others (fun _ => hidle)⟩

/-- What happens to a line that is over leaves all lines over. -/
theorem Shut.set (h : o.Shut) (hturn : o.turn ≠ .opened i) (u : Option Standing)
    (hidle : ∀ t, u = some t → t.Idle)
    (hclosed : ∀ s, o.lines i = some s → s.roll.closed = true →
      ∃ t, u = some t ∧ t.roll.closed = true) : (o.set i u).Shut := by
  refine ⟨h.held, fun j hj => ?_, fun j hj => ?_, fun j t hj ht => ?_⟩
  · rcases h.current j hj with ⟨s, hs, hs'⟩
    by_cases hji : j = i
    · subst hji
      rw [set_self]
      exact hclosed s hs hs'
    · rw [Outline.set_of_ne o hji]
      exact ⟨s, hs, hs'⟩
  · have hji : j ≠ i := fun heq => hturn (heq ▸ hj)
    rw [Outline.set_of_ne o hji]
    exact h.opened j hj
  · by_cases hji : j = i
    · subst hji
      rw [set_self] at ht
      exact hidle t ht
    · rw [Outline.set_of_ne o hji] at ht
      exact h.lines j t hj ht

/-- A new line is open, and nobody is on it. -/
theorem Shut.launch {n : Nat} (h : o.Shut) (hturn : o.turn = .connecting)
    (hnew : o.lines n = none) : Shut { o.set n (some (.fresh o.room)) with turn := .opened n } := by
  have hne : ∀ j s, o.lines j = some s → j ≠ n := by
    rintro j s hs rfl
    exact absurd (hnew.symm.trans hs).symm (Option.some_ne_none s)
  refine ⟨h.held, fun j hj => ?_, fun j hj => ?_, fun j t hj ht => ?_⟩
  · rcases h.current j hj with ⟨s, hs, hclosed⟩
    exact ⟨s, (Outline.set_of_ne o (hne j s hs) _).trans hs, hclosed⟩
  · cases hj
    exact set_self o _ _
  · have hjn : j ≠ n := by
      rintro rfl
      exact hj rfl
    have hold := (Outline.set_of_ne o hjn _).symm.trans ht
    exact h.lines j t (by rw [hturn]; exact Turn.noConfusion) hold

/-- A line that is given up before anybody was on it is over. -/
theorem Shut.drop {n : Nat} (h : o.Shut) (hturn : o.turn = .opened n) :
    Shut { o.set n (some .vain) with turn := .free } := by
  refine ⟨h.held, fun j hj => ?_, fun j hj => absurd hj Turn.noConfusion, fun j t _ ht => ?_⟩
  · have hjn : j ≠ n := fun heq => h.ne_opened hj (heq ▸ hturn)
    rcases h.current j hj with ⟨s, hs, hclosed⟩
    exact ⟨s, (Outline.set_of_ne o hjn _).trans hs, hclosed⟩
  · by_cases hjn : j = n
    · subst hjn
      rw [← Option.some.inj ((set_self o j _).symm.trans ht)]
      exact Standing.idle_vain
    · have hother : o.turn ≠ .opened j := by
        rw [hturn]
        exact fun heq => hjn (Turn.opened.inj heq).symm
      exact h.lines j t hother ((Outline.set_of_ne o hjn _).symm.trans ht)

/-- The first subscriber of a new line is alone there, and no other line is open. -/
theorem Shut.seat {n : Nat} (h : o.Shut) (hturn : o.turn = .opened n) :
    OpenAt { o.set n (some .first) with
      current := some n, turn := .free, held := o.held ++ [⟨n, 0⟩] } n .first := by
  refine ⟨rfl, set_self o n _, Standing.live_first, ?_, rfl,
    idle_of_set (fun j t hj ht => h.lines j t ?_ ht) (fun hne => absurd rfl hne)⟩
  · rw [h.held]
    rfl
  · rw [hturn]
    exact fun heq => hj (Turn.opened.inj heq).symm

/-- Seats of one line are not given up by leaving another. -/
theorem filter_seats_of_ne (h : j ≠ i) (here : List Nat) (id : Nat) :
    (here.map (Seat.mk i)).filter (fun s => s ≠ ⟨j, id⟩) = here.map (Seat.mk i) := by
  refine List.filter_eq_self.2 (fun s hs => decide_eq_true (fun heq => h ?_))
  rcases List.mem_map.1 hs with ⟨id', -, rfl⟩
  exact (Seat.mk.inj heq).1.symm

theorem filter_seats (i id : Nat) (here : List Nat) :
    (here.map (Seat.mk i)).filter (fun s => s ≠ ⟨i, id⟩) =
      (here.filter (fun j => j ≠ id)).map (Seat.mk i) := by
  rw [List.filter_map]
  refine congrArg _ (List.filter_congr fun j _ => ?_)
  simp only [Function.comp_apply, ne_eq, Seat.mk.injEq, true_and]

/-- Leaving the open line leaves it open for those who are still there, or shuts the outline. -/
theorem OpenAt.leave (hopen : o.OpenAt i s) (id : Nat) :
    Sound { o.set i (some (s.leave id)) with held := o.held.filter (fun s => s ≠ ⟨i, id⟩) } := by
  cases hclosed : (s.roll.leave id).closed with
  | true =>
      -- Only the last one closes a bus by leaving, so nothing is held any more.
      rcases hopen.live.idle_leave hclosed with ⟨hidle, halone⟩
      refine Or.inr ⟨?_, fun j hj => ?_, fun j hj => ?_, fun j t _ ht => ?_⟩
      · rw [hopen.held, halone, filter_seats, List.filter_cons_of_neg (by simp only [ne_eq,
          not_true_eq_false, decide_false, Bool.false_eq_true, not_false_eq_true])]
        rfl
      · cases Option.some.inj (hopen.current.symm.trans hj)
        exact ⟨s.leave id, set_self o i _, hclosed⟩
      · exact absurd (hopen.turn.symm.trans hj) Turn.noConfusion
      · by_cases hji : j = i
        · subst hji
          rw [← Option.some.inj ((set_self o j _).symm.trans ht)]
          exact hidle
        · exact hopen.others j t hji ((Outline.set_of_ne o hji _).symm.trans ht)
  | false =>
      refine Or.inl ⟨i, s.leave id, hopen.current, set_self o i _, hopen.live.leave hclosed, ?_,
        hopen.turn, idle_of_set hopen.others (fun hne => absurd rfl hne)⟩
      rw [hopen.held, filter_seats, ← (Roll.here_leave hclosed).2]
      rfl

/-- Leaving keeps an outline sound: on the open line as the last one or not, or elsewhere. -/
theorem sound_leave (h : o.Sound) (i id : Nat) :
    Sound { o.set i ((o.lines i).map (·.leave id)) with
      held := o.held.filter (fun s => s ≠ ⟨i, id⟩) } := by
  rcases h with ⟨j, s, hopen⟩ | hshut
  · by_cases hij : i = j
    · subst hij
      rw [hopen.line]
      exact hopen.leave id
    · have hset := hopen.set_of_ne hij (u := (o.lines i).map (·.leave id)) fun t ht => by
        rcases Option.map_eq_some_iff.1 ht with ⟨u, hu, rfl⟩
        exact (hopen.others i u hij hu).leave id
      refine Or.inl ⟨j, s, hset.current, hset.line, hset.live, ?_, hset.turn, hset.others⟩
      rw [hopen.held]
      exact filter_seats_of_ne hij s.roll.here id
  · have hset : (o.set i ((o.lines i).map (·.leave id))).Shut := by
      by_cases hturn : o.turn = .opened i
      · have hfresh := hshut.opened i hturn
        rw [hfresh, Option.map_some, Standing.leave_fresh, ← hfresh, set, Function.update_eq_self]
        exact hshut
      · exact hshut.set hturn _ (fun t ht => by
          rcases Option.map_eq_some_iff.1 ht with ⟨u, hu, rfl⟩
          exact (hshut.lines i u hturn hu).leave id)
          (fun s hs hclosed => ⟨s.leave id, by rw [hs, Option.map_some],
            Roll.closed_leave_of_closed hclosed id⟩)
    refine Or.inr ⟨?_, hset.current, hset.opened, hset.lines⟩
    rw [hshut.held]
    rfl

/-- What happens to a line that is over keeps an outline sound. -/
theorem sound_set (h : o.Sound) (hline : o.lines i = some s) (hover : ¬ s.Live)
    (hold : ∀ room, s ≠ .fresh room) {t : Standing} (hidle : s.Idle → t.Idle) (hclosed : t.roll.closed = true) : Sound (o.set i (some t)) := by
  rcases h with ⟨j, u, hopen⟩ | hshut
  · by_cases hij : i = j
    · subst hij
      cases Option.some.inj (hopen.line.symm.trans hline)
      exact absurd hopen.live hover
    · refine Or.inl ⟨j, u, hopen.set_of_ne hij fun v hv => ?_⟩
      rw [← Option.some.inj hv]
      exact hidle (hopen.others i s hij hline)
  · have hturn : o.turn ≠ .opened i := fun hturn =>
      hold o.room (Option.some.inj (hline.symm.trans (hshut.opened i hturn)))
    refine Or.inr (hshut.set hturn _ (fun v hv => ?_) fun _ _ _ => ⟨_, rfl, hclosed⟩)
    rw [← Option.some.inj hv]
    exact hidle (hshut.lines i s hturn hline)

/-- Joining the current line keeps an outline sound, for it is open. -/
theorem sound_join (h : o.Sound) (hcurrent : o.current = some i) (hline : o.lines i = some s)
    (hopen : s.roll.closed = false) :
    Sound { o.set i (some s.join) with held := o.held ++ [⟨i, s.roll.next⟩] } := by
  rcases h with ⟨j, t, hat⟩ | hshut
  · cases Option.some.inj (hat.current.symm.trans hcurrent)
    cases Option.some.inj (hat.line.symm.trans hline)
    refine Or.inl ⟨i, s.join, hat.current, set_self o i _, hat.live.join, ?_, hat.turn,
      idle_of_set hat.others (fun hne => absurd rfl hne)⟩
    simp only [hat.held, Standing.join, Roll.join, hopen, Bool.false_eq_true, if_false,
      List.map_append, List.map_cons, List.map_nil]
  · rcases hshut.current i hcurrent with ⟨t, ht, hclosed⟩
    cases Option.some.inj (ht.symm.trans hline)
    rw [hopen] at hclosed
    exact absurd hclosed Bool.false_ne_true

/-- Every step leads from one of the two kinds of outlines to one of them. -/
theorem sound_of_step (h : o.Sound) (hstep : Step o o') : o'.Sound := by
  cases hstep with
  | stay => exact h
  | leave i id => exact sound_leave h i id
  | join i s hcurrent hline hopen => exact sound_join h hcurrent hline hopen
  | finish i s hline hclosed =>
      refine sound_set h hline (fun hlive => ?_) (fun room heq => ?_) Standing.Idle.finish hclosed
      · rw [hlive.isOpen] at hclosed
        exact absurd hclosed Bool.false_ne_true
      · rw [heq] at hclosed
        exact absurd hclosed Bool.false_ne_true
  | starve i s hline hunwanted =>
      refine sound_set h hline (fun hlive => ?_) (fun room heq => ?_) Standing.Idle.starve
        (Roll.closed_close _)
      · rw [hlive.wanted, hlive.consumed] at hunwanted
        exact absurd hunwanted (by decide)
      · rw [heq] at hunwanted
        exact absurd hunwanted (by simp only [Standing.fresh, reduceCtorEq, or_self,
          not_false_eq_true])
  | begin hturn hnone =>
      have hshut := h.shut hnone
      exact Or.inr ⟨hshut.held, hshut.current, fun _ hj => absurd hj Turn.noConfusion,
        fun i s _ hs => hshut.lines i s (by rw [hturn]; exact Turn.noConfusion) hs⟩
  | fail hturn =>
      have hshut := h.shut_of_turn (by rw [hturn]; exact Turn.noConfusion)
      exact Or.inr ⟨hshut.held, hshut.current, fun _ hj => absurd hj Turn.noConfusion,
        fun i s _ hs => hshut.lines i s (by rw [hturn]; exact Turn.noConfusion) hs⟩
  | launch n hturn hnew =>
      have hshut := h.shut_of_turn (by rw [hturn]; exact Turn.noConfusion)
      exact Or.inr (hshut.launch hturn hnew)
  | seat n hturn =>
      have hshut := h.shut_of_turn (by rw [hturn]; exact Turn.noConfusion)
      exact Or.inl ⟨n, .first, hshut.seat hturn⟩
  | drop n hturn =>
      have hshut := h.shut_of_turn (by rw [hturn]; exact Turn.noConfusion)
      exact Or.inr (hshut.drop hturn)

end Outline

end Bourse
