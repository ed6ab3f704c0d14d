import Bourse.Proofs.Bus.Subscriptions

/-!
# The Lanes of a Bus

A subscription of a bus is worth as much as a bus of one's own. A *lane* is a buffer
for one subscriber alone: quotes come to its end while there is room, the subscriber
takes them from its front, and once the subscriber has left nothing comes any more. A
run of the bus is, for each subscription, a run of such a lane, over the quotes that
were published and what the subscriber itself did. Other subscribers are in none of
it, however many they are and however slow.

The bus closes when its last subscriber leaves. That is why somebody else's leaving is
nothing to a lane: as long as a subscriber is there, it is not the last one to leave.

## Main definitions

* `Bus.Action`, `Bus.act`, `Bus.after`: what can be done to a bus, and what becomes of it.
* `Bus.received`, `Bus.admitted`: what a subscription is given in a run, and what was
  published for it.
* `Lane`, `Lane.run`: a buffer for one subscriber alone.
* `Bus.Action.turn?`: what an action is to a lane.

## Theorems

* `find?_act`: a step of the bus is a step of each lane or none.
* `lane_after`: a run of the bus is a run of each lane.
* `Lane.run_of_left`: a lane that was left gives up what is in it, and no more.
* `stream_of_subscribe`: what a subscription is given.
* `Broadcast.bus_of_run`: a dispatch is a run of its bus.
-/

namespace Bourse

/-- What can be done to a bus. -/
inductive Bus.Action where
  | publish (q : Quote)
  | subscribe
  | receive (id : Nat)
  | unsubscribe (id : Nat)
  | drop (id : Nat)
  | close
deriving DecidableEq

/-- What happens to a lane. -/
inductive Lane.Turn where
  | quote (q : Quote)
  | take
  | leave
deriving DecidableEq

/-- What an action on a bus is to the lane of a subscription. -/
def Bus.Action.turn? (id : Nat) : Bus.Action → Option Lane.Turn
  | publish q => some (.quote q)
  | subscribe => none
  | receive j => if j = id then some .take else none
  | unsubscribe j | drop j => if j = id then some .leave else none
  | close => some .leave

/-- A buffer for one subscriber alone. -/
structure Lane where
  taken : List Quote
  /-- The quotes not yet taken, oldest first. -/
  waiting : List Quote
  /-- Whether quotes still come in. -/
  joined : Bool
deriving DecidableEq

namespace Lane

/-- A lane at its beginning. -/
def opened : Lane := ⟨[], [], true⟩

/-- The lane after something has happened to it. -/
def turn (room : Nat) (l : Lane) : Turn → Lane
  | .quote q =>
    if l.joined && l.waiting.length < room then { l with waiting := l.waiting ++ [q] } else l
  | .take => { l with taken := l.taken ++ l.waiting.take 1, waiting := l.waiting.drop 1 }
  | .leave => { l with joined := false }

def run (room : Nat) (l : Lane) (turns : List Turn) : Lane := turns.foldl (turn room) l

theorem joined_run (room : Nat) (l : Lane) (turns : List Turn) :
    (l.run room turns).joined = true ↔ l.joined = true ∧ Turn.leave ∉ turns := by
  induction turns generalizing l with
  | nil => exact ⟨fun h => ⟨h, List.not_mem_nil⟩, fun h => h.1⟩
  | cons t rest ih =>
      rw [run, List.foldl_cons, ← run, ih, List.mem_cons]
      cases t with
      | quote q =>
          have hjoined : (l.turn room (.quote q)).joined = l.joined := by
            rw [turn]
            split
            · rfl
            · rfl
          simp only [hjoined, reduceCtorEq, false_or]
      | take => simp only [turn, reduceCtorEq, false_or]
      | leave => simp only [turn, Bool.false_eq_true, false_and, true_or, not_true_eq_false,
          and_false]

/-- A lane that was left gives up what is in it, one quote for each time that one is taken. -/
theorem run_of_left (room : Nat) {l : Lane} (h : l.joined = false) (turns : List Turn) :
    l.run room turns = ⟨l.taken ++ l.waiting.take (turns.count .take),
      l.waiting.drop (turns.count .take), false⟩ := by
  induction turns generalizing l with
  | nil =>
      rw [List.count_nil, List.take_zero, List.drop_zero, List.append_nil, ← h]
      rfl
  | cons t rest ih =>
      rw [run, List.foldl_cons, ← run]
      cases t with
      | quote q =>
          have hsame : l.turn room (.quote q) = l := by
            rw [turn, h, Bool.false_and, if_neg Bool.false_ne_true]
          rw [hsame, ih h, List.count_cons_of_ne (by simp only [ne_eq, reduceCtorEq,
            not_false_eq_true])]
      | take =>
          rw [ih (show (l.turn room .take).joined = false from h), List.count_cons_self,
            Nat.add_comm _ 1, List.take_add, ← List.drop_drop, ← List.append_assoc]
          rfl
      | leave =>
          rw [ih (show (l.turn room .leave).joined = false from rfl), List.count_cons_of_ne
            (by simp only [ne_eq, reduceCtorEq, not_false_eq_true])]
          rfl

end Lane

namespace Bus

/-- The bus after something was done to it. -/
def act (b : Bus) : Action → Bus
  | .publish q => b.publish q
  | .subscribe =>
    match b.subscribe with
    | some (_, b) => b
    | none => b
  | .receive id => (b.receive id).2
  | .unsubscribe id => b.unsubscribe id
  | .drop id => b.drop id
  | .close => b.close

def after (b : Bus) (actions : List Action) : Bus := actions.foldl act b

/-- The quote that an action gives to a subscription. -/
def gives (id : Nat) (b : Bus) : Action → List Quote
  | .receive j =>
    if j = id then
      match (b.receive id).1 with
      | .item q => [q]
      | _ => []
    else []
  | _ => []

/-- The quote that an action publishes while a subscription is joined, the bus is open, and the
subscription has not as many quotes to receive as it has room for. -/
def admits (id : Nat) (b : Bus) : Action → List Quote
  | .publish q =>
    if !b.closed && b.isJoined id && b.buffered id < b.capacity then [q] else []
  | _ => []

/-- What the actions of a run bring, one after another. -/
def along (brings : Bus → Action → List Quote) : Bus → List Action → List Quote
  | _, [] => []
  | b, a :: rest => brings b a ++ along brings (b.act a) rest

/-- The quotes that a subscription is given in a run. -/
def received (id : Nat) : Bus → List Action → List Quote := along (gives id)

/-- The quotes that are published in a run while a subscription is joined, the bus is open, and the
subscription has not as many quotes to receive as it has room for. -/
def admitted (id : Nat) : Bus → List Action → List Quote := along (admits id)

theorem along_append (brings : Bus → Action → List Quote) (b : Bus) (actions more : List Action) :
    along brings b (actions ++ more) =
      along brings b actions ++ along brings (b.after actions) more := by
  induction actions generalizing b with
  | nil => rfl
  | cons a rest ih =>
      rw [List.cons_append, along, along, ih, List.append_assoc]
      rfl

theorem after_append (b : Bus) (actions more : List Action) :
    b.after (actions ++ more) = (b.after actions).after more :=
  List.foldl_append

/-! ## Steps -/

variable {b b' : Bus} {id : Nat} {s : Subscription}

theorem altered_act (b : Bus) (a : Action) : Altered b (b.act a) := by
  cases a with
  | publish q => exact altered_publish b q
  | subscribe =>
      simp only [act]
      split
      · next h => exact altered_subscribe h
      · exact .same b
  | receive id => exact altered_receive b id
  | unsubscribe id => exact altered_unsubscribe b id
  | drop id => exact altered_drop b id
  | close => exact altered_close b

theorem altered_after (b : Bus) (actions : List Action) : Altered b (b.after actions) := by
  induction actions generalizing b with
  | nil => exact .same b
  | cons a rest ih => exact (altered_act b a).trans (ih (b.act a))

theorem admits_publish (hb : b.Sound) (h : b.find? id = some s) (q : Quote) :
    admits id b (.publish q) =
      if s.joined && s.buffer.length < b.capacity then [q] else [] := by
  rw [admits, isJoined_of_find? hb h, buffered_of_find? h]
  cases hclosed : b.closed with
  | false => rfl
  | true =>
      -- Nobody is joined to a closed bus.
      rw [hb.ended hclosed s (mem_of_find? h)]
      rfl

theorem gives_receive (h : b.find? id = some s) : gives id b (.receive id) = s.buffer.take 1 := by
  rw [gives, if_pos rfl, receive, h]
  simp only []
  cases s.buffer with
  | nil =>
      cases s.joined with
      | true => rfl
      | false => rfl
  | cons q rest => rfl

/-- What a subscription has been given, and what it has in its buffer. -/
def laneOf (taken : List Quote) (s : Subscription) : Lane := ⟨taken, s.buffer, s.joined⟩

/-- A step of the bus is a step of each lane or none, but for the subscription's own end. -/
theorem find?_act (hb : b.Sound) (h : b.find? id = some s) {a : Action} (ha : a ≠ .drop id)
    (taken : List Quote) :
    ∃ s', (b.act a).find? id = some s' ∧
      s.buffer ++ admits id b a = gives id b a ++ s'.buffer ∧
      laneOf (taken ++ gives id b a) s' =
        ((a.turn? id).elim (laneOf taken s) ((laneOf taken s).turn b.capacity)) := by
  cases a with
  | publish q =>
      refine ⟨_, find?_publish hb h q, ?_, ?_⟩
      · rw [admits_publish hb h, deliver]
        split
        · rfl
        · rw [List.append_nil]
          rfl
      · simp only [gives, List.append_nil, Action.turn?, Option.elim_some, Lane.turn, laneOf,
          deliver]
        split
        · rfl
        · rfl
  | subscribe =>
      refine ⟨s, ?_, List.append_nil _, ?_⟩
      · simp only [act]
        split
        · next hnew => exact find?_subscribe h hnew
        · exact h
      · simp only [gives, List.append_nil]
        rfl
  | receive j =>
      refine ⟨_, find?_receive h j, ?_, ?_⟩
      · by_cases hj : j = id
        · subst hj
          simp only [if_true, gives_receive h, admits, List.append_nil]
          exact (List.take_append_drop 1 s.buffer).symm
        · rw [if_neg hj, gives, if_neg hj]
          exact List.append_nil _
      · by_cases hj : j = id
        · subst hj
          rw [if_pos rfl, gives_receive h, Action.turn?, if_pos rfl]
          rfl
        · rw [if_neg hj, gives, if_neg hj, Action.turn?, if_neg hj, List.append_nil]
          rfl
  | unsubscribe j =>
      refine ⟨_, find?_unsubscribe hb h j, ?_, ?_⟩
      · split
        · exact List.append_nil _
        · exact List.append_nil _
      · simp only [gives, List.append_nil, Action.turn?]
        split
        · rfl
        · rfl
  | drop j =>
      have hj : j ≠ id := fun hj => ha (by rw [hj])
      refine ⟨s, find?_drop hb h hj, List.append_nil _, ?_⟩
      simp only [gives, List.append_nil, Action.turn?, if_neg hj]
      rfl
  | close =>
      refine ⟨_, find?_close hb h, List.append_nil _, ?_⟩
      simp only [gives, List.append_nil]
      rfl

/-- Who has gone is given nothing any more. -/
theorem received_of_gone (h : b.Gone id) (actions : List Action) : received id b actions = [] := by
  induction actions generalizing b with
  | nil => rfl
  | cons a rest ih =>
      have hgives : gives id b a = [] := by
        cases a with
        | receive j =>
            rw [gives]
            split
            · rw [receive, find?_of_gone h]
            · rfl
        | _ => rfl
      have hrest := ih (gone_of_altered h (altered_act b a))
      rw [received] at hrest ⊢
      rw [along, hgives, hrest, List.append_nil]

/-! ## Runs -/

/-- A run of the bus is a run of each lane, until the subscription's own end. -/
theorem lane_after (hb : b.Sound) (h : b.find? id = some s) {actions : List Action}
    (hactions : .drop id ∉ actions) (taken : List Quote) :
    ∃ s', (b.after actions).find? id = some s' ∧
      s.buffer ++ admitted id b actions = received id b actions ++ s'.buffer ∧
      laneOf (taken ++ received id b actions) s' =
        (laneOf taken s).run b.capacity (actions.filterMap (Action.turn? id)) := by
  induction actions generalizing b s taken with
  | nil =>
      refine ⟨s, h, List.append_nil _, ?_⟩
      rw [received, along, List.append_nil]
      rfl
  | cons a rest ih =>
      rw [List.mem_cons, not_or] at hactions
      rcases find?_act hb h (Ne.symm hactions.1) taken with ⟨s₁, h₁, hstep, hturn⟩
      have hsound := sound_of_altered hb (altered_act b a)
      rcases ih hsound h₁ hactions.2 (taken ++ gives id b a) with ⟨s₂, h₂, hrest, hrun⟩
      have hreceived : received id b (a :: rest) = gives id b a ++ received id (b.act a) rest := rfl
      have hadmitted : admitted id b (a :: rest) = admits id b a ++ admitted id (b.act a) rest := rfl
      refine ⟨s₂, h₂, ?_, ?_⟩
      · rw [hreceived, hadmitted, ← List.append_assoc, hstep, List.append_assoc, hrest,
          List.append_assoc]
      · rw [hreceived, ← List.append_assoc, hrun, hturn, capacity_of_altered (altered_act b a)]
        cases hturn? : a.turn? id with
        | none =>
            rw [List.filterMap_cons_none hturn?]
            rfl
        | some t =>
            rw [List.filterMap_cons_some hturn?]
            rfl

/-! ## Streams -/

/-- A lane is taken from as often as its subscription is asked. -/
theorem count_take (id : Nat) (actions : List Action) :
    (actions.filterMap (Action.turn? id)).count .take = actions.count (.receive id) := by
  rw [List.count, List.countP_filterMap, List.count]
  refine List.countP_congr (fun a _ => ?_)
  cases a with
  | receive j =>
      by_cases hj : j = id
      · simp only [Action.turn?, hj, if_true, Option.map_some, Option.getD_some, beq_self_eq_true]
      · simp only [Action.turn?, hj, if_false, Option.map_none, Option.getD_none, beq_iff_eq,
          Action.receive.injEq, Bool.false_eq_true]
  | unsubscribe j | drop j =>
      by_cases hj : j = id
      · simp only [Action.turn?, hj, if_true, Option.map_some, Option.getD_some, beq_iff_eq,
          reduceCtorEq]
      · simp only [Action.turn?, hj, if_false, Option.map_none, Option.getD_none, beq_iff_eq,
          reduceCtorEq, Bool.false_eq_true]
  | subscribe =>
      simp only [Action.turn?, Option.map_none, Option.getD_none, beq_iff_eq, reduceCtorEq,
        Bool.false_eq_true]
  | publish q | close =>
      simp only [Action.turn?, Option.map_some, Option.getD_some, beq_iff_eq, reduceCtorEq]

/-- A subscription ends by its own doing, or when the bus is closed. -/
theorem leave_mem_iff (id : Nat) (actions : List Action) :
    Lane.Turn.leave ∈ actions.filterMap (Action.turn? id) ↔
      .unsubscribe id ∈ actions ∨ .drop id ∈ actions ∨ .close ∈ actions := by
  rw [List.mem_filterMap]
  constructor
  · rintro ⟨a, ha, hturn⟩
    cases a with
    | unsubscribe j =>
        simp only [Action.turn?] at hturn
        split at hturn
        · next hj => exact Or.inl (hj ▸ ha)
        · exact absurd hturn (by simp only [reduceCtorEq, not_false_eq_true])
    | drop j =>
        simp only [Action.turn?] at hturn
        split at hturn
        · next hj => exact Or.inr (Or.inl (hj ▸ ha))
        · exact absurd hturn (by simp only [reduceCtorEq, not_false_eq_true])
    | close => exact Or.inr (Or.inr ha)
    | receive j =>
        simp only [Action.turn?] at hturn
        split at hturn
        · exact absurd hturn (by simp only [Option.some.injEq, reduceCtorEq, not_false_eq_true])
        · exact absurd hturn (by simp only [reduceCtorEq, not_false_eq_true])
    | publish q =>
        exact absurd hturn (by simp only [Action.turn?, Option.some.injEq, reduceCtorEq,
          not_false_eq_true])
    | subscribe => exact absurd hturn (by simp only [Action.turn?, reduceCtorEq, not_false_eq_true])
  · rintro (h | h | h)
    · exact ⟨_, h, if_pos rfl⟩
    · exact ⟨_, h, if_pos rfl⟩
    · exact ⟨_, h, rfl⟩

/-- Who has given a subscription up is given nothing from then on. -/
theorem received_until_drop (hb : b.Sound) (h : b.find? id = some s) (actions : List Action) :
    received id b actions = received id b (actions.takeWhile (fun a => a ≠ .drop id)) := by
  induction actions generalizing b s with
  | nil => rfl
  | cons a rest ih =>
      by_cases ha : a = .drop id
      · have hid : id < b.nextId := by
          rw [← id_of_find? h]
          exact hb.given s (mem_of_find? h)
        have hnothing := received_of_gone (gone_drop hid) rest
        have hstops : (a :: rest).takeWhile (fun a => a ≠ .drop id) = [] :=
          List.takeWhile_cons_of_neg (by simp only [ha, ne_eq, not_true_eq_false, decide_false,
            Bool.false_eq_true, not_false_eq_true])
        rw [hstops, ha]
        exact hnothing
      · rcases find?_act hb h ha [] with ⟨s', hs', -⟩
        have hgoesOn : (a :: rest).takeWhile (fun a => a ≠ .drop id) =
            a :: rest.takeWhile (fun a => a ≠ .drop id) :=
          List.takeWhile_cons_of_pos (decide_eq_true ha)
        rw [hgoesOn]
        exact congrArg (gives id b a ++ ·) (ih (sound_of_altered hb (altered_act b a)) hs')

/-- A subscription of a bus of some capacity, after any number of actions, and any number of actions
from then on. What it has been given, followed by what it has in its buffer, are the quotes that
were published while it was joined, the bus was open, and it had fewer quotes to receive than the
bus has room for. It is what a lane of its own would be, over the quotes published and what the
subscriber did; nobody but the subscriber and a closing of the bus ends it. When it has ended the
quotes in its buffer are given to it one by one, whatever else happens, and the stream ends when all
have been given. Who has dropped it is given nothing more. -/
theorem stream_of_subscribe (capacity : Nat) (before : List Action)
    (h : ((create capacity).after before).subscribe = some (id, b)) (actions : List Action) :
    received id b actions = received id b (actions.takeWhile (fun a => a ≠ .drop id)) ∧
    (.drop id ∉ actions → ∃ s, (b.after actions).find? id = some s ∧
      received id b actions ++ s.buffer = admitted id b actions ∧
      Lane.opened.run (max capacity 1) (actions.filterMap (Action.turn? id)) =
        ⟨received id b actions, s.buffer, s.joined⟩ ∧
      (s.joined = true ↔ .unsubscribe id ∉ actions ∧ .close ∉ actions) ∧
      (((b.after actions).receive id).1 = .ended ↔
        received id b actions = admitted id b actions ∧ s.joined = false) ∧
      (s.joined = false → ∀ more, .drop id ∉ more →
        received id b (actions ++ more) =
          received id b actions ++ s.buffer.take (more.count (.receive id)))) := by
  have hbefore := altered_after (create capacity) before
  have hfirst := sound_of_altered (sound_create capacity) hbefore
  have hsound : b.Sound := sound_of_altered hfirst (altered_subscribe h)
  have hnew := find?_of_subscribe hfirst h
  have hcapacity : b.capacity = max capacity 1 :=
    capacity_of_altered (hbefore.trans (altered_subscribe h))
  refine ⟨received_until_drop hsound hnew actions, fun hkept => ?_⟩
  rcases lane_after hsound hnew hkept [] with ⟨s, hs, hall, hlane⟩
  have hrun : Lane.opened.run (max capacity 1) (actions.filterMap (Action.turn? id)) =
      ⟨received id b actions, s.buffer, s.joined⟩ := by
    rw [← hcapacity]
    exact hlane.symm
  have hends := receive_eq_ended hs
  have hlater := sound_of_altered hsound (altered_after b actions)
  have hadmitted : received id b actions ++ s.buffer = admitted id b actions := hall.symm
  refine ⟨s, hs, hadmitted, hrun, ?_, ?_, fun hleft more hmore => ?_⟩
  · have hjoined := Lane.joined_run (max capacity 1) Lane.opened
      (actions.filterMap (Action.turn? id))
    rw [leave_mem_iff, hrun, not_or, not_or] at hjoined
    exact ⟨fun hs' => ⟨(hjoined.1 hs').2.1, (hjoined.1 hs').2.2.2⟩,
      fun hstays => hjoined.2 ⟨rfl, hstays.1, hkept, hstays.2⟩⟩
  · rw [hends, ← hadmitted, List.self_eq_append_right]
  · -- From here on the lane of this subscription has been left.
    rcases lane_after hlater hs hmore (received id b actions) with ⟨s', -, -, hrest⟩
    rw [Lane.run_of_left _ hleft, count_take] at hrest
    rw [received, along_append]
    exact congrArg Lane.taken hrest

/-- A price of a symbol in whole units. -/
def quoteOf (units : Int64) : Quote := ⟨"BTC", .ofUnits units, ⟨0, 0⟩⟩

/-- Six quotes for a subscriber who takes two of them, loses one, and leaves before the last. -/
def lagging : List Action :=
  [.publish (quoteOf 1), .receive 1, .publish (quoteOf 2), .publish (quoteOf 3),
    .publish (quoteOf 4), .receive 1, .publish (quoteOf 5), .unsubscribe 1, .publish (quoteOf 6)]

/-- The other subscriber of the bus takes nothing all the while. The two quotes that are left are
given to the one who has gone, and then there are no more. -/
theorem stream_of_subscribe_lagging :
    ∃ b s, ((create 2).after [.subscribe]).subscribe = some (1, b) ∧
      (b.after lagging).find? 1 = some s ∧
      received 1 b lagging ++ s.buffer = admitted 1 b lagging ∧
      admitted 1 b lagging = [1, 2, 3, 5].map quoteOf ∧ received 1 b lagging = [1, 2].map quoteOf ∧
      s.joined = false ∧
      received 1 b (lagging ++ [.receive 1, .receive 0, .close, .receive 1]) =
        admitted 1 b lagging := by
  obtain ⟨b, h, hadmitted, hreceived, hactions⟩ : ∃ b,
      ((create 2).after [.subscribe]).subscribe = some (1, b) ∧
        admitted 1 b lagging = [1, 2, 3, 5].map quoteOf ∧
        received 1 b lagging = [1, 2].map quoteOf ∧ .drop 1 ∉ lagging :=
    ⟨_, rfl, rfl, rfl, by decide⟩
  rcases (stream_of_subscribe 2 [.subscribe] h lagging).2 hactions with
    ⟨s, hs, hall, -, hjoined, -, hleft⟩
  have hgone : s.joined = false := by
    rw [← Bool.not_eq_true, hjoined]
    exact fun hstays => absurd hstays.1 (by decide)
  have hbuffer : s.buffer = [3, 5].map quoteOf := by
    rw [hadmitted, hreceived] at hall
    exact (List.append_right_inj ([1, 2].map quoteOf)).1 hall
  refine ⟨b, s, h, hs, hall, hadmitted, hreceived, hgone, ?_⟩
  rw [hleft hgone _ (by decide), ← hall, hbuffer]
  rfl

end Bus

namespace Broadcast

open Bus

/-- The dispatch hands a quote to the bus, closes it, or leaves it alone. -/
theorem bus_of_dispatch? {b b' : Broadcast} (h : b.dispatch? = some b') :
    ∃ actions, b'.bus = b.bus.after actions ∧
      ∀ a ∈ actions, a = .close ∨ ∃ q ∈ b.awaiting, a = .publish q := by
  unfold dispatch? at h
  split at h
  · exact absurd h (by simp only [reduceCtorEq, not_false_eq_true])
  · split at h
    · rw [← Option.some.inj h]
      exact ⟨[], rfl, fun _ ha => absurd ha List.not_mem_nil⟩
    · split at h
      · next q rest hawaiting =>
        rw [← Option.some.inj h]
        refine ⟨[.publish q], rfl, fun a ha => Or.inr ⟨q, ?_, List.mem_singleton.1 ha⟩⟩
        rw [hawaiting]
        exact List.mem_cons_self
      · split at h
        · exact absurd h (by simp only [reduceCtorEq, not_false_eq_true])
        · rw [← Option.some.inj h]
          exact ⟨[.close], rfl, fun a ha => Or.inl (List.mem_singleton.1 ha)⟩

/-- However long the dispatch goes on, it does to the bus what publishing and closing do. -/
theorem bus_of_run (fuel : Nat) (b : Broadcast) :
    ∃ actions, (run fuel b).bus = b.bus.after actions ∧
      ∀ a ∈ actions, a = .close ∨ ∃ q, a = .publish q := by
  induction fuel generalizing b with
  | zero => exact ⟨[], rfl, fun _ ha => absurd ha List.not_mem_nil⟩
  | succ fuel ih =>
      rw [run]
      split
      · next b' hb' =>
        rcases bus_of_dispatch? hb' with ⟨first, hfirst, hkinds⟩
        rcases ih b' with ⟨rest, hrest, hkinds'⟩
        refine ⟨first ++ rest, ?_, fun a ha => ?_⟩
        · rw [hrest, hfirst, after_append]
        · rcases List.mem_append.1 ha with hmem | hmem
          · rcases hkinds a hmem with hclose | ⟨q, -, hq⟩
            · exact Or.inl hclose
            · exact Or.inr ⟨q, hq⟩
          · exact hkinds' a hmem
      · exact ⟨[], rfl, fun _ ha => absurd ha List.not_mem_nil⟩

end Broadcast

end Bourse
