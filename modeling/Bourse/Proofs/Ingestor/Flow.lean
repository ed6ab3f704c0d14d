import Bourse.Proofs.Feed.Tending
import Bourse.Proofs.Ingestor.Books

/-!
# The Flow of Ticks

Where the ticks sent to an ingestor are. Those of the connection that it has were taken
or are still under way there, in the order in which they were sent. Of a connection that
it had before all were taken, unless the ingestor itself stopped in the middle of it. And
since it has one connection at a time, all ticks of one were taken before any of the next.

An ingestor changes the feed at its own connection only, and whatever is done to other
connections does not concern it.

## Main definitions

* `Ingestor.Event.connection?`, `Ingestor.Event.made`: the connection that an event is
  about, and the one it makes.
* `Ingestor.Flowing`: the books of an ingestor agree with what was sent and the feed.

## Theorems

* `connection_after`: an event changes the feed at its own connection only.
* `Flowing.of_same`: what happens elsewhere does not concern an ingestor.
* `flowing_of_step`, `flowing_start`, `flowing_tend`: the books go on agreeing.
-/

namespace Bourse

namespace Ingestor

/-- The connection that an event is about, where the ingestor has one. -/
def Event.connection? : Event → Option Nat
  | .took c _ | .lost c | .stopped (.streaming c) | .stopped (.sending c _) => some c
  | _ => none

/-- The connection that an event makes. -/
def Event.made : Event → List Nat
  | .opened c _ | .connected c => [c]
  | _ => []

variable {s : IngestorSettings} {f f' : StagedFeed} {sent sent' : Nat → List RawTick}
  {w w' : Ingestor} {e : Event} {b b' : Books} {c d : Nat}

/-! ## Events and the feed -/

/-- An event changes the feed at its own connection only. -/
theorem connection_after (hlt : d < f.connections.length) (hne : e.connection? ≠ some d) :
    (f.after e).connections[d]? = f.connections[d]? := by
  have hkept : f.connect.2.connections[d]? = f.connections[d]? := by
    rcases f.cases_of_connect with ⟨-, hnew⟩ | ⟨-, hsame⟩
    · rw [hnew, List.getElem?_append_left hlt]
    · rw [hsame]
  have hrelease : ∀ {c}, c ≠ d → (f.release c).connections[d]? = f.connections[d]? := by
    intro c hc
    rw [StagedFeed.release, StagedFeed.connection_change, if_neg hc]
  cases e with
  | took c t =>
      rw [StagedFeed.after, StagedFeed.take, StagedFeed.connection_change,
        if_neg (fun hc => hne (congrArg some hc))]
  | lost c => exact hrelease (fun hc => hne (congrArg some hc))
  | connected c => exact hkept
  | failed => exact hkept
  | stopped phase =>
      cases phase with
      | streaming c => exact hrelease (fun hc => hne (congrArg some hc))
      | sending c q => exact hrelease (fun hc => hne (congrArg some hc))
      | _ => rfl
  | _ => rfl

/-- No event takes a connection away. -/
theorem length_le_after (f : StagedFeed) (e : Event) :
    f.connections.length ≤ (f.after e).connections.length := by
  have hkept : f.connections.length ≤ f.connect.2.connections.length := by
    rcases f.cases_of_connect with ⟨-, hnew⟩ | ⟨-, hsame⟩
    · rw [hnew, List.length_append]
      exact Nat.le_add_right _ _
    · exact Nat.le_of_eq (congrArg List.length hsame).symm
  cases e with
  | took c t => exact Nat.le_of_eq (f.length_change c _).symm
  | lost c => exact Nat.le_of_eq (f.length_change c _).symm
  | connected c => exact hkept
  | failed => exact hkept
  | stopped phase =>
      cases phase with
      | streaming c => exact Nat.le_of_eq (f.length_change c _).symm
      | sending c q => exact Nat.le_of_eq (f.length_change c _).symm
      | _ => exact Nat.le_refl _
  | _ => exact Nat.le_refl _

/-- The connection that an event is about is the one that the ingestor has. -/
theorem connection?_of_step (hstep : Step s w e w') (he : e.connection? = some c) :
    w.connection? = some c := by
  cases hstep with
  | quote c t q hphase hdecode =>
      rw [connection?, hphase]
      exact he
  | reject c t e hphase hdecode =>
      rw [connection?, hphase]
      exact he
  | lost c due hphase =>
      rw [connection?, hphase]
      exact he
  | stopped hstopping =>
      unfold connection?
      cases hphase : w.phase with
      | streaming c =>
          rw [hphase] at he
          exact he
      | sending c q =>
          rw [hphase] at he
          exact he
      | _ =>
          rw [hphase] at he
          exact absurd he.symm (Option.some_ne_none c)
  | _ => exact absurd he.symm (Option.some_ne_none c)

/-- The connection that an event makes is a new one of the feed. -/
theorem eq_length_of_made (hfinds : f.Finds e) (hstep : Step s w e w') (hc : c ∈ e.made) :
    c = f.connections.length := by
  cases hstep with
  | connected due d hphase =>
      rw [Event.made, List.mem_singleton] at hc
      have hconnect : f.connect.1 = .ok d := hfinds
      rcases f.cases_of_connect with ⟨hnew, -⟩ | ⟨⟨fault, hnone⟩, -⟩
      · rw [hc]
        exact Except.ok.inj (hconnect.symm.trans hnew)
      · exact absurd (hconnect.symm.trans hnone)
          (by simp only [reduceCtorEq, not_false_eq_true])
  | _ => exact absurd hc List.not_mem_nil

theorem Books.connections_note (b : Books) (e : Event) :
    (b.note e).connections = b.connections ++ e.made := by
  cases e with
  | opened c fired => rfl
  | connected c => rfl
  | stopped phase =>
      cases phase with
      | _ => exact (List.append_nil _).symm
  | _ => exact (List.append_nil _).symm

theorem Books.takenFrom_took (b : Books) (c d : Nat) (t : RawTick) :
    (b.note (.took c t)).takenFrom d = b.takenFrom d ++ if c = d then [t] else [] := by
  simp only [Books.takenFrom, Books.note, List.filter_append, List.map_append, List.filter_cons,
    List.filter_nil, decide_eq_true_eq]
  by_cases h : c = d
  · rw [if_pos h, if_pos h]
    rfl
  · rw [if_neg h, if_neg h]
    rfl

/-! ## The ticks of one ingestor -/

/-- The books agree with what was sent and with the feed. -/
structure Flowing (f : StagedFeed) (sent : Nat → List RawTick) (w : Ingestor) (b : Books) :
    Prop where
  /-- The connection that the ingestor has is the newest one. -/
  newest : ∀ c, w.connection? = some c → b.connections.getLast? = some c
  /-- Its ticks were taken or are under way. -/
  held : ∀ c, w.connection? = some c → ∃ x, f.connections[c]? = some x ∧ x.receiving = true ∧
    sent c = b.takenFrom c ++ x.ticks
  /-- Nothing is under way to the ingestor through any other. -/
  past : ∀ c ∈ b.connections, w.connection? ≠ some c →
    (∃ x, f.connections[c]? = some x ∧ x.receiving = false) ∧ b.takenFrom c <+: sent c ∧
      (c ∉ b.cut → b.takenFrom c = sent c)
  rising : b.connections.Pairwise (· < ·)
  owned : ∀ p ∈ b.takings, p.1 ∈ b.connections
  ordered : b.takings.map (·.2) = b.connections.flatMap b.takenFrom

theorem Flowing.mem_of_held (h : Flowing f sent w b) (hc : w.connection? = some c) :
    c ∈ b.connections := List.mem_of_getLast? (h.newest c hc)

/-- The connections of an ingestor are connections of the feed. -/
theorem Flowing.lt_length (h : Flowing f sent w b) (hc : c ∈ b.connections) :
    c < f.connections.length := by
  by_cases hheld : w.connection? = some c
  · rcases h.held c hheld with ⟨x, hx, -⟩
    exact (List.getElem?_eq_some_iff.1 hx).1
  · rcases (h.past c hc hheld).1 with ⟨x, hx, -⟩
    exact (List.getElem?_eq_some_iff.1 hx).1

theorem Flowing.isPrefix (h : Flowing f sent w b) (hc : c ∈ b.connections) :
    b.takenFrom c <+: sent c := by
  by_cases hheld : w.connection? = some c
  · rcases h.held c hheld with ⟨x, -, -, hsent⟩
    rw [hsent]
    exact List.prefix_append _ _
  · exact (h.past c hc hheld).2.1

theorem takenFrom_congr (htakings : b'.takings = b.takings) : b'.takenFrom = b.takenFrom := by
  funext c
  rw [Books.takenFrom, Books.takenFrom, htakings]

/-- Nothing was taken from a connection that the ingestor never had. -/
theorem Flowing.takenFrom_eq_nil (h : Flowing f sent w b) (hc : c ∉ b.connections) :
    b.takenFrom c = [] := by
  rw [Books.takenFrom, List.filter_eq_nil_iff.2 (fun p hp hpc => ?_), List.map_nil]
  rw [decide_eq_true_eq] at hpc
  exact hc (hpc ▸ h.owned p hp)

/-- What leaves the connections of an ingestor alone, and what was sent through them, does not
concern it. -/
theorem Flowing.of_same (h : Flowing f sent w b) (hconnection : w'.connection? = w.connection?)
    (htakings : b'.takings = b.takings) (hconnections : b'.connections = b.connections)
    (hcut : b'.cut = b.cut)
    (hfeed : ∀ c ∈ b.connections, f'.connections[c]? = f.connections[c]?)
    (hsent : ∀ c ∈ b.connections, sent' c = sent c) : Flowing f' sent' w' b' := by
  have htaken := takenFrom_congr htakings
  refine ⟨?_, ?_, ?_, ?_, ?_, ?_⟩
  · rw [hconnection, hconnections]
    exact h.newest
  · rw [hconnection, htaken]
    intro c hc
    rw [hfeed c (h.mem_of_held hc), hsent c (h.mem_of_held hc)]
    exact h.held c hc
  · rw [hconnection, hconnections, hcut, htaken]
    intro c hc hnot
    rw [hfeed c hc, hsent c hc]
    exact h.past c hc hnot
  · rw [hconnections]
    exact h.rising
  · rw [htakings, hconnections]
    exact h.owned
  · rw [htakings, hconnections, htaken]
    exact h.ordered

/-- An ingestor may let go of its connection once it has taken all ticks of it, or if it stops. -/
theorem Flowing.of_released (h : Flowing f sent w b) (hheld : w.connection? = some c)
    (hgone : w'.connection? = none) (htakings : b'.takings = b.takings)
    (hconnections : b'.connections = b.connections) (hcut : ∀ d ∈ b.cut, d ∈ b'.cut)
    (htaken : c ∈ b'.cut ∨ b.takenFrom c = sent c) : Flowing (f.release c) sent w' b' := by
  have hsame := takenFrom_congr htakings
  refine ⟨?_, ?_, ?_, ?_, ?_, ?_⟩
  · rw [hgone]
    exact fun d hd => absurd hd.symm (Option.some_ne_none d)
  · rw [hgone]
    exact fun d hd => absurd hd.symm (Option.some_ne_none d)
  · rw [hconnections, hsame]
    intro d hd hnot
    rw [StagedFeed.release, StagedFeed.connection_change]
    -- Only the connection let go of becomes a past one.
    by_cases hdc : c = d
    · subst hdc
      rcases h.held c hheld with ⟨x, hx, -, hsent⟩
      refine ⟨⟨{ x with receiving := false, ticks := [] }, ?_, rfl⟩, h.isPrefix hd,
        fun hnotcut => htaken.resolve_left hnotcut⟩
      rw [if_pos rfl, hx, Option.map_some]
    · rw [if_neg hdc]
      have hpast := h.past d hd (fun hd' => hdc (Option.some.inj (hheld.symm.trans hd')))
      exact ⟨hpast.1, hpast.2.1, fun hnotcut => hpast.2.2 (fun hmem => hnotcut (hcut d hmem))⟩
  · rw [hconnections]
    exact h.rising
  · rw [htakings, hconnections]
    exact h.owned
  · rw [htakings, hconnections, hsame]
    exact h.ordered

/-- An ingestor without a connection may get a new one of the feed. -/
theorem Flowing.of_connected (h : Flowing f sent w b) (hnone : w.connection? = none)
    (hunsent : ∀ c, f.connections.length ≤ c → sent c = [])
    (hconnect : f.connect.1 = .ok c) (hheld : w'.connection? = some c)
    (htakings : b'.takings = b.takings) (hconnections : b'.connections = b.connections ++ [c])
    (hcut : b'.cut = b.cut) : Flowing f.connect.2 sent w' b' := by
  have hsame := takenFrom_congr htakings
  rcases f.cases_of_connect with ⟨hnumber, hnew⟩ | ⟨⟨fault, hfault⟩, -⟩
  · -- Connections are numbered in order, so the new one is after all in the books.
    have hc : c = f.connections.length := Except.ok.inj (hconnect.symm.trans hnumber)
    have hnot : c ∉ b.connections := fun hmem => absurd (h.lt_length hmem) (by omega)
    refine ⟨?_, ?_, ?_, ?_, ?_, ?_⟩
    · rw [hheld, hconnections]
      exact fun d hd => List.getLast?_concat.trans hd
    · rw [hheld, hsame]
      intro d hd
      cases Option.some.inj hd
      refine ⟨⟨[], true, true⟩, ?_, rfl, ?_⟩
      · rw [hnew, hc, List.getElem?_concat_length]
      · rw [hunsent c (Nat.le_of_eq hc.symm), h.takenFrom_eq_nil hnot]
        rfl
    · rw [hheld, hconnections, hcut, hsame]
      intro d hd hne
      rcases List.mem_append.1 hd with hmem | hmem
      · rw [hnew, List.getElem?_append_left (h.lt_length hmem)]
        exact h.past d hmem (hnone ▸ (Option.some_ne_none d).symm)
      · rw [List.mem_singleton] at hmem
        exact absurd (congrArg some hmem.symm) hne
    · rw [hconnections, List.pairwise_append]
      refine ⟨h.rising, List.pairwise_singleton _ _, fun d hd d' hd' => ?_⟩
      rw [List.mem_singleton.1 hd', hc]
      exact h.lt_length hd
    · rw [htakings, hconnections]
      exact fun p hp => List.mem_append_left _ (h.owned p hp)
    · rw [htakings, hconnections, hsame, List.flatMap_append, h.ordered, List.flatMap_singleton,
        h.takenFrom_eq_nil hnot, List.append_nil]
  · exact absurd (hconnect.symm.trans hfault) (by simp only [reduceCtorEq, not_false_eq_true])

/-- The next tick of its connection may be taken. -/
theorem Flowing.of_took {t : RawTick} (h : Flowing f sent w b) (hheld : w.connection? = some c)
    (hpeek : f.peek? c = some t) (hkept : w'.connection? = some c) :
    Flowing (f.take c) sent w' (b.note (.took c t)) := by
  rcases h.held c hheld with ⟨x, hx, hreceiving, hsent⟩
  rcases List.getLast?_eq_some_iff.1 (h.newest c hheld) with ⟨older, holder⟩
  obtain ⟨rest, hticks⟩ : ∃ rest, x.ticks = t :: rest := by
    rw [StagedFeed.peek?, hx, Option.bind_some] at hpeek
    exact List.head?_eq_some_iff.1 hpeek
  have hrising := h.rising
  rw [holder, List.pairwise_append] at hrising
  have hother : ∀ d ∈ older, c ≠ d := fun d hd =>
    (Nat.ne_of_lt (hrising.2.2 d hd c (List.mem_singleton_self c))).symm
  refine ⟨?_, ?_, ?_, h.rising, ?_, ?_⟩
  · rw [hkept]
    exact fun d hd => (h.newest c hheld).trans hd
  · rw [hkept]
    intro d hd
    cases Option.some.inj hd
    refine ⟨{ x with ticks := rest }, ?_, hreceiving, ?_⟩
    · rw [StagedFeed.take, StagedFeed.connection_change, if_pos rfl, hx, Option.map_some, hticks]
      rfl
    · rw [Books.takenFrom_took, if_pos rfl, hsent, hticks, List.append_assoc]
      rfl
  · rw [hkept]
    intro d hd hne
    have hdc : c ≠ d := fun heq => hne (congrArg some heq)
    rw [StagedFeed.take, StagedFeed.connection_change, if_neg hdc, Books.takenFrom_took,
      if_neg hdc, List.append_nil]
    exact h.past d hd (hheld ▸ hne)
  · intro p hp
    rcases List.mem_append.1 hp with hmem | hmem
    · exact h.owned p hmem
    · rw [List.mem_singleton.1 hmem]
      exact h.mem_of_held hheld
  · -- The tick is the last one of the last connection.
    have holdest : older.flatMap (b.note (.took c t)).takenFrom = older.flatMap b.takenFrom := by
      refine List.flatMap_congr fun d hd => ?_
      rw [Books.takenFrom_took, if_neg (hother d hd), List.append_nil]
    have hordered := h.ordered
    rw [holder, List.flatMap_append, List.flatMap_singleton] at hordered
    rw [show (b.note (.took c t)).connections = older ++ [c] from holder, List.flatMap_append,
      List.flatMap_singleton, holdest, Books.takenFrom_took, if_pos rfl, ← List.append_assoc,
      ← hordered]
    exact List.map_append

/-- The books go on agreeing with the feed, whatever happens to the ingestor. -/
theorem flowing_of_step (h : Flowing f sent w b)
    (hunsent : ∀ c, f.connections.length ≤ c → sent c = []) (hstep : Step s w e w')
    (hfinds : f.Finds e) : Flowing (f.after e) sent w' (b.note e) := by
  cases hstep with
  | quote c t q hphase hdecode =>
      exact h.of_took (by rw [connection?, hphase]) hfinds rfl
  | reject c t e hphase hdecode =>
      have hheld : w.connection? = some c := by rw [connection?, hphase]
      exact h.of_took hheld hfinds hheld
  | put c q hphase hconsumed hroom =>
      refine h.of_same ?_ rfl rfl rfl (fun _ _ => rfl) (fun _ _ => rfl)
      simp only [connection?, hphase, afterPut]
  | lost c due hphase =>
      have hheld : w.connection? = some c := by rw [connection?, hphase]
      refine h.of_released hheld rfl rfl rfl (fun _ hd => hd) (Or.inr ?_)
      rcases h.held c hheld with ⟨x, hx, -, hsent⟩
      have hnone := hfinds.1
      rw [StagedFeed.peek?, hx, Option.bind_some, List.head?_eq_none_iff] at hnone
      rw [hsent, hnone, List.append_nil]
  | tried due due' hphase =>
      refine h.of_same ?_ rfl rfl rfl (fun _ _ => rfl) (fun _ _ => rfl)
      rw [connection?, connection?, hphase]
  | connected due c hphase =>
      exact h.of_connected (by rw [connection?, hphase]) hunsent hfinds rfl rfl rfl rfl
  | failed due due' hphase =>
      refine h.of_same ?_ rfl rfl rfl (fun d hd => ?_) (fun _ _ => rfl)
      · rw [connection?, connection?, hphase]
      · exact connection_after (h.lt_length hd) (Option.some_ne_none d).symm
  | stopped hstopping =>
      cases hphase : w.phase with
      | streaming c =>
          refine h.of_released (by rw [connection?, hphase]) rfl rfl rfl
            (fun _ hd => List.mem_append_left _ hd)
            (Or.inl (List.mem_append_right _ (List.mem_singleton_self c)))
      | sending c q =>
          refine h.of_released (by rw [connection?, hphase]) rfl rfl rfl
            (fun _ hd => List.mem_append_left _ hd)
            (Or.inl (List.mem_append_right _ (List.mem_singleton_self c)))
      | _ =>
          refine h.of_same ?_ rfl rfl rfl (fun _ _ => rfl) (fun _ _ => rfl)
          rw [connection?, connection?, hphase]
  | received q rest houtput => exact h.of_same rfl rfl rfl rfl (fun _ _ => rfl) (fun _ _ => rfl)
  | left => exact h.of_same rfl rfl rfl rfl (fun _ _ => rfl) (fun _ _ => rfl)
  | told => exact h.of_same rfl rfl rfl rfl (fun _ _ => rfl) (fun _ _ => rfl)

/-- The books of an ingestor that has just been started agree with the feed. -/
theorem flowing_start (fired : Bool) (hunsent : ∀ c, f.connections.length ≤ c → sent c = [])
    (hconnect : f.connect.1 = .ok c) :
    Flowing f.connect.2 sent (start c fired) (Books.empty.note (.opened c fired)) := by
  have hempty : Flowing f sent { start c fired with phase := .terminated } Books.empty :=
    ⟨fun d hd => absurd hd.symm (Option.some_ne_none d),
      fun d hd => absurd hd.symm (Option.some_ne_none d),
      fun _ hd => absurd hd List.not_mem_nil, List.Pairwise.nil,
      fun _ hp => absurd hp List.not_mem_nil, rfl⟩
  exact hempty.of_connected rfl hunsent hconnect rfl rfl rfl rfl

/-- They agree with the feed after it has been tended, with the ticks sent by it. -/
theorem flowing_tend (h : Flowing f sent w b) (t : StagedFeed.Tending) :
    Flowing (f.tend t) (fun c => sent c ++ f.sends c t) w b := by
  refine ⟨h.newest, fun c hc => ?_, fun c hc hne => ?_, h.rising, h.owned, h.ordered⟩
  · rcases h.held c hc with ⟨x, hx, hreceiving, hsent⟩
    rcases StagedFeed.connection_tend t hx with ⟨y, hy, hsame, hticks, -⟩
    refine ⟨y, hy, hsame.trans hreceiving, ?_⟩
    rw [hsent, hticks, List.append_assoc]
  · rcases h.past c hc hne with ⟨⟨x, hx, hreceiving⟩, hfront, hall⟩
    rcases StagedFeed.connection_tend t hx with ⟨y, hy, hsame, -, hnone⟩
    refine ⟨⟨y, hy, hsame.trans hreceiving⟩, ?_⟩
    simp only [hnone hreceiving, List.append_nil]
    exact ⟨hfront, hall⟩

end Ingestor

end Bourse
