import Bourse.Proofs.Ledger.Tidy
import Bourse.Proofs.Valuation.Reports

/-!
# The Ledger and Its Survey

A valuation run is a task of the ledger, and so is every valuation that it starts. The
ledger takes their steps in an order of its own, between those of all other tasks. Every
state that it gets into in that way, as long as nothing goes wrong with its calls, is one
that a survey gets into as well, and the result that it keeps is that of the survey. So
what is known of surveys is known of the ledger.

A valuation keeps its place in the survey when it has ended, while its task is gone. So
the number of the task of each valuation is kept beside the survey.

## Main definitions

* `Survey.Advances`: at most one step of a survey.
* `Ledger.Seat`: what a task is in a survey.
* `Ledger.Hosts`: a ledger of which one task is the run of a survey.
* `Ledger.OnSurvey`: a ledger that hosts a survey after some steps.

## Theorems

* `Ledger.hosts_of_takes`: a step of a task is at most one step of the survey.
* `Ledger.onSurvey_spawn`: a run that begins is that of a survey.
* `Ledger.onSurvey_settle`: all that the ledger does at one time keeps it on the survey.
* `Ledger.surveyed_of_onSurvey`: what the run has done when its result is there.
-/

namespace Bourse

/-- An operation within another ends as it would alone. -/
theorem Progress.ending?_map (f : σ → τ) (g : ρ → ρ') (p : Progress κ σ ρ) :
    (p.map f g).ending? = p.ending?.map (Option.map g) := by
  cases p <;> rfl

/-- What an operation within another starts is what it would start alone. -/
theorem Progress.starting_of_map {f : σ → τ} {g : ρ → ρ'} {p : Progress κ σ ρ} {child : κ} {y : τ}
    (h : p.map f g = .starting child y) : ∃ x, p = .starting child x ∧ y = f x := by
  cases p with
  | starting child' x =>
      cases h
      exact ⟨x, rfl, rfl⟩
  | _ => cases h

theorem Progress.sleeping_of_map {f : σ → τ} {g : ρ → ρ'} {p : Progress κ σ ρ} {due : Nat} {y : τ}
    (h : p.map f g = .sleeping due y) : ∃ x, p = .sleeping due x := by
  cases p with
  | sleeping due' x =>
      cases h
      exact ⟨x, rfl⟩
  | _ => cases h

theorem Progress.abandoning_of_map {f : σ → τ} {g : ρ → ρ'} {p : Progress κ σ ρ} {y : τ}
    (h : p.map f g = .abandoning y) : ∃ x, p = .abandoning x := by
  cases p with
  | abandoning x => exact ⟨x, rfl⟩
  | _ => cases h

/-- A valuation calls or has ended. -/
theorem UserValuation.next_cases (x : UserValuation) :
    (∃ c k, @next κ x = .calling c none k) ∨ ∃ r, @next κ x = .finished r := by
  unfold next
  split
  · exact .inl ⟨_, _, rfl⟩
  · exact .inl ⟨_, _, rfl⟩
  · next r _ => exact .inr ⟨r, rfl⟩

namespace ValuationRun

/-- A run neither sleeps nor gives up what it has started. -/
theorem next_ne (x : ValuationRun) :
    (∀ due y, x.next ≠ .sleeping due y) ∧ ∀ y, x.next ≠ .abandoning y := by
  refine ⟨fun due y h => ?_, fun y h => ?_⟩ <;>
  · unfold next list at h
    split at h <;> (try split at h) <;> cases h

/-- A run starts a valuation of the next user on its page. -/
theorem visiting_of_starting {x y : ValuationRun} {child : UserValuation}
    (h : x.next = .starting child y) : ∃ u page more, x.phase = .visiting (u :: page) more := by
  unfold next list at h
  split at h
  · split at h <;> cases h
  · cases h
  · cases h
  · next u page more hphase => exact ⟨u, page, more, hphase⟩
  · cases h
  · split at h <;> cases h
  · cases h
  · cases h

end ValuationRun

/-- At most one step of a survey, which leaves documents under their own ids. -/
def Survey.Advances (s s' : Survey) : Prop :=
  s' = s ∨ ∃ a, s.step? a = some s' ∧ ∀ now c, a = .aside now c → c.IsProper

/-- A step of the run or of a valuation leaves all documents as they are. -/
theorem Survey.Advances.own {s s' : Survey} {a : Survey.Action} (h : s.step? a = some s')
    (ha : a.isOwn = true) : s.Advances s' := by
  refine .inr ⟨a, h, fun now c heq => ?_⟩
  rw [heq] at ha
  cases ha

namespace Ledger

/-- What a task is in a survey: the run, a valuation that has not ended, or neither. -/
structure Seat (root : Nat) (s : Survey) (ids : List Nat) (t : Task) : Prop where
  run : t.id = root → t.parent = none ∧ t.operation = .valuation s.run
  child : t.parent = some root → ∃ (n : Nat) (u : User) (x : UserValuation),
    ids[n]? = some t.id ∧ s.valuings[n]? = some ⟨u, x, false⟩ ∧ t.operation = .userValuation x

/-- A ledger of which one task is the run of a survey, over the same books. When that task is gone,
the result is that of the survey. -/
structure Hosts (l : Ledger) (root : Nat) (s : Survey) (ids : List Nat) : Prop where
  books : l.shared.books = s.books
  root_lt : root < l.nextId
  length : ids.length = s.valuings.length
  seats : ∀ t ∈ l.tasks, Seat root s ids t
  alone : (∀ t ∈ l.tasks, t.id ≠ root) → ∀ t ∈ l.tasks, t.parent ≠ some root
  result : ∀ o, l.results.get? root = some o → (∀ t ∈ l.tasks, t.id ≠ root) ∧
    ∀ x, o = some x → ∃ r, x = .valuation r ∧ s.result? = some r

variable {l l' : Ledger} {root : Nat} {s s' : Survey} {ids : List Nat} {t t' : Task} {d : Shared}

/-- A task that is neither the run nor started by it has the same seat in every survey. -/
theorem Seat.of_other (hid : t.id ≠ root) (hparent : t.parent ≠ some root) : Seat root s ids t :=
  ⟨fun heq => absurd heq hid, fun heq => absurd heq hparent⟩

/-- The seat of another task does not depend on the run. -/
theorem Seat.of_ne (h : Seat root s ids t) (hne : t.id ≠ root) (hvaluings : s'.valuings = s.valuings) :
    Seat root s' ids t := by
  refine ⟨fun heq => absurd heq hne, ?_⟩
  rw [hvaluings]
  exact h.child

/-- The run is not one of its own valuations. -/
theorem Seat.ne_root (h : Seat root s ids t) (hparent : t.parent = some root) : t.id ≠ root := by
  intro heq
  rw [(h.run heq).1] at hparent
  cases hparent

/-- A valuation is under way only while the run is. -/
theorem Hosts.exists_root (h : l.Hosts root s ids) (ht : t ∈ l.tasks) (hparent : t.parent = some root) :
    ∃ w ∈ l.tasks, w.id = root := by
  by_contra hgone
  exact h.alone (fun w hw heq => hgone ⟨w, hw, heq⟩) t ht hparent

/-- A ledger that has lost tasks hosts the same survey, if it has not lost the run alone. -/
theorem Hosts.of_tasks (h : l.Hosts root s ids) (hshared : l'.shared = l.shared)
    (hnext : l'.nextId = l.nextId) (hresults : l'.results = l.results)
    (htasks : ∀ t ∈ l'.tasks, t ∈ l.tasks)
    (hrun : (∃ t ∈ l.tasks, t.id = root) →
      (∃ t ∈ l'.tasks, t.id = root) ∨ ∀ u ∈ l'.tasks, u.parent ≠ some root) :
    l'.Hosts root s ids := by
  refine ⟨hshared ▸ h.books, hnext ▸ h.root_lt, h.length, fun t ht => h.seats t (htasks t ht),
    fun hgone => ?_, fun o ho => ?_⟩
  · -- Where the run was gone before, no valuation of it was left.
    by_cases hroot : ∃ t ∈ l.tasks, t.id = root
    · exact (hrun hroot).resolve_left (fun ⟨t, ht, hid⟩ => hgone t ht hid)
    · exact fun t ht => h.alone (fun u hu hid => hroot ⟨u, hu, hid⟩) t (htasks t ht)
  · rw [hresults] at ho
    rcases h.result o ho with ⟨hgone, hend⟩
    exact ⟨fun t ht => hgone t (htasks t ht), hend⟩

/-- Tasks that have changed, but not who started whom, host the survey after a step, or the same
one. -/
theorem Hosts.map {f : Task → Task} (h : l.Hosts root s ids) (hid : ∀ t ∈ l.tasks, (f t).id = t.id)
    (hparent : ∀ t ∈ l.tasks, ∃ u ∈ l.tasks, (f t).parent = u.parent)
    (hbooks : d.books = s'.books) (hlength : s'.valuings.length = s.valuings.length)
    (hseats : ∀ t ∈ l.tasks, Seat root s' ids (f t))
    (hresult : (∀ t ∈ l.tasks, t.id ≠ root) → s'.result? = s.result?) :
    ({ l with shared := d, tasks := l.tasks.map f } : Ledger).Hosts root s' ids := by
  refine ⟨hbooks, h.root_lt, h.length.trans hlength.symm, fun u hu => ?_, fun hgone u hu => ?_,
    fun o ho => ?_⟩
  · rcases List.mem_map.1 hu with ⟨t, ht, rfl⟩
    exact hseats t ht
  · rcases List.mem_map.1 hu with ⟨t, ht, rfl⟩
    rcases hparent t ht with ⟨w, hw, heq⟩
    rw [heq]
    exact h.alone (fun v hv => hid v hv ▸ hgone _ (List.mem_map_of_mem hv)) w hw
  · rcases h.result o ho with ⟨hgone, hend⟩
    refine ⟨fun u hu => ?_, fun x hx => ?_⟩
    · rcases List.mem_map.1 hu with ⟨t, ht, rfl⟩
      rw [hid t ht]
      exact hgone t ht
    · rw [hresult hgone]
      exact hend x hx

/-- A task that has changed is put back where the survey has taken a step, or none. -/
theorem Hosts.put (h : l.Hosts root s ids) (ht : t ∈ l.tasks) (hid : t'.id = t.id)
    (hparent : t'.parent = t.parent) (hbooks : d.books = s'.books)
    (hlength : s'.valuings.length = s.valuings.length) (hseat : Seat root s' ids t')
    (hothers : ∀ u ∈ l.tasks, u.id ≠ t.id → Seat root s' ids u)
    (hresult : t.id ≠ root → s'.result? = s.result?) :
    (({ l with shared := d } : Ledger).put t').Hosts root s' ids := by
  refine h.map (fun u hu => ?_) (fun u hu => ?_) hbooks hlength (fun u hu => ?_)
    (fun hgone => hresult (hgone t ht))
  · split
    · next heq => exact heq.symm
    · rfl
  · split
    · exact ⟨t, ht, hparent⟩
    · exact ⟨u, hu, rfl⟩
  · split
    · exact hseat
    · next hne => exact hothers u hu (hid ▸ hne)

/-- A task that waits is still what it was. -/
theorem Hosts.wait (h : l.Hosts root s ids) (ht : t ∈ l.tasks) (hold : Hold) :
    (l.put { t with hold }).Hosts root s ids :=
  h.put ht rfl rfl h.books rfl ⟨(h.seats t ht).run, (h.seats t ht).child⟩ (fun u hu _ => h.seats u hu)
    (fun _ => rfl)

/-- Any task may be given up. With the run, all its valuations are. -/
theorem Hosts.cancel (h : l.Hosts root s ids) (id : Nat) : (l.cancel id).Hosts root s ids := by
  refine h.of_tasks rfl rfl rfl (fun w hw => (mem_cancel.1 hw).1) (fun ⟨w, hw, hroot⟩ => ?_)
  by_cases hid : id = root
  · exact .inr (fun u hu => hid ▸ (mem_cancel.1 hu).2.2)
  · refine .inl ⟨w, mem_cancel.2 ⟨hw, fun heq => hid (heq.symm.trans hroot), ?_⟩, hroot⟩
    rw [((h.seats w hw).run hroot).1]
    exact (Option.some_ne_none _).symm

/-! ## Steps of the run -/

/-- The run has started a valuation, whose task is a new one. -/
theorem Hosts.add_child (h : l.Hosts root s ids) (hroot : ∃ t ∈ l.tasks, t.id = root) (u : User)
    (x : UserValuation) :
    (l.add (some root) (.userValuation x)).Hosts root
      { s with valuings := s.valuings ++ [⟨u, x, false⟩] } (ids ++ [l.nextId]) := by
  rcases hroot with ⟨t, ht, hid⟩
  refine ⟨h.books, Nat.lt_succ_of_lt h.root_lt, ?_, fun w hw => ?_, fun hgone => ?_, fun o ho => ?_⟩
  · rw [List.length_append, List.length_append, h.length]
    rfl
  · rcases List.mem_append.1 hw with hold | hnew
    · refine ⟨(h.seats w hold).run, fun heq => ?_⟩
      rcases (h.seats w hold).child heq with ⟨n, u', x', hn, hv, hx'⟩
      have hlt := (List.getElem?_eq_some_iff.1 hn).1
      refine ⟨n, u', x', ?_, ?_, hx'⟩
      · rw [List.getElem?_append_left hlt]
        exact hn
      · rw [List.getElem?_append_left (h.length ▸ hlt)]
        exact hv
    · rw [List.mem_singleton.1 hnew]
      refine ⟨fun heq => absurd heq h.root_lt.ne', fun _ => ?_⟩
      refine ⟨ids.length, u, x, List.getElem?_concat_length, ?_, rfl⟩
      rw [h.length]
      exact List.getElem?_concat_length
  · exact absurd hid (hgone t (List.mem_append_left _ ht))
  · exact absurd hid ((h.result o ho).1 t ht)

/-- The run has ended, and its valuations are given up. -/
theorem Hosts.end_run (h : l.Hosts root s ids) (hid : t.id = root) (hparent : t.parent = none)
    {o : Option (Except TradeError ValuationReport)} (ho : s.run.next.ending? = some o) :
    (l.finish t (o.map .valuation)).Hosts root s ids := by
  have hcancel := h.cancel t.id
  have hgone : ∀ u ∈ (l.cancel t.id).tasks, u.id ≠ root :=
    fun u hu => hid ▸ (mem_cancel.1 hu).2.1
  simp only [finish, hparent]
  refine ⟨hcancel.books, hcancel.root_lt, hcancel.length, hcancel.seats, hcancel.alone,
    fun o' ho' => ⟨hgone, fun x hx => ?_⟩⟩
  rw [hid, Table.get?_insert_self] at ho'
  rw [← Option.some.inj ho'] at hx
  rcases Option.map_eq_some_iff.1 hx with ⟨r, rfl, rfl⟩
  refine ⟨r, rfl, ?_⟩
  -- The run of the survey stays where it is, at the end that the task has come to.
  unfold Progress.ending? at ho
  split at ho
  · next r' hr' =>
    rw [Survey.result?, hr']
    exact Option.some.inj ho
  · cases ho
  · cases ho

/-- A step of the run. -/
theorem hosts_of_run {now : Nat} {st : Stepped} (h : l.Hosts root s ids) (ht : t ∈ l.tasks)
    (hid : t.id = root) (htakes : t.Takes now l.shared st d) :
    ∃ s' ids', s.Advances s' ∧ (({ l with shared := d } : Ledger).after t st).Hosts root s' ids' := by
  rcases (h.seats t ht).run hid with ⟨hparent, hop⟩
  have hnext : t.operation.next = s.run.next.map .valuation .valuation := by
    rw [hop]
    rfl
  have hothers : ∀ {s' : Survey}, s'.valuings = s.valuings → ∀ u ∈ l.tasks, u.id ≠ t.id →
      Seat root s' ids u :=
    fun hvaluings u hu hne => (h.seats u hu).of_ne (fun heq => hne (heq.trans hid.symm)) hvaluings
  have hself : ∀ {s' : Survey} {x : Task}, x.parent = t.parent → x.operation = .valuation s'.run →
      Seat root s' ids x := by
    intro s' x hx hrun
    refine ⟨fun _ => ⟨hx.trans hparent, hrun⟩, fun heq => ?_⟩
    rw [hx, hparent] at heq
    cases heq
  cases htakes with
  | waits hold _ => exact ⟨s, ids, .inl rfl, h.wait ht hold⟩
  | hears news y hy =>
      rw [hnext] at hy
      rcases Operation.exists_of_hear? hy with ⟨run, hrun, rfl⟩
      refine ⟨{ s with run }, ids, .own (a := .hear news) (by rw [Survey.step?, hrun]; rfl) rfl, ?_⟩
      exact h.put ht rfl rfl h.books rfl (hself rfl rfl) (hothers rfl) (fun hne => absurd hid hne)
  | calls c deadline resume hcall =>
      rw [hnext] at hcall
      rcases Progress.calling_of_map hcall with ⟨d', k, hk, hresume⟩
      refine ⟨s.called now c k, ids, .own (a := .call now) (by simp only [Survey.step?, hk]) rfl, ?_⟩
      refine h.put ht rfl rfl ?_ rfl (hself rfl ?_) (hothers rfl) (fun hne => absurd hid hne)
      · simp only [h.books, Survey.called]
      · rw [hresume, h.books]
        rfl
  | ends o ho =>
      rw [hnext, Progress.ending?_map] at ho
      rcases Option.map_eq_some_iff.1 ho with ⟨o', ho', rfl⟩
      exact ⟨s, ids, .inl rfl, h.end_run hid hparent ho'⟩
  | sleeps due y hsleep =>
      rw [hnext] at hsleep
      rcases Progress.sleeping_of_map hsleep with ⟨x, hx⟩
      exact absurd hx ((ValuationRun.next_ne s.run).1 due x)
  | abandons y habandon =>
      rw [hnext] at habandon
      rcases Progress.abandoning_of_map habandon with ⟨x, hx⟩
      exact absurd hx ((ValuationRun.next_ne s.run).2 x)
  | starts child y hstart =>
      rw [hnext] at hstart
      rcases Progress.starting_of_map hstart with ⟨run, hrun, rfl⟩
      rcases ValuationRun.visiting_of_starting hrun with ⟨u, page, more, hphase⟩
      -- The run goes on first, and then the valuation gets its task.
      have hput : (l.put { t with operation := .valuation run }).Hosts root { s with run } ids :=
        h.put ht rfl rfl h.books rfl (hself rfl rfl) (hothers rfl) (fun hne => absurd hid hne)
      have hroot : ∃ w ∈ (l.put { t with operation := .valuation run }).tasks, w.id = root :=
        ⟨_, List.mem_map.2 ⟨t, ht, if_pos rfl⟩, hid⟩
      refine ⟨{ s with run, valuings := s.valuings ++ [⟨u, child, false⟩] }, ids ++ [l.nextId],
        .own (a := .start) (by simp only [Survey.step?, hphase, hrun]) rfl, ?_⟩
      subst hid
      exact hput.add_child hroot u child

/-! ## Steps of a valuation -/

/-- Where one valuation has changed, the other tasks sit where they sat. -/
theorem Hosts.seat_set {n : Nat} {v : Valuing} (h : l.Hosts root s ids) (hn : ids[n]? = some t.id)
    (hrun : s'.run = s.run) (hvaluings : s'.valuings = s.valuings.set n v) :
    ∀ w ∈ l.tasks, w.id ≠ t.id → Seat root s' ids w := by
  intro w hw hne
  have hseat := h.seats w hw
  refine ⟨?_, fun heq => ?_⟩
  · rw [hrun]
    exact hseat.run
  · rcases hseat.child heq with ⟨k, u, x, hk, hx, hop⟩
    refine ⟨k, u, x, hk, ?_, hop⟩
    -- Another task is that of another valuation.
    have hkn : n ≠ k := by
      rintro rfl
      exact hne (Option.some.inj (hk.symm.trans hn))
    rw [hvaluings, List.getElem?_set_ne hkn]
    exact hx

/-- A valuation has ended, and the run is told. -/
theorem Hosts.end_child {n : Nat} {u : User} {x : UserValuation} {r : Except TradeError Nat}
    (h : l.Hosts root s ids) (ht : t ∈ l.tasks) (hparent : t.parent = some root)
    (hn : ids[n]? = some t.id) :
    (l.finish t (some (.userValuation r))).Hosts root
      { s with run := s.run.ended r.toOption, valuings := s.valuings.set n ⟨u, x, true⟩ } ids := by
  have hfinish : l.finish t (some (.userValuation r)) = (l.cancel t.id).tell root r.toOption := by
    simp only [finish, hparent]
    cases r <;> rfl
  -- The run is still there to be told, since it is neither this task nor started by it.
  have hroot : ∃ w ∈ (l.cancel t.id).tasks, w.id = root := by
    rcases h.exists_root ht hparent with ⟨w, hw, hid⟩
    refine ⟨w, mem_cancel.2 ⟨hw, ?_, ?_⟩, hid⟩
    · exact fun heq => (h.seats t ht).ne_root hparent (heq.symm.trans hid)
    · rw [((h.seats w hw).run hid).1]
      exact (Option.some_ne_none _).symm
  have hseats : ∀ w ∈ l.tasks, w.id ≠ t.id →
      Seat root { s with valuings := s.valuings.set n ⟨u, x, true⟩ } ids w :=
    h.seat_set hn rfl rfl
  rw [hfinish]
  refine (h.cancel t.id).map (fun w _ => ?_) (fun w hw => ⟨w, hw, ?_⟩) h.books List.length_set
    (fun w hw => ?_) (fun hgone => ?_)
  · split <;> rfl
  · split <;> rfl
  · rw [mem_cancel] at hw
    have hseat := hseats w hw.1 hw.2.1
    split
    · next hid =>
      rcases hseat.run hid with ⟨hnone, hop⟩
      refine ⟨fun _ => ⟨hnone, ?_⟩, fun heq => absurd (heq.symm.trans hnone) (Option.some_ne_none _)⟩
      rw [hop]
      rfl
    · next hid => exact hseat.of_ne hid rfl
  · rcases hroot with ⟨w, hw, hid⟩
    exact absurd hid (hgone w hw)

/-- A step of a valuation that the run has started. -/
theorem hosts_of_child {now : Nat} {st : Stepped} (h : l.Hosts root s ids) (ht : t ∈ l.tasks)
    (hparent : t.parent = some root) (htakes : t.Takes now l.shared st d) :
    ∃ s', s.Advances s' ∧ (({ l with shared := d } : Ledger).after t st).Hosts root s' ids := by
  have hne := (h.seats t ht).ne_root hparent
  rcases (h.seats t ht).child hparent with ⟨n, u, x, hn, hv, hop⟩
  have hnext : t.operation.next = x.next.map .userValuation .userValuation := by
    rw [hop]
    rfl
  -- At a call it can only wait or call, and at its end only wait or end.
  rcases x.next_cases with ⟨c, k, hk⟩ | ⟨r, hr⟩
  · rw [hk] at hnext
    cases htakes with
    | waits hold _ => exact ⟨s, .inl rfl, h.wait ht hold⟩
    | calls c' deadline resume hcall =>
        rw [hnext] at hcall
        cases hcall
        refine ⟨_, .own (a := .value n now) (by simp only [Survey.step?, hv, hk]; rfl) rfl, ?_⟩
        refine h.put ht rfl rfl ?_ List.length_set
          ⟨fun heq => absurd heq hne, fun _ => ⟨n, u, _, hn, ?_, rfl⟩⟩ (h.seat_set hn rfl rfl)
          (fun _ => rfl)
        · simp only [h.books]
        · rw [h.books]
          exact List.getElem?_set_self (List.getElem?_eq_some_iff.1 hv).1
    | hears news y hy =>
        rw [hnext] at hy
        cases news <;> cases hy
    | ends _ hother | sleeps _ _ hother | starts _ _ hother | abandons _ hother =>
        rw [hnext] at hother
        cases hother
  · rw [hr] at hnext
    cases htakes with
    | waits hold _ => exact ⟨s, .inl rfl, h.wait ht hold⟩
    | ends o ho =>
        rw [hnext] at ho
        cases ho
        exact ⟨_, .own (a := .finish n) (by simp only [Survey.step?, hv, hr]; rfl) rfl,
          h.end_child ht hparent hn⟩
    | hears news y hy =>
        rw [hnext] at hy
        cases news <;> cases hy
    | calls _ _ _ hother | sleeps _ _ hother | starts _ _ hother | abandons _ hother =>
        rw [hnext] at hother
        cases hother

/-! ## Steps of others -/

/-- A task that the run has nothing to do with begins. -/
theorem Hosts.add_other {parent : Option Nat} (h : l.Hosts root s ids) (hparent : parent ≠ some root)
    (x : Operation) : (l.add parent x).Hosts root s ids := by
  refine ⟨h.books, Nat.lt_succ_of_lt h.root_lt, h.length, fun w hw => ?_, fun hgone w hw => ?_,
    fun o ho => ?_⟩
  · rcases List.mem_append.1 hw with hold | hnew
    · exact h.seats w hold
    · rw [List.mem_singleton.1 hnew]
      exact .of_other h.root_lt.ne' hparent
  · rcases List.mem_append.1 hw with hold | hnew
    · exact h.alone (fun v hv => hgone v (List.mem_append_left _ hv)) w hold
    · rw [List.mem_singleton.1 hnew]
      exact hparent
  · rcases h.result o ho with ⟨hgone, hend⟩
    refine ⟨fun w hw => ?_, hend⟩
    rcases List.mem_append.1 hw with hold | hnew
    · exact hgone w hold
    · rw [List.mem_singleton.1 hnew]
      exact h.root_lt.ne'

/-- The valuations of another task are given up. -/
theorem Hosts.orphan_other {id : Nat} (h : l.Hosts root s ids) : (l.orphan id).Hosts root s ids := by
  refine h.of_tasks rfl rfl rfl (fun w hw => (List.mem_filter.1 hw).1)
    (fun ⟨w, hw, hroot⟩ => .inl ⟨w, List.mem_filter.2 ⟨hw, ?_⟩, hroot⟩)
  rw [((h.seats w hw).run hroot).1]
  rfl

/-- Another task is told that a valuation has ended. A valuation does not heed it. -/
theorem Hosts.tell_other {parent : Nat} (h : l.Hosts root s ids) (hparent : parent ≠ root)
    (removed : Option Nat) : (l.tell parent removed).Hosts root s ids := by
  refine h.map (fun w _ => ?_) (fun w hw => ⟨w, hw, ?_⟩) h.books rfl (fun w hw => ?_) (fun _ => rfl)
  · split <;> rfl
  · split <;> rfl
  · have hseat := h.seats w hw
    split
    · next heq =>
      refine ⟨fun hid => absurd (heq.symm.trans hid) hparent, fun hchild => ?_⟩
      rcases hseat.child hchild with ⟨n, u, x, hn, hv, hop⟩
      refine ⟨n, u, x, hn, hv, ?_⟩
      rw [hop]
      rfl
    · exact hseat

/-- Another task ends. Its result is not that of the run. -/
theorem Hosts.finish_other (h : l.Hosts root s ids) (hid : t.id ≠ root)
    (hparent : t.parent ≠ some root) (o : Option Outcome) : (l.finish t o).Hosts root s ids := by
  have hcancel := h.cancel t.id
  unfold finish
  cases hp : t.parent with
  | some parent => exact hcancel.tell_other (fun heq => hparent (hp.trans (congrArg some heq))) _
  | none =>
      refine ⟨hcancel.books, hcancel.root_lt, hcancel.length, hcancel.seats, hcancel.alone,
        fun o' ho' => hcancel.result o' ?_⟩
      rw [Table.get?_insert_of_ne _ _ hid.symm] at ho'
      exact ho'

/-- A step of a task that the run has nothing to do with. -/
theorem hosts_of_other {now : Nat} {st : Stepped} (h : l.Hosts root s ids) (ht : t ∈ l.tasks)
    (hproper : t.operation.IsProper) (hid : t.id ≠ root) (hparent : t.parent ≠ some root)
    (htakes : t.Takes now l.shared st d) :
    ∃ s', s.Advances s' ∧ (({ l with shared := d } : Ledger).after t st).Hosts root s' ids := by
  have hput : ∀ t' : Task, t'.id = t.id → t'.parent = t.parent → (l.put t').Hosts root s ids :=
    fun t' hid' hparent' => h.put ht hid' hparent' h.books rfl
      (.of_other (hid' ▸ hid) (hparent' ▸ hparent)) (fun w hw _ => h.seats w hw) (fun _ => rfl)
  cases htakes with
  | waits | hears | sleeps => exact ⟨s, .inl rfl, hput _ rfl rfl⟩
  | starts child y =>
      refine ⟨s, .inl rfl, (hput { t with operation := y } rfl rfl).add_other ?_ _⟩
      exact fun heq => hid (Option.some.inj heq)
  | abandons y => exact ⟨s, .inl rfl, (hput { t with operation := y } rfl rfl).orphan_other⟩
  | ends o => exact ⟨s, .inl rfl, h.finish_other hid hparent o⟩
  | calls c deadline resume hnext =>
      refine ⟨_, .inr ⟨.aside now c, rfl, fun _ _ heq => ?_⟩, ?_⟩
      · cases heq
        exact hproper.call hnext
      · refine h.put ht rfl rfl ?_ rfl (.of_other hid hparent) (fun w hw _ => ?_) (fun _ => rfl)
        · simp only [h.books]
        · exact ⟨(h.seats w hw).run, (h.seats w hw).child⟩

/-- A step of a task is at most one step of the survey. -/
theorem hosts_of_takes {now : Nat} {st : Stepped} (h : l.Hosts root s ids) (ht : t ∈ l.tasks)
    (hproper : t.operation.IsProper) (htakes : t.Takes now l.shared st d) :
    ∃ s' ids', s.Advances s' ∧ (({ l with shared := d } : Ledger).after t st).Hosts root s' ids' := by
  by_cases hid : t.id = root
  · exact hosts_of_run h ht hid htakes
  · by_cases hparent : t.parent = some root
    · rcases hosts_of_child h ht hparent htakes with ⟨s', hs', hhosts⟩
      exact ⟨s', ids, hs', hhosts⟩
    · rcases hosts_of_other h ht hproper hid hparent htakes with ⟨s', hs', hhosts⟩
      exact ⟨s', ids, hs', hhosts⟩

/-! ## Runs of the ledger -/

/-- A ledger that hosts a survey after some steps, in which others make proper calls only. -/
structure OnSurvey (opening : Survey) (root : Nat) (l : Ledger) : Prop where
  tidy : l.Tidy
  hosts : ∃ actions s ids, opening.run? actions = some s ∧ Survey.Decent actions ∧
    l.Hosts root s ids

variable {opening : Survey} {env : Surroundings}

/-- A step of a task keeps the ledger on the survey. -/
theorem onSurvey_of_stepTask? (h : l.OnSurvey opening root) (ht : t ∈ l.tasks)
    (hs : l.stepTask? env t = some l') : l'.OnSurvey opening root := by
  refine ⟨tidy_of_stepTask? h.tidy ht hs, ?_⟩
  rcases h.hosts with ⟨actions, s, ids, hrun, hdecent, hhosts⟩
  have htask := h.tidy.tasks t ht
  rcases stepTask?_eq_some hs with ⟨st, d, hstep, rfl⟩
  have htakes := Task.takes_of_step? h.tidy.faults htask.answered hstep
  rcases hosts_of_takes hhosts ht htask.proper htakes with ⟨s', ids', rfl | ⟨a, ha, hproper⟩, hnew⟩
  · exact ⟨actions, s', ids', hrun, hdecent, hnew⟩
  · refine ⟨actions ++ [a], s', ids', run_snoc hrun ha, fun now c hc => ?_, hnew⟩
    rcases List.mem_append.1 hc with hold | hlast
    · exact hdecent now c hold
    · exact hproper now c (List.mem_singleton.1 hlast).symm

theorem onSurvey_moveBack (h : l.OnSurvey opening root) (id : Nat) :
    (l.moveBack id).OnSurvey opening root := by
  refine ⟨tidy_moveBack h.tidy id, ?_⟩
  rcases h.hosts with ⟨actions, s, ids, hrun, hdecent, hhosts⟩
  refine ⟨actions, s, ids, hrun, hdecent, ?_⟩
  unfold moveBack
  split
  · exact hhosts
  · next t ht =>
    refine hhosts.of_tasks rfl rfl rfl (fun u hu => ?_) (fun ⟨u, hu, hroot⟩ => .inl ?_)
    · rcases List.mem_append.1 hu with hmem | hmem
      · exact (List.mem_filter.1 hmem).1
      · rw [List.mem_singleton.1 hmem]
        exact mem_of_task? ht
    · -- The run may be the task that goes to the end of the line.
      by_cases hid : u.id = id
      · exact ⟨t, List.mem_append_right _ (List.mem_singleton.2 rfl),
          (id_of_task? ht).trans (hid.symm.trans hroot)⟩
      · exact ⟨u, List.mem_append_left _ (List.mem_filter.2 ⟨hu, decide_eq_true hid⟩), hroot⟩

/-- All that the ledger does at one time keeps it on the survey. -/
theorem onSurvey_settle (env : Surroundings) (h : l.OnSurvey opening root) :
    (l.settle env).OnSurvey opening root :=
  settle_induction (OnSurvey opening root) (fun _ _ _ hl ht hs => onSurvey_of_stepTask? hl ht hs)
    (fun _ id hl => onSurvey_moveBack hl id) h

/-- A run that begins is that of a survey over the books as they are. -/
theorem onSurvey_spawn (h : l.Tidy) (time : Timestamp) :
    (l.spawn (l.valuationRun time)).2.OnSurvey
      (.opened l.valuation l.trading.supportedSymbols time l.books)
      (l.spawn (l.valuationRun time)).1 := by
  refine ⟨tidy_spawn h trivial, [], _, [], rfl, fun _ _ hc => absurd hc List.not_mem_nil, ?_⟩
  refine ⟨rfl, Nat.lt_succ_self _, rfl, fun t ht => ?_, fun hgone t ht => ?_, fun o ho => ?_⟩
  · -- Nobody has the number that the run gets, so nobody was started by it.
    rcases List.mem_append.1 ht with hold | hnew
    · have htidy := h.tasks t hold
      exact .of_other htidy.id_lt.ne (fun heq => (htidy.parent_lt _ heq).ne rfl)
    · rw [List.mem_singleton.1 hnew]
      exact ⟨fun _ => ⟨rfl, rfl⟩, nofun⟩
  · exact absurd rfl (hgone _ (List.mem_append_right _ (List.mem_singleton.2 rfl)))
  · exact absurd rfl (h.results _ o ho).ne

/-- Other operations may begin meanwhile. -/
theorem onSurvey_spawn_other (h : l.OnSurvey opening root) {x : Operation} (hx : x.IsProper) :
    (l.spawn x).2.OnSurvey opening root := by
  rcases h.hosts with ⟨actions, s, ids, hrun, hdecent, hhosts⟩
  have hnobody : none ≠ some root := (Option.some_ne_none root).symm
  exact ⟨tidy_spawn h.tidy hx, actions, s, ids, hrun, hdecent, hhosts.add_other hnobody x⟩

/-- Any task may be given up, the run as well. -/
theorem onSurvey_cancel (h : l.OnSurvey opening root) (id : Nat) :
    (l.cancel id).OnSurvey opening root := by
  rcases h.hosts with ⟨actions, s, ids, hrun, hdecent, hhosts⟩
  exact ⟨tidy_cancel h.tidy id, actions, s, ids, hrun, hdecent, hhosts.cancel id⟩

/-- What a run on the ledger has done when its result is there, over books with every document
under its own id. -/
theorem surveyed_of_onSurvey {config : ValuationConfig} {symbols : List String}
    {time cutoff : Timestamp} {b : Books} {r : ValuationReport} (hids : b.store.OwnIds)
    (hcutoff : ValuationRun.cutoff? config time.startOfHour = some cutoff)
    (h : l.OnSurvey (.opened config symbols time b) root)
    (hr : l.result? root = some (some (.valuation (.ok r)))) :
    ∃ actions s, l.books = s.books ∧ Survey.Surveyed config symbols time cutoff b actions s r := by
  rcases h.hosts with ⟨actions, s, ids, hrun, hdecent, hhosts⟩
  rcases (hhosts.result _ hr).2 _ rfl with ⟨r', heq, hresult⟩
  cases heq
  exact ⟨actions, s, hhosts.books, Survey.surveyed_of_run hids hcutoff hdecent hrun hresult⟩

end Ledger

end Bourse
