import Bourse.Proofs.Valuation.Paging
import Bourse.Proofs.Valuation.Stages

/-!
# Whom a Run Visits

While a run goes from page to page and starts a valuation for each user, accounts are
opened and documents replaced by others. Whoever had an account when the run began is
visited nevertheless, nobody is visited twice, and what is valued is a document that was
stored at some moment of the run.

As many pages are asked for as it takes to go through all users, and one more where
the last of them is full.

## Main definitions

* `Survey.Paged`: what is known of the users listed in each phase.
* `Survey.Counted`: how many pages were asked for in each phase.
* `Survey.Divided`: the users listed are those visited and those still on the page.

## Theorems

* `Survey.ownIds_of_run`, `Survey.present_of_run`, `Survey.size_of_run`: the documents during a run.
* `Survey.paged_of_run`, `Survey.counted_of_run`, `Survey.divided_of_run`: after every step.
* `Survey.stored_of_run`: whoever is listed was stored at some moment.
* `Survey.listed_le`: there are no more users listed than stored.
-/

namespace Bourse

/-- A call that creates no account leaves as many as there were. -/
theorem Call.size_perform (b : Books) (now : Nat) {c : Call} (h : ∀ u, c ≠ .createUser u) :
    (c.perform b now).2.store.users.size = b.store.users.size := by
  cases c with
  | createUser u => exact absurd rfl (h u)
  | replaceUser id version u =>
      rcases b.store.compareAndSet_cases id version u with ⟨v, hv, -, hr⟩ | ⟨e, hr⟩
      · simp only [perform, hr]
        exact Table.size_insert_of_mem _ (Table.mem_keys_iff.2 (Option.isSome_iff_exists.2 ⟨v, hv⟩))
      · simp only [perform, hr]
  | pruneTrades id keep =>
      simp only [perform, Store.pruneTrades]
      split <;> rfl
  | deleteSnapshots id cutoff =>
      simp only [perform, Store.deleteSnapshotsBefore]
      split <;> rfl
  | _ => rfl

namespace Survey

/-- Whether a step asks for a page. -/
def Action.isPage : Action → Bool
  | call _ => true
  | _ => false

/-- Others leave every document under its own id. -/
def Decent (past : List Action) : Prop := ∀ now c, .aside now c ∈ past → c.IsProper

variable {config : ValuationConfig} {symbols : List String} {time : Timestamp} {b : Books}
  {s t : Survey} {past actions : List Action} {a : Action}

theorem Decent.of_snoc (h : Decent (past ++ [a])) : Decent past :=
  fun now c hc => h now c (List.mem_append_left _ hc)

/-! ## The documents -/

/-- A step makes one call on the books or none. Those of the run and of its valuations write no
document. -/
theorem books_of_move (hmove : Move s a t) :
    t.books = s.books ∨ ∃ now c, t.books = (c.perform s.books now).2 ∧
      (a = .aside now c ∨ c.isWrite = false) := by
  cases hmove with
  | written n now v value hv hphase =>
      exact .inr ⟨now, .putSnapshot v.valuation.user ⟨v.valuation.hour, value⟩, rfl, .inr rfl⟩
  | swept n now v hv hphase =>
      exact .inr ⟨now, .deleteSnapshots v.valuation.user v.valuation.cutoff, rfl, .inr rfl⟩
  | aside now c => exact .inr ⟨now, c, rfl, .inl rfl⟩
  | _ => exact .inl rfl

theorem ownIds_of_move (hmove : Move s a t) (hproper : ∀ now c, a = .aside now c → c.IsProper)
    (h : s.books.store.OwnIds) : t.books.store.OwnIds := by
  rcases books_of_move hmove with heq | ⟨now, c, heq, hc⟩
  · rw [heq]
    exact h
  · rw [heq]
    refine Call.ownIds_perform now ?_ h
    rcases hc with haside | hread
    · exact hproper now c haside
    · cases c with
      | replaceUser id version u => exact absurd hread Bool.noConfusion
      | _ => trivial

/-- Every document stays stored under its own id. -/
theorem ownIds_of_run (hids : b.store.OwnIds) (hdecent : Decent actions)
    (h : (opened config symbols time b).run? actions = some s) : s.books.store.OwnIds := by
  refine induction (fun past s => Decent past → s.books.store.OwnIds) (fun _ => hids)
    (fun past a s t _ ih hmove hdecent => ?_) h hdecent
  exact ownIds_of_move hmove
    (fun now c ha => hdecent now c (ha ▸ List.mem_append_right past List.mem_cons_self))
    (ih hdecent.of_snoc)

theorem grown_of_move (hmove : Move s a t) : s.books.store.Grown t.books.store := by
  rcases books_of_move hmove with heq | ⟨now, c, heq, -⟩
  · rw [heq]
    exact Store.grown_of_user?_eq (fun _ => rfl)
  · rw [heq]
    exact Call.grown_perform s.books now c

/-- Whoever had an account at the beginning still has one. -/
theorem present_of_run (h : (opened config symbols time b).run? actions = some s) :
    ∀ id, (∃ v, b.store.user? id = some v) → ∃ v, s.books.store.user? id = some v := by
  refine induction (fun _ s => ∀ id, (∃ v, b.store.user? id = some v) →
    ∃ v, s.books.store.user? id = some v) (fun _ => id) (fun past a s t _ ih hmove id hid => ?_) h
  rcases ih id hid with ⟨v, hv⟩
  rcases grown_of_move hmove id v hv with ⟨v', hv', -⟩
  exact ⟨v', hv'⟩

/-- Where nobody opens an account, there are as many as at the beginning. -/
theorem size_of_run (hnone : ∀ now u, .aside now (.createUser u) ∉ actions)
    (h : (opened config symbols time b).run? actions = some s) :
    s.books.store.users.size = b.store.users.size := by
  refine induction (fun past s => (∀ now u, .aside now (.createUser u) ∉ past) →
    s.books.store.users.size = b.store.users.size) (fun _ => rfl)
    (fun past a s t _ ih hmove hnone => ?_) h hnone
  have hpast := ih (fun now u hmem => hnone now u (List.mem_append_left _ hmem))
  rcases books_of_move hmove with heq | ⟨now, c, heq, hc⟩
  · rw [heq]
    exact hpast
  · rw [heq, Call.size_perform s.books now ?_, hpast]
    rintro u rfl
    rcases hc with rfl | hread
    · exact hnone now u (List.mem_append_right past List.mem_cons_self)
    · exact absurd hread Bool.noConfusion

/-! ## Pages -/

/-- What is known of the users listed in each phase. -/
def Paged (present : String → Prop) (s : Survey) : Prop :=
  match s.run.phase with
  | .visiting _ (some last) => Listing present s.listed (some last)
  | .visiting _ none =>
    Ascending s.listed ∧ ∀ id, present id → id ∈ s.listed.map (·.id)
  | _ => s.listed = []

/-- How many pages were asked for in each phase. -/
def Counted (past : List Action) (s : Survey) : Prop :=
  match s.run.phase with
  | .visiting _ (some _) => past.countP Action.isPage * s.run.pageSize = s.listed.length
  | .visiting _ none =>
    past.countP Action.isPage * s.run.pageSize ≤ s.listed.length + s.run.pageSize
  | _ => past.countP Action.isPage = 0

/-- The users of a page who are still to be visited. -/
def ahead : ValuationRun.Phase → List User
  | .visiting page _ => page
  | _ => []

/-- The users that were visited, in their order. -/
def visited (s : Survey) : List User := s.valuings.map (·.subject)

/-- The users listed are those visited and those still on the page. -/
def Divided (s : Survey) : Prop := s.listed = s.visited ++ ahead s.run.phase

theorem pageSize_pos (s : Survey) : 0 < s.run.pageSize :=
  Nat.lt_of_lt_of_le Nat.one_pos (Nat.le_max_right _ _)

/-- A page that is full has a last user, and the next page begins past that one. -/
theorem listed_full {page : List User} (h : page.length = s.run.pageSize) :
    ∃ last, page.getLast? = some last ∧
      (s.run.listed (.ok page)).phase = .visiting page (some last.id) := by
  have hne : page ≠ [] := by
    rintro rfl
    exact absurd (h.trans_gt (pageSize_pos s)) (Nat.lt_irrefl 0)
  refine ⟨page.getLast hne, List.getLast?_eq_some_getLast hne, ?_⟩
  rw [ValuationRun.listed, ValuationRun.enter, if_pos h, List.getLast?_eq_some_getLast hne]
  rfl

theorem listed_short {page : List User} (h : page.length ≠ s.run.pageSize) :
    (s.run.listed (.ok page)).phase = .visiting page none := by
  rw [ValuationRun.listed, ValuationRun.enter, if_neg h]

/-- Where the phase, the users listed and the pages asked for stay, nothing is lost of what is known
of them. -/
theorem Paged.congr {present : String → Prop} (h : Paged present s)
    (hphase : t.run.phase = s.run.phase) (hlisted : t.listed = s.listed) : Paged present t := by
  unfold Paged at h ⊢
  rw [hphase, hlisted]
  exact h

/-- A page is asked for past the users who have been listed. -/
theorem Paged.listing {present : String → Prop} (h : Paged present s) {after : Option String}
    (hphase : s.run.phase = .asking [] ∧ after = none ∨
      ∃ last, s.run.phase = .visiting [] (some last) ∧ after = some last) :
    Listing present s.listed after := by
  rcases hphase with ⟨hphase, rfl⟩ | ⟨last, hphase, rfl⟩
  · rw [Paged, hphase] at h
    rw [show s.listed = [] from h]
    exact .start present
  · rw [Paged, hphase] at h
    exact h

/-- What is known of the users listed is known after every move. -/
theorem paged_of_move {present : String → Prop} (hids : s.books.store.OwnIds)
    (hpresent : ∀ id, present id → ∃ v, s.books.store.user? id = some v) (h : Paged present s)
    (hmove : Move s a t) : Paged present t := by
  cases hmove with
  | timed m symbol missing hphase | priced price symbol due missing hphase
  | refused e symbol due missing hphase | late symbol due missing hphase =>
      rw [Paged, hphase] at h
      exact h
  | listed now after hphase =>
      have hlisting := h.listing hphase
      -- After a full page there may be more users, after any other there are none.
      by_cases hfull : (s.page after).length = s.run.pageSize
      · rcases listed_full hfull with ⟨last, hlast, hnext⟩
        rw [Paged, hnext]
        exact hlisting.next hids hpresent hlast
      · rw [Paged, listed_short hfull]
        exact ⟨hlisting.ascending_append hids,
          fun id hid => hlisting.covers_of_short hids hpresent hfull hid⟩
  | started u page more hphase hroom =>
      rw [Paged, hphase] at h
      cases more <;> exact h
  | written n now v value hv hvphase | swept n now v hv hvphase | finished n u x r hv hvphase
  | aside now c => exact h.congr rfl rfl

/-- What is known of the users listed after every step. -/
theorem paged_of_run (hids : b.store.OwnIds) (hdecent : Decent actions)
    (hcutoff : (ValuationRun.cutoff? config time.startOfHour).isSome = true)
    (h : (opened config symbols time b).run? actions = some s) :
    Paged (fun id => ∃ v, b.store.user? id = some v) s := by
  refine induction (fun past s => Decent past → Paged (fun id => ∃ v, b.store.user? id = some v) s)
    (fun _ => ?_) (fun past a s t hrun ih hmove hdecent => ?_) h hdecent
  · rw [Paged, phase_opened hcutoff]
    rfl
  · exact paged_of_move (ownIds_of_run hids hdecent.of_snoc hrun) (present_of_run hrun)
      (ih hdecent.of_snoc) hmove

/-- Who is listed ascends by id in every phase. -/
theorem Paged.ascending {present : String → Prop} (h : Paged present s) : Ascending s.listed := by
  unfold Paged at h
  split at h
  · exact h.ascending
  · exact h.1
  · rw [h]
    exact List.Pairwise.nil

/-- How many pages were asked for is known after every move. -/
theorem counted_of_move (hpaged : Paged present s) (h : Counted past s) (hmove : Move s a t) :
    Counted (past ++ [a]) t := by
  have hquiet : a.isPage = false →
      (past ++ [a]).countP Action.isPage = past.countP Action.isPage := fun hnone => by
    rw [List.countP_append, List.countP_cons_of_neg (by rw [hnone]; exact Bool.false_ne_true)]
    rfl
  cases hmove with
  | timed m symbol missing hphase | priced price symbol due missing hphase
  | refused e symbol due missing hphase | late symbol due missing hphase =>
      rw [Counted, hphase] at h
      rw [Counted, hquiet rfl]
      exact h
  | listed now after hphase =>
      -- All pages before this one were full.
      have hbefore : past.countP Action.isPage * s.run.pageSize = s.listed.length := by
        rcases hphase with ⟨hphase, -⟩ | ⟨last, hphase, -⟩
        · rw [Counted, hphase] at h
          rw [Paged, hphase] at hpaged
          rw [show past.countP Action.isPage = 0 from h, show s.listed = [] from hpaged]
          exact Nat.zero_mul _
        · rw [Counted, hphase] at h
          exact h
      have hcount : (past ++ [Action.call now]).countP Action.isPage =
          past.countP Action.isPage + 1 := by
        rw [List.countP_append]
        rfl
      have hsize : (s.run.listed (.ok (s.page after))).pageSize = s.run.pageSize := rfl
      by_cases hfull : (s.page after).length = s.run.pageSize
      · rcases listed_full hfull with ⟨last, -, hnext⟩
        rw [Counted, hnext, hcount, hsize, List.length_append, hfull, Nat.succ_mul, hbefore]
      · rw [Counted, listed_short hfull, hcount, hsize, List.length_append, Nat.succ_mul, hbefore]
        exact Nat.add_le_add_right (Nat.le_add_right _ _) _
  | started u page more hphase hroom =>
      rw [Counted, hphase] at h
      rw [Counted, hquiet rfl]
      cases more <;> exact h
  | written n now v value hv hvphase | swept n now v hv hvphase | finished n u x r hv hvphase
  | aside now c =>
      unfold Counted at h ⊢
      rw [hquiet rfl]
      exact h

theorem counted_of_run (hids : b.store.OwnIds) (hdecent : Decent actions)
    (hcutoff : (ValuationRun.cutoff? config time.startOfHour).isSome = true)
    (h : (opened config symbols time b).run? actions = some s) : Counted actions s := by
  refine induction (fun past s => Decent past → Counted past s) (fun _ => ?_)
    (fun past a s t hrun ih hmove hdecent => ?_) h hdecent
  · rw [Counted, phase_opened hcutoff]
    rfl
  · exact counted_of_move (paged_of_run hids hdecent.of_snoc hcutoff hrun) (ih hdecent.of_snoc) hmove

/-- There are no more pages than it takes, and one where the last is full. -/
theorem Counted.le (h : Counted past s) :
    past.countP Action.isPage ≤ s.listed.length / s.run.pageSize + 1 := by
  have hpos := pageSize_pos s
  unfold Counted at h
  split at h
  · rw [← h, Nat.mul_div_cancel _ hpos]
    exact Nat.le_succ _
  · rw [← Nat.add_div_right _ hpos]
    exact (Nat.le_div_iff_mul_le hpos).2 h
  · rw [h]
    exact Nat.zero_le _

/-! ## Visits -/

/-- A valuation is about the same user as long as it lasts. -/
theorem map_subject_set {valuings : List Valuing} {n : Nat} {v w : Valuing}
    (hv : valuings[n]? = some v) (hw : w.subject = v.subject) :
    (valuings.set n w).map (·.subject) = valuings.map (·.subject) := by
  rcases List.getElem?_eq_some_iff.1 hv with ⟨hn, rfl⟩
  have hn' : n < (valuings.map (·.subject)).length := by
    rw [List.length_map]
    exact hn
  rw [List.map_set, hw, show valuings[n].subject = (valuings.map (·.subject))[n] by
    rw [List.getElem_map], List.set_getElem_self]

/-- The users listed are those visited and those still on the page, after every move. -/
theorem divided_of_move (h : Divided s) (hmove : Move s a t) : Divided t := by
  cases hmove with
  | timed m symbol missing hphase | priced price symbol due missing hphase
  | refused e symbol due missing hphase | late symbol due missing hphase =>
      rw [Divided, hphase] at h
      exact h
  | listed now after hphase =>
      -- The next page is asked for when nobody is left on the one before.
      have hbefore : s.listed = s.visited := by
        rw [Divided] at h
        rcases hphase with ⟨hphase, -⟩ | ⟨last, hphase, -⟩
        · rw [hphase] at h
          exact h.trans (List.append_nil _)
        · rw [hphase] at h
          exact h.trans (List.append_nil _)
      exact congrArg (· ++ s.page after) hbefore
  | started u page more hphase hroom =>
      rw [Divided, hphase] at h
      refine h.trans ?_
      rw [visited, visited, List.map_append, List.append_assoc]
      rfl
  | written n now v value hv hvphase | swept n now v hv hvphase | finished n u x r hv hvphase =>
      refine Eq.trans h (congrArg (· ++ ahead s.run.phase) ?_)
      refine (map_subject_set hv ?_).symm
      rfl
  | aside now c => exact h

theorem divided_of_run (hcutoff : (ValuationRun.cutoff? config time.startOfHour).isSome = true)
    (h : (opened config symbols time b).run? actions = some s) : Divided s := by
  refine induction (fun _ s => Divided s) ?_ (fun _ _ _ _ _ ih hmove => divided_of_move ih hmove) h
  rw [Divided, phase_opened hcutoff]
  rfl

/-- Nobody is visited twice. -/
theorem ascending_visited {present : String → Prop} (hpaged : Paged present s)
    (hdivided : Divided s) : Ascending s.visited := by
  have hall := hpaged.ascending
  rw [hdivided] at hall
  exact (List.pairwise_append.1 hall).1

/-! ## Where the documents come from -/

/-- A user whose document was stored at a moment of a run. -/
def Stored (config : ValuationConfig) (symbols : List String) (time : Timestamp) (b : Books)
    (actions : List Action) (u : User) : Prop :=
  ∃ before m version, before <+: actions ∧
    (opened config symbols time b).run? before = some m ∧
    m.books.store.user? u.id = some ⟨version, u⟩

theorem Stored.mono {u : User} (h : Stored config symbols time b past u) (more : List Action) :
    Stored config symbols time b (past ++ more) u := by
  rcases h with ⟨before, m, version, hbefore, hm⟩
  exact ⟨before, m, version, hbefore.trans (List.prefix_append past more), hm⟩

/-- Whoever is listed has an account, with a document that was stored at a moment of the run. -/
theorem stored_of_run (hids : b.store.OwnIds) (hdecent : Decent actions)
    (h : (opened config symbols time b).run? actions = some s) :
    ∀ u ∈ s.listed, Stored config symbols time b actions u ∧
      ∃ v, s.books.store.user? u.id = some v := by
  refine induction (fun past s => Decent past → ∀ u ∈ s.listed,
    Stored config symbols time b past u ∧ ∃ v, s.books.store.user? u.id = some v)
    (fun _ _ hu => absurd hu List.not_mem_nil) (fun past a s t hrun ih hmove hdecent u hu => ?_)
    h hdecent
  -- Who was listed before still has an account.
  have hold : u ∈ s.listed → Stored config symbols time b (past ++ [a]) u ∧
      ∃ v, t.books.store.user? u.id = some v := by
    intro hu
    rcases ih hdecent.of_snoc u hu with ⟨hstored, v, hv⟩
    rcases grown_of_move hmove u.id v hv with ⟨v', hv', -⟩
    exact ⟨hstored.mono [a], v', hv'⟩
  cases hmove with
  | listed now after hphase =>
      rcases List.mem_append.1 hu with hbefore | hpage
      · exact hold hbefore
      · -- Who is listed now is stored now.
        have hids' := ownIds_of_run hids hdecent.of_snoc hrun
        rw [page, Store.listUsers_eq hids'] at hpage
        rcases (Store.mem_usersPast hids').1 (List.mem_of_mem_take hpage) with ⟨-, v, hv, rfl⟩
        exact ⟨⟨past, s, v.version, List.prefix_append past _, hrun, hv⟩, v, hv⟩
  | _ => exact hold hu

/-- There are no more users listed than have an account. -/
theorem listed_le (hascending : Ascending s.listed)
    (hstored : ∀ u ∈ s.listed, ∃ v, s.books.store.user? u.id = some v) :
    s.listed.length ≤ s.books.store.users.size := by
  have hsubset : s.listed.map (·.id) ⊆ s.books.store.users.keys := by
    intro id hid
    rcases List.mem_map.1 hid with ⟨u, hu, rfl⟩
    exact Table.mem_keys_iff.2 (Option.isSome_iff_exists.2 (hstored u hu))
  have hle := List.Nodup.length_le_of_subset hascending.nodup_ids hsubset
  rwa [List.length_map, Table.keys, List.length_map] at hle

end Survey

end Bourse
