import Bourse.Proofs.Ledger.Documents
import Mathlib.Data.List.Nodup

/-!
# Going Through the Users by Pages

Users are listed a page at a time. A page begins past a cursor and is as long as is
asked for, or shorter where the users come to an end. The cursor of the next page is
the id of the last user of this one, and between two pages accounts may be opened and
documents replaced.

A page compares the cursor with the keys of the store and is ordered by the ids in the
documents, so it makes sense only if each document is stored under its own id. Then
what has been listed ascends by id, page after page, and nobody who was there at the
beginning is left out: whoever is not on a page comes after its last user.

## Main definitions

* `Store.OwnIds`: every document is stored under its own id.
* `Ascending`: users in strictly ascending order of their ids.
* `Store.usersPast`: all users past a cursor.
* `Call.IsProper`: a call that does not store a document under another id.

## Theorems

* `listUsers_eq`: a page is the beginning of all users past the cursor.
* `Call.ownIds_perform`: documents stay stored under their own ids.
* `Listing.next`: what is known of the users listed after one more page.
-/

namespace Bourse

/-- Users in strictly ascending order of their ids. -/
def Ascending (users : List User) : Prop :=
  users.Pairwise (fun a b => compare a.id b.id = .lt)

theorem Ascending.nodup_ids {users : List User} (h : Ascending users) :
    (users.map (·.id)).Nodup := by
  refine List.pairwise_map.2 (h.imp (fun {a b} hlt heq => ?_))
  rw [heq] at hlt
  exact Ordering.noConfusion (hlt.symm.trans Std.ReflCmp.compare_self)

/-- Whether a call leaves every document under its own id. -/
def Call.IsProper : Call → Prop
  | replaceUser id _ u => u.id = id
  | _ => True

namespace Store

/-- Every document is stored under its own id. -/
def OwnIds (s : Store) : Prop := ∀ id v, s.user? id = some v → v.value.id = id

/-- All users past a cursor. -/
def usersPast (s : Store) (after : Option String) : List User :=
  s.users.entries.filterMap (fun e => if isPast after e.1 then some e.2.value else none)

variable {s : Store} {after : Option String} {limit : Nat} {u : User}

theorem ownIds_iff : s.OwnIds ↔ ∀ e ∈ s.users.entries, e.2.value.id = e.1 :=
  ⟨fun h e he => h e.1 e.2 (Table.mem_entries_iff.1 he),
    fun h _ _ hv => h _ (Table.mem_entries_iff.2 hv)⟩

/-- A user past a cursor is one whose document is stored and whose id comes after it. -/
theorem mem_usersPast (h : s.OwnIds) :
    u ∈ s.usersPast after ↔ isPast after u.id = true ∧ ∃ v, s.user? u.id = some v ∧ v.value = u := by
  rw [usersPast, List.mem_filterMap]
  constructor
  · rintro ⟨⟨id, v⟩, hmem, hsome⟩
    split at hsome
    · next hpast =>
      have hget : s.user? id = some v := Table.mem_entries_iff.1 hmem
      have hid := h id v hget
      rw [← Option.some.inj hsome, hid]
      exact ⟨hpast, v, hget, rfl⟩
    · exact absurd hsome (by simp only [reduceCtorEq, not_false_eq_true])
  · rintro ⟨hpast, v, hget, rfl⟩
    exact ⟨(v.value.id, v), Table.mem_entries_iff.2 hget, by rw [if_pos hpast]⟩

theorem ascending_usersPast (h : s.OwnIds) (after : Option String) :
    Ascending (s.usersPast after) := by
  -- The table ascends by its keys, and these are the ids of the documents.
  have hkeys := ownIds_iff.1 h
  refine List.pairwise_filterMap.2 (s.users.ascending.imp_of_mem (fun {a b} ha hb hlt => ?_))
  intro u hu w hw
  split at hu
  · split at hw
    · rw [← Option.some.inj hu, ← Option.some.inj hw, hkeys a ha, hkeys b hb]
      exact hlt
    · exact absurd hw (by simp only [reduceCtorEq, not_false_eq_true])
  · exact absurd hu (by simp only [reduceCtorEq, not_false_eq_true])

/-- All users come past the cursor that the first page has. -/
theorem usersPast_none (s : Store) : s.usersPast none = s.users.entries.map (·.2.value) := by
  rw [← List.filterMap_eq_map']
  rfl

/-- A page is the beginning of all users past the cursor. -/
theorem listUsers_eq (h : s.OwnIds) : s.listUsers after limit = (s.usersPast after).take limit := by
  -- Sorting does nothing, since the users come in the order of their ids already.
  refine congrArg (List.take limit) (List.mergeSort_of_pairwise ?_)
  refine (ascending_usersPast h after).imp (fun hlt => ?_)
  rw [hlt]
  rfl

theorem OwnIds.of_user?_eq {s' : Store} (h : s.OwnIds) (heq : ∀ id, s'.user? id = s.user? id) :
    s'.OwnIds :=
  fun id v hv => h id v ((heq id).symm.trans hv)

/-- A document that is written under its own id is one more. -/
theorem OwnIds.insert (h : s.OwnIds) {id : String} {v : Versioned User} (hid : v.value.id = id) :
    ({ s with users := s.users.insert id v } : Store).OwnIds := by
  intro j w hw
  rw [user?_insert] at hw
  split at hw
  · next hj =>
    rw [← Option.some.inj hw, hj]
    exact hid
  · exact h j w hw

theorem OwnIds.createUser (h : s.OwnIds) (u : User) : (s.createUser u).2.OwnIds := by
  rcases s.createUser_cases u with ⟨-, hr⟩ | hr
  · rw [hr]
    exact h.insert rfl
  · rw [hr]
    exact h

/-- A document is replaced by another of the same id where that of the version expected has it. -/
theorem OwnIds.compareAndSet (h : s.OwnIds) {id : String} {version : Nat}
    (hid : ∀ v, s.user? id = some v → v.version = version → u.id = id) :
    (s.compareAndSet id version u).2.OwnIds := by
  rcases s.compareAndSet_cases id version u with ⟨v, hv, hversion, hr⟩ | ⟨e, hr⟩
  · rw [hr]
    exact h.insert (hid v hv hversion)
  · rw [hr]
    exact h

end Store

/-- Documents stay stored under their own ids. -/
theorem Call.ownIds_perform {b : Books} {c : Call} (now : Nat) (hc : c.IsProper)
    (h : b.store.OwnIds) : (c.perform b now).2.store.OwnIds := by
  by_cases hwrite : c.isWrite = false
  · exact h.of_user?_eq (user?_perform b now hwrite)
  cases c with
  | createUser u => exact h.createUser u
  | replaceUser id version u => exact h.compareAndSet (fun _ _ _ => hc)
  | _ => exact absurd rfl hwrite

/-! ## Page after page -/

/-- Users that were listed page by page, when the next page begins past a cursor. Of the ids that
were there at the beginning, those that have not been listed come after the cursor. -/
structure Listing (present : String → Prop) (users : List User) (after : Option String) : Prop where
  ascending : Ascending users
  covers : ∀ id, present id → id ∈ users.map (·.id) ∨ Store.isPast after id = true
  apart : ∀ u ∈ users, ∀ id, Store.isPast after id = true → compare u.id id = .lt

namespace Listing

variable {present : String → Prop} {users : List User} {after : Option String} {s : Store}
  {limit : Nat}

theorem start (present : String → Prop) : Listing present [] none :=
  ⟨List.Pairwise.nil, fun _ _ => .inr rfl, fun _ hu => absurd hu List.not_mem_nil⟩

/-- One more page goes on in the same order. -/
theorem ascending_append (h : Listing present users after) (hids : s.OwnIds) :
    Ascending (users ++ s.listUsers after limit) := by
  rw [Store.listUsers_eq hids]
  refine List.pairwise_append.2 ⟨h.ascending, ?_, fun u hu w hw => ?_⟩
  · exact (Store.ascending_usersPast hids after).sublist (List.take_sublist _ _)
  · exact h.apart u hu w.id ((Store.mem_usersPast hids).1 (List.mem_of_mem_take hw)).1

/-- Whoever was there at the beginning and has not been listed comes on this page or past it. -/
theorem mem_past (h : Listing present users after) (hids : s.OwnIds)
    (hpresent : ∀ id, present id → ∃ v, s.user? id = some v) {id : String} (hid : present id) :
    id ∈ users.map (·.id) ∨ ∃ u ∈ s.usersPast after, u.id = id := by
  refine (h.covers id hid).imp_right (fun hpast => ?_)
  rcases hpresent id hid with ⟨v, hv⟩
  have hown := hids id v hv
  exact ⟨v.value, (Store.mem_usersPast hids).2 ⟨hown.symm ▸ hpast, v, hown.symm ▸ hv, rfl⟩, hown⟩

/-- A page that is not full is the last one. -/
theorem covers_of_short (h : Listing present users after) (hids : s.OwnIds)
    (hpresent : ∀ id, present id → ∃ v, s.user? id = some v)
    (hshort : (s.listUsers after limit).length ≠ limit) {id : String} (hid : present id) :
    id ∈ (users ++ s.listUsers after limit).map (·.id) := by
  rw [Store.listUsers_eq hids] at hshort ⊢
  -- Were there more users than fit, the page would be full.
  have hall : (s.usersPast after).take limit = s.usersPast after := by
    refine List.take_of_length_le ?_
    by_contra hlong
    exact hshort (List.length_take_of_le (Nat.le_of_not_le hlong))
  rw [hall, List.map_append, List.mem_append]
  refine (h.mem_past hids hpresent hid).imp_right (fun hlisted => ?_)
  rcases hlisted with ⟨u, hu, rfl⟩
  exact List.mem_map_of_mem hu

/-- After a full page the next one begins past its last user. -/
theorem next (h : Listing present users after) (hids : s.OwnIds)
    (hpresent : ∀ id, present id → ∃ v, s.user? id = some v) {last : User}
    (hlast : (s.listUsers after limit).getLast? = some last) :
    Listing present (users ++ s.listUsers after limit) (some last.id) := by
  have hascending : Ascending (users ++ s.listUsers after limit) := h.ascending_append hids
  rw [Store.listUsers_eq hids] at hlast hascending ⊢
  rcases List.getLast?_eq_some_iff.1 hlast with ⟨front, hpage⟩
  -- Whoever is past the cursor is on this page or comes after its last user.
  have hsplit := Store.ascending_usersPast hids after
  rw [← List.take_append_drop limit (s.usersPast after)] at hsplit
  have hlastmem : last ∈ (s.usersPast after).take limit := List.mem_of_getLast? hlast
  refine ⟨hascending, fun id hid => ?_, fun u hu id hpast => ?_⟩
  · rw [List.map_append, List.mem_append, or_assoc]
    refine (h.mem_past hids hpresent hid).imp_right (fun hlisted => ?_)
    rcases hlisted with ⟨u, hu, rfl⟩
    rw [← List.take_append_drop limit (s.usersPast after)] at hu
    refine (List.mem_append.1 hu).imp (fun hu => List.mem_map_of_mem hu) (fun hu => ?_)
    exact decide_eq_true ((List.pairwise_append.1 hsplit).2.2 last hlastmem u hu)
  · -- The last user comes after all the others, and whoever is past it comes later still.
    have hlt : compare last.id id = .lt := of_decide_eq_true hpast
    rw [hpage, ← List.append_assoc] at hu hascending
    rcases List.mem_append.1 hu with hearlier | hsame
    · have hbefore : compare u.id last.id = .lt :=
        (List.pairwise_append.1 hascending).2.2 u hearlier last (List.mem_singleton_self last)
      exact Std.TransCmp.lt_trans hbefore hlt
    · rw [List.mem_singleton.1 hsame]
      exact hlt

end Listing

end Bourse
