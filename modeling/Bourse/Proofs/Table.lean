import Bourse.Table
import Mathlib.Algebra.BigOperators.Group.List.Basic
import Mathlib.Data.List.Nodup
import Mathlib.Tactic.Abel

/-!
# Looking Things Up in Tables

A table is a list in ascending order of its keys, and almost everything that is
proved about one goes through `get?` alone. This module says how the two views
belong together: an entry is in the list exactly when looking its key up gives
its value, so a key occurs at most once.

A sum over the entries is the one thing that cannot be told through `get?`. It
is what a portfolio is worth, so `sum_insert` says what setting one entry that
was there before does to it.

## Theorems

* `get?_insert_self`, `get?_insert_of_ne`: looking up after an entry was set.
* `mem_entries_iff`: entries and looking up agree.
* `mem_keys_iff`, `nodup_keys`: the keys are what can be looked up, each of them once.
* `get?_filter_eq_some`, `get?_mapValues_eq_some`: looking up after a change of all entries.
* `ext_get?`: tables in which the same is found are the same.
* `size_insert_of_mem`: setting an entry that is there adds none.
* `get?_ofList_const`: the table that gives one value to some keys.
* `ofList_entries`: a table is the table of its entries.
* `sum_insert`: a sum over the entries after one of them was set.
-/

namespace Bourse

namespace Table

variable {κ : Type u} {ν : Type v} [Ord κ]

/-- A key before all others is not found. -/
theorem find?_eq_none_of_lt {k : κ} {l : List (κ × ν)} (h : ∀ e ∈ l, compare k e.1 = .lt) :
    find? k l = none := by
  induction l with
  | nil => rfl
  | cons e rest ih =>
      have hne : ¬ compare k e.1 = .eq := by
        rw [h e (List.mem_cons_self)]
        simp only [reduceCtorEq, not_false_eq_true]
      rw [find?, if_neg hne]
      exact ih (fun e' he' => h e' (List.mem_cons_of_mem e he'))

variable [Std.LawfulEqOrd κ]

theorem mem_iff_find? {l : List (κ × ν)} (h : l.Pairwise (fun a b => compare a.1 b.1 = .lt))
    {k : κ} {v : ν} : (k, v) ∈ l ↔ find? k l = some v := by
  induction l with
  | nil => simp only [List.not_mem_nil, find?, reduceCtorEq]
  | cons e rest ih =>
      rcases List.pairwise_cons.1 h with ⟨hfirst, hrest⟩
      rw [List.mem_cons, find?]
      by_cases hk : compare k e.1 = .eq
      · -- The key of the first entry does not occur again.
        have he : k = e.1 := Std.LawfulEqCmp.compare_eq_iff_eq.1 hk
        have hnone : find? k rest = none := by
          refine find?_eq_none_of_lt (fun e' he' => ?_)
          rw [he]
          exact hfirst e' he'
        rw [if_pos hk, ih hrest, hnone]
        simp only [reduceCtorEq, or_false, Option.some.injEq]
        constructor
        · intro heq
          rw [← heq]
        · intro hv
          rw [he, ← hv]
      · -- An entry of another key is looked for in the rest, on both sides.
        have hne : (k, v) ≠ e := by
          intro heq
          rw [← heq] at hk
          exact hk Std.ReflCmp.compare_self
        rw [if_neg hk, ih hrest]
        simp only [hne, false_or]

theorem mem_entries_iff {t : Table κ ν} {k : κ} {v : ν} :
    (k, v) ∈ t.entries ↔ t.get? k = some v :=
  mem_iff_find? t.ascending

theorem mem_keys_iff {t : Table κ ν} {k : κ} : k ∈ t.keys ↔ (t.get? k).isSome := by
  rw [keys, List.mem_map, Option.isSome_iff_exists]
  constructor
  · rintro ⟨⟨k', v⟩, hmem, rfl⟩
    exact ⟨v, mem_entries_iff.1 hmem⟩
  · rintro ⟨v, hget⟩
    exact ⟨(k, v), mem_entries_iff.2 hget, rfl⟩

/-- No key occurs twice. -/
theorem nodup_keys (t : Table κ ν) : t.keys.Nodup := by
  refine List.pairwise_map.2 (t.ascending.imp fun {a b} hlt heq => ?_)
  have hsame : compare a.1 b.1 = .eq := Std.LawfulEqCmp.compare_eq_iff_eq.2 heq
  exact Ordering.noConfusion (hlt.symm.trans hsame)

/-- Of a table filtered, what is found is what was found before and passes the test. -/
theorem get?_filter_eq_some {t : Table κ ν} {keep : κ → ν → Bool} {k : κ} {v : ν} :
    (t.filter keep).get? k = some v ↔ t.get? k = some v ∧ keep k v = true := by
  rw [← mem_entries_iff, ← mem_entries_iff]
  exact List.mem_filter

/-- What is found after every value was changed is a value that was found before, changed. -/
theorem get?_mapValues_eq_some {ν' : Type w} {t : Table κ ν} {f : κ → ν → ν'} {k : κ} {y : ν'} :
    (t.mapValues f).get? k = some y ↔ ∃ v, t.get? k = some v ∧ f k v = y := by
  rw [← mem_entries_iff, mapValues, List.mem_map]
  constructor
  · rintro ⟨⟨j, v⟩, hmem, heq⟩
    rcases Prod.mk.inj heq with ⟨rfl, rfl⟩
    exact ⟨v, mem_entries_iff.1 hmem, rfl⟩
  · rintro ⟨v, hget, rfl⟩
    exact ⟨(k, v), mem_entries_iff.2 hget, rfl⟩

variable [Std.TransOrd κ]

@[simp] theorem get?_insert_self (t : Table κ ν) (k : κ) (v : ν) :
    (t.insert k v).get? k = some v := by
  rw [get?_insert, if_pos (Std.ReflCmp.compare_self)]

theorem get?_insert_of_ne (t : Table κ ν) {k j : κ} (v : ν) (h : j ≠ k) :
    (t.insert k v).get? j = t.get? j := by
  rw [get?_insert, if_neg (fun he => h (Std.LawfulEqCmp.compare_eq_iff_eq.1 he))]

theorem get?_insert_eq [DecidableEq κ] (t : Table κ ν) (k j : κ) (v : ν) :
    (t.insert k v).get? j = if j = k then some v else t.get? j := by
  by_cases h : j = k
  · rw [if_pos h, h, get?_insert_self]
  · rw [if_neg h, get?_insert_of_ne t v h]

/-- Tables in which the same is found are the same. -/
theorem ext_get? {t t' : Table κ ν} (h : ∀ k, t.get? k = t'.get? k) : t = t' := by
  have hperm : t.entries.Perm t'.entries := by
    refine (List.perm_ext_iff_of_nodup (List.Nodup.of_map _ t.nodup_keys)
      (List.Nodup.of_map _ t'.nodup_keys)).2 ?_
    intro e
    rw [mem_entries_iff, mem_entries_iff, h]
  have hentries : t.entries = t'.entries := by
    refine hperm.eq_of_pairwise (fun a b _ _ hlt hgt => ?_) t.ascending t'.ascending
    have hswap : compare a.1 b.1 = (compare b.1 a.1).swap := Std.OrientedCmp.eq_swap
    rw [hswap, hgt] at hlt
    cases hlt
  cases t
  cases t'
  cases hentries
  rfl

/-- Setting an entry adds its key and nothing else. -/
theorem mem_keys_insert {t : Table κ ν} {k j : κ} {v : ν} :
    j ∈ (t.insert k v).keys ↔ j = k ∨ j ∈ t.keys := by
  rw [mem_keys_iff, mem_keys_iff]
  by_cases h : j = k
  · rw [h, get?_insert_self]
    simp only [Option.isSome_some, true_or]
  · rw [get?_insert_of_ne t v h]
    simp only [h, false_or]

/-- Setting an entry that is there adds none. -/
theorem size_insert_of_mem {t : Table κ ν} {k : κ} (v : ν) (h : k ∈ t.keys) :
    (t.insert k v).size = t.size := by
  have hkeys : (t.insert k v).keys.Perm t.keys := by
    refine (List.perm_ext_iff_of_nodup (nodup_keys _) (nodup_keys _)).2 (fun j => ?_)
    rw [mem_keys_insert]
    refine or_iff_right_of_imp (fun heq => ?_)
    rw [heq]
    exact h
  have hlength := hkeys.length_eq
  rwa [keys, keys, List.length_map, List.length_map] at hlength

/-- The entries of a list, set one after the other, keep what no entry is about. -/
theorem get?_foldl_insert_const [DecidableEq κ] (v : ν) (ks : List κ) (t : Table κ ν) (k : κ) :
    ((ks.map (fun j => (j, v))).foldl (fun t e => t.insert e.1 e.2) t).get? k =
      if k ∈ ks then some v else t.get? k := by
  induction ks generalizing t with
  | nil => rw [List.map_nil, List.foldl_nil, if_neg (List.not_mem_nil)]
  | cons j rest ih =>
      rw [List.map_cons, List.foldl_cons, ih, get?_insert_eq]
      by_cases hk : k = j
      · simp only [hk, if_true, ite_self, List.mem_cons, true_or]
      · simp only [hk, if_false, List.mem_cons, false_or]

/-- The table that gives one value to some keys. -/
theorem get?_ofList_const [DecidableEq κ] (v : ν) (ks : List κ) (k : κ) :
    (ofList (ks.map (fun j => (j, v)))).get? k = if k ∈ ks then some v else none :=
  get?_foldl_insert_const v ks empty k

/-- Entries in ascending order, set one after the other, are found before what was there. -/
theorem get?_foldl_insert_ascending [DecidableEq κ] {l : List (κ × ν)}
    (h : l.Pairwise (fun a b => compare a.1 b.1 = .lt)) (t : Table κ ν) (k : κ) :
    (l.foldl (fun t e => t.insert e.1 e.2) t).get? k = (find? k l).or (t.get? k) := by
  induction l generalizing t with
  | nil => rfl
  | cons e rest ih =>
      rcases List.pairwise_cons.1 h with ⟨hfirst, hrest⟩
      rw [List.foldl_cons, ih hrest, get?_insert, find?]
      split_ifs with hk
      · -- The key of the first entry does not occur again.
        rw [Std.LawfulEqCmp.compare_eq_iff_eq.1 hk, find?_eq_none_of_lt hfirst]
        rfl
      · rfl

/-- A table is the table of its entries. -/
theorem ofList_entries [DecidableEq κ] (t : Table κ ν) : ofList t.entries = t := by
  refine ext_get? (fun k => ?_)
  rw [ofList, get?_foldl_insert_ascending t.ascending]
  exact Option.or_none

theorem sum_place {M : Type w} [AddCommGroup M] (f : κ × ν → M) {l : List (κ × ν)}
    (h : l.Pairwise (fun a b => compare a.1 b.1 = .lt)) {k : κ} {old : ν} (new : ν)
    (hold : find? k l = some old) :
    ((place k new l).map f).sum = (l.map f).sum - f (k, old) + f (k, new) := by
  induction l with
  | nil => exact absurd hold (by simp only [find?, reduceCtorEq, not_false_eq_true])
  | cons e rest ih =>
      rcases List.pairwise_cons.1 h with ⟨hfirst, hrest⟩
      rw [find?] at hold
      unfold place
      split
      · next hlt =>
        -- A key before the first one cannot have been found.
        have hnone : find? k rest = none :=
          find?_eq_none_of_lt (fun e' he' => Std.TransCmp.lt_trans hlt (hfirst e' he'))
        rw [if_neg (by rw [hlt]; simp only [reduceCtorEq, not_false_eq_true]), hnone] at hold
        exact absurd hold (by simp only [reduceCtorEq, not_false_eq_true])
      · next heq =>
        -- This is the entry that is set, and the sum differs here only.
        rw [if_pos heq] at hold
        have he : (k, old) = e := by
          rw [Std.LawfulEqCmp.compare_eq_iff_eq.1 heq, ← Option.some.inj hold]
        rw [List.map_cons, List.sum_cons, List.map_cons, List.sum_cons, he]
        abel
      · next hgt =>
        -- The entry comes later, and the first one stays.
        rw [if_neg (by rw [hgt]; simp only [reduceCtorEq, not_false_eq_true])] at hold
        rw [List.map_cons, List.sum_cons, List.map_cons, List.sum_cons, ih hrest hold]
        abel

/-- A sum over the entries after one that was there before has been set. -/
theorem sum_insert {M : Type w} [AddCommGroup M] (f : κ × ν → M) {t : Table κ ν} {k : κ}
    {old : ν} (new : ν) (hold : t.get? k = some old) :
    ((t.insert k new).entries.map f).sum = (t.entries.map f).sum - f (k, old) + f (k, new) :=
  sum_place f t.ascending new hold

end Table

end Bourse
