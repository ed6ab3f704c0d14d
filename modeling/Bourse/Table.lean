/-!
# Tables

A table gives at most one value to each key and lists its entries in ascending
order of the keys. The order is part of the type, so two tables with the same
entries are equal, and a walk over a table does not depend on how it was built.

Positions of a portfolio, documents of a store and the snapshots of a valuation
history are all kept this way.

## Main definitions

* `Table`: entries in strictly ascending order of their keys.
* `Table.get?`: the value of a key.
* `Table.insert`: the table with one entry set.
* `Table.filter`: the entries that pass a test.
* `Table.ofList`: a table from entries in any order, the last of a key winning.

## Theorems

* `get?_insert`: looking a key up after an entry was set.
* `get?_empty`: the empty table knows no key.
-/

namespace Bourse

/-- Entries in strictly ascending order of their keys. -/
structure Table (κ : Type u) (ν : Type v) [Ord κ] where
  /-- The entries, smallest key first. -/
  entries : List (κ × ν)
  /-- Each key is smaller than every later one. -/
  ascending : entries.Pairwise (fun a b => compare a.1 b.1 = .lt)

namespace Table

variable {κ : Type u} {ν : Type v} [Ord κ]

instance [DecidableEq κ] [DecidableEq ν] : DecidableEq (Table κ ν) := fun a b =>
  if h : a.entries = b.entries then
    .isTrue (by cases a; cases b; cases h; rfl)
  else
    .isFalse (fun e => h (by rw [e]))

instance [Repr κ] [Repr ν] : Repr (Table κ ν) where
  reprPrec t p := reprPrec t.entries p

/-- The table without entries. -/
def empty : Table κ ν := ⟨[], .nil⟩

instance : Inhabited (Table κ ν) := ⟨empty⟩
instance : EmptyCollection (Table κ ν) := ⟨empty⟩

/-- Sets the entry of `k` in a list kept in ascending order. -/
def place (k : κ) (v : ν) : List (κ × ν) → List (κ × ν)
  | [] => [(k, v)]
  | e :: rest =>
    match compare k e.1 with
    | .lt => (k, v) :: e :: rest
    | .eq => (k, v) :: rest
    | .gt => e :: place k v rest

/-- The value that the first entry of `k` holds. -/
def find? (k : κ) : List (κ × ν) → Option ν
  | [] => none
  | e :: rest => if compare k e.1 = .eq then some e.2 else find? k rest

/-- The value of a key. -/
def get? (t : Table κ ν) (k : κ) : Option ν :=
  find? k t.entries

/-- Whether a key has a value. -/
def contains (t : Table κ ν) (k : κ) : Bool :=
  (t.get? k).isSome

/-- The keys, in ascending order. -/
def keys (t : Table κ ν) : List κ :=
  t.entries.map (·.1)

/-- The number of entries. -/
def size (t : Table κ ν) : Nat :=
  t.entries.length

theorem key_of_mem_place {k : κ} {v : ν} {l : List (κ × ν)} {e : κ × ν}
    (h : e ∈ place k v l) : e = (k, v) ∨ e ∈ l := by
  induction l with
  | nil => simpa [place] using h
  | cons x r ih =>
    unfold place at h
    split at h <;> simp only [List.mem_cons] at h ⊢
    · rcases h with h | h | h <;> simp [h]
    · rcases h with h | h <;> simp [h]
    · rcases h with h | h
      · simp [h]
      · rcases ih h with h | h <;> simp [h]

theorem place_ascending [Std.TransOrd κ] [Std.LawfulEqOrd κ] {k : κ} {v : ν} {l : List (κ × ν)}
    (h : l.Pairwise (fun a b => compare a.1 b.1 = .lt)) :
    (place k v l).Pairwise (fun a b => compare a.1 b.1 = .lt) := by
  induction l with
  | nil => simp [place]
  | cons x r ih =>
    obtain ⟨hx, hr⟩ := List.pairwise_cons.1 h
    unfold place
    split
    · next hk =>
      refine List.pairwise_cons.2 ⟨fun e he => ?_, h⟩
      rcases List.mem_cons.1 he with rfl | he
      · exact hk
      · exact Std.TransCmp.lt_trans hk (hx e he)
    · next hk =>
      have : k = x.1 := Std.LawfulEqCmp.compare_eq_iff_eq.1 hk
      subst this
      exact List.pairwise_cons.2 ⟨hx, hr⟩
    · next hk =>
      refine List.pairwise_cons.2 ⟨fun e he => ?_, ih hr⟩
      rcases key_of_mem_place he with rfl | he
      · exact Std.OrientedCmp.gt_iff_lt.1 hk
      · exact hx e he

theorem find?_place [Std.TransOrd κ] [Std.LawfulEqOrd κ] {k j : κ} {v : ν} {l : List (κ × ν)} :
    find? j (place k v l) = if compare j k = .eq then some v else find? j l := by
  induction l with
  | nil => simp [place, find?]
  | cons x r ih =>
    unfold place
    split
    · simp [find?]
    · next hk =>
      have : k = x.1 := Std.LawfulEqCmp.compare_eq_iff_eq.1 hk
      subst this
      by_cases h : compare j x.1 = .eq <;> simp [find?, h]
    · next hk =>
      by_cases h : compare j x.1 = .eq
      · have hj : j = x.1 := Std.LawfulEqCmp.compare_eq_iff_eq.1 h
        have hne : ¬ compare j k = .eq := fun e => by
          have : j = k := Std.LawfulEqCmp.compare_eq_iff_eq.1 e
          subst this
          simp [h] at hk
        simp [find?, h, hne]
      · simp [find?, h, ih]

section Lawful

variable [Std.TransOrd κ] [Std.LawfulEqOrd κ]

/-- The table with the value of `k` set to `v`. -/
def insert (t : Table κ ν) (k : κ) (v : ν) : Table κ ν :=
  ⟨place k v t.entries, place_ascending t.ascending⟩

/-- The table of some entries; of two entries with one key the later wins. -/
def ofList (l : List (κ × ν)) : Table κ ν :=
  l.foldl (fun t e => t.insert e.1 e.2) empty

/-- The table with the value of `k` changed by `f`, where a missing one counts as `d`. -/
def update (t : Table κ ν) (k : κ) (d : ν) (f : ν → ν) : Table κ ν :=
  t.insert k (f ((t.get? k).getD d))

@[simp] theorem get?_insert (t : Table κ ν) (k j : κ) (v : ν) :
    (t.insert k v).get? j = if compare j k = .eq then some v else t.get? j :=
  find?_place

end Lawful

/-- The entries that pass a test. -/
def filter (t : Table κ ν) (keep : κ → ν → Bool) : Table κ ν :=
  ⟨t.entries.filter (fun e => keep e.1 e.2), t.ascending.filter _⟩

/-- The table with every value changed by `f`, which may look at the key. -/
def mapValues (t : Table κ ν) (f : κ → ν → ν') : Table κ ν' :=
  ⟨t.entries.map (fun e => (e.1, f e.1 e.2)), by
    rw [List.pairwise_map]; exact t.ascending⟩

@[simp] theorem get?_empty (k : κ) : (empty : Table κ ν).get? k = none := rfl

end Table

end Bourse
