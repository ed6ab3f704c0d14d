import Bourse.Json.Decode
import Bourse.Proofs.Time.Rfc3339
import Mathlib.Data.List.Nodup
import Mathlib.Tactic.SplitIfs

/-!
# Fields and Simple Values

What the decoders make of what the encoders write. A record that is written with its fields in
order is taken apart into the values of those fields. One member more changes one field and
nothing else, wherever it stands, as long as no other member has its name; that is what lets a
document without a field be compared to the same document with it.

## Main definitions

* `Json.Names`: the name of a member is the one of a field.
* `Json.fill`: what one member does to the fields.

## Theorems

* `fields?_ofMembers`: a record is taken apart into its fields.
* `place_insert`: one member more sets one field.
* `int64?_ofInt`, `nat?_ofNat`, `timestamp?_ofTimestamp` and so on: simple values are read back.
-/

namespace Bourse

namespace Json

variable {names : List String} {found r : List (Option Json)} {i : Nat}

/-! ## The fields of a record -/

/-- The members of a record in order fill the fields from the first one that is free. -/
theorem place_inOrder (done : List String) (values : List Json) (l : List (String × Json))
    (hlength : values.length = done.length) (hnodup : (done ++ l.map (·.1)).Nodup) :
    place (done ++ l.map (·.1)) (l.map (fun m => (some m.1, m.2)))
        (values.map some ++ l.map (fun _ => none)) =
      some (values.map some ++ l.map (fun m => some m.2)) := by
  induction l generalizing done values with
  | nil => rfl
  | cons m l ih =>
      have hnot : m.1 ∉ done := by
        intro hm
        rw [List.nodup_append] at hnodup
        exact hnodup.2.2 _ hm _ List.mem_cons_self rfl
      have hindex : (done ++ m.1 :: l.map (·.1)).idxOf? m.1 = some done.length := by
        rw [List.idxOf?_eq_some_iff]
        refine ⟨by simp, by simp, fun j hj heq => hnot ?_⟩
        rw [List.getElem_append_left (by simpa using hj)] at heq
        rw [← heq]
        exact List.getElem_mem _
      have ih := ih (done ++ [m.1]) (values ++ [m.2])
        (by rw [List.length_append, List.length_append, hlength]; rfl)
        (by rw [List.append_assoc]; exact hnodup)
      simp only [List.append_assoc, List.singleton_append, List.map_append, List.map_cons,
        List.map_nil] at ih
      have hfree : (values.map some ++ none :: l.map (fun _ => (none : Option Json)))[done.length]? =
          some none := by
        rw [← hlength, ← List.length_map (f := some), List.getElem?_append_right (Nat.le_refl _),
          Nat.sub_self]
        rfl
      have hset : (values.map some ++ none :: l.map (fun _ => (none : Option Json))).set done.length
          (some m.2) = values.map some ++ some m.2 :: l.map (fun _ => none) := by
        rw [← hlength, ← List.length_map (f := some), List.set_append_right _ _ (Nat.le_refl _),
          Nat.sub_self]
        rfl
      simp only [List.map_cons, place, hindex, hfree, hset]
      exact ih

/-- A record that is written with its fields in order is taken apart into them. -/
theorem fields?_ofMembers (l : List (String × Json)) (hnames : l.map (·.1) = names)
    (hnodup : names.Nodup) : (ofMembers l).fields? names = some (l.map (fun m => some m.2)) := by
  subst hnames
  have hplace := place_inOrder [] [] l rfl hnodup
  rw [List.nil_append] at hplace
  rw [ofMembers, fields?, List.map_map]
  exact hplace

/-! ## One member more -/

/-- The name of a member is the one of a field. -/
def Names (names : List String) (i : Nat) (m : Option String × Json) : Prop :=
  m.1.bind names.idxOf? = some i

/-- What one member does to the fields: nothing, an error, or it gives a value to a field that
has none. -/
def fill (names : List String) (m : Option String × Json) (found : List (Option Json)) :
    Option (List (Option Json)) :=
  match m.1 with
  | none => none
  | some name =>
    match names.idxOf? name with
    | none => some found
    | some k =>
      match found[k]? with
      | some none => some (found.set k (some m.2))
      | _ => none

theorem place_cons (m : Option String × Json) (l : List (Option String × Json)) :
    place names (m :: l) found = (fill names m found).bind (place names l) := by
  rcases m with ⟨_ | name, j⟩
  · rfl
  · simp only [place, fill]
    cases names.idxOf? name with
    | none => rfl
    | some k =>
        dsimp only
        rcases found[k]? with _ | _ | _ <;> rfl

theorem fill_of_free {name : String} {j : Json} (hindex : names.idxOf? name = some i)
    (hfree : found[i]? = some none) :
    fill names (some name, j) found = some (found.set i (some j)) := by
  simp only [fill, hindex, hfree]

theorem fill_eq_some {m : Option String × Json} (h : fill names m found = some r)
    (hi : ¬ Names names i m) : r.length = found.length ∧ r[i]? = found[i]? := by
  rcases m with ⟨_ | name, j⟩
  · cases h
  · rw [Names, Option.bind_some] at hi
    simp only [fill] at h
    split at h
    · rw [Option.some.inj h]
      exact ⟨rfl, rfl⟩
    · next k hindex =>
      split at h
      · rw [← Option.some.inj h]
        exact ⟨List.length_set, List.getElem?_set_ne (fun hk => hi (by rw [hindex, hk]))⟩
      · cases h

/-- A field may be set before or after a member that does not name it. -/
theorem fill_set {m : Option String × Json} (hi : ¬ Names names i m) (x : Option Json) :
    fill names m (found.set i x) = (fill names m found).map (·.set i x) := by
  rcases m with ⟨_ | name, j⟩
  · rfl
  · rw [Names, Option.bind_some] at hi
    simp only [fill]
    cases hindex : names.idxOf? name with
    | none => rfl
    | some k =>
        have hne : i ≠ k := fun hk => hi (by rw [hindex, hk])
        dsimp only
        rw [List.getElem?_set_ne hne, List.set_comm _ _ hne]
        split <;> rfl

/-- A field that no member names stays as it was, and there are as many fields as before. -/
theorem place_eq_some {l : List (Option String × Json)} (h : place names l found = some r)
    (hi : ∀ m ∈ l, ¬ Names names i m) : r.length = found.length ∧ r[i]? = found[i]? := by
  induction l generalizing found with
  | nil =>
      rw [Option.some.inj h]
      exact ⟨rfl, rfl⟩
  | cons m l ih =>
      rw [place_cons] at h
      rcases Option.bind_eq_some_iff.1 h with ⟨middle, hfill, hplace⟩
      rcases fill_eq_some hfill (hi m List.mem_cons_self) with ⟨hlength, hget⟩
      rcases ih hplace (fun m hm => hi m (List.mem_cons_of_mem _ hm)) with ⟨hlength', hget'⟩
      exact ⟨hlength'.trans hlength, hget'.trans hget⟩

theorem place_set (l : List (Option String × Json)) (hi : ∀ m ∈ l, ¬ Names names i m)
    (x : Option Json) : place names l (found.set i x) = (place names l found).map (·.set i x) := by
  induction l generalizing found with
  | nil => rfl
  | cons m l ih =>
      rw [place_cons, place_cons, fill_set (hi m List.mem_cons_self)]
      cases fill names m found with
      | none => rfl
      | some middle => exact ih (fun m hm => hi m (List.mem_cons_of_mem _ hm))

/-- One member more sets its field and nothing else, wherever it stands. -/
theorem place_insert {name : String} (before after : List (Option String × Json)) (j : Json)
    (hindex : names.idxOf? name = some i) (hfree : found[i]? = some none)
    (hbefore : ∀ m ∈ before, ¬ Names names i m) (hafter : ∀ m ∈ after, ¬ Names names i m) :
    place names (before ++ (some name, j) :: after) found =
      (place names (before ++ after) found).map (·.set i (some j)) := by
  induction before generalizing found with
  | nil =>
      rw [List.nil_append, List.nil_append, place_cons, fill_of_free hindex hfree]
      exact place_set after hafter (some j)
  | cons m before ih =>
      rw [List.cons_append, List.cons_append, place_cons, place_cons]
      cases hfill : fill names m found with
      | none => rfl
      | some middle =>
          have hget := (fill_eq_some hfill (hbefore m List.mem_cons_self)).2
          exact ih (hget.trans hfree) (fun m hm => hbefore m (List.mem_cons_of_mem _ hm))

/-! ## Simple values -/

theorem int64?_ofInt (n : Int64) : (ofInt n.toInt).int64? = some n.toInt := by
  rw [int64?, ofInt, int?]
  exact if_pos ⟨Int64.minValue_le_toInt n, Int64.toInt_le n⟩

theorem int32?_ofInt (n : Int32) :
    (ofInt n.toInt).int? Int32.minValue.toInt Int32.maxValue.toInt = some n.toInt := by
  rw [ofInt, int?]
  exact if_pos ⟨Int32.minValue_le_toInt n, Int32.toInt_le n⟩

/-- A natural number that has at most 64 bits is read back. -/
theorem nat?_ofNat {n : Nat} (h : n < UInt64.size) : (ofNat n).nat? = some n := by
  rw [nat?, ofNat, ofInt, int?, if_pos ⟨by omega, by omega⟩]
  rfl

theorem string?_ofString (s : String) : (ofString s).string? = some s := rfl

theorem timestamp?_ofTimestamp {t : Timestamp} (h : t.WellFormed) :
    (ofTimestamp t).timestamp? = some t := by
  rw [timestamp?, ofTimestamp, string?_ofString, Option.bind_some,
    Timestamp.ofRfc3339?_rfc3339 h]

/-- A value or null is read back, if the value is not written as null. -/
theorem optional?_ofOption {α : Type} {encode : α → Json} {decode : Json → Option α} {o : Option α}
    (h : ∀ a ∈ o, decode (encode a) = some a ∧ encode a ≠ .null) :
    (ofOption encode o).optional? decode = some o := by
  cases o with
  | none => rfl
  | some a =>
      rcases h a rfl with ⟨hread, hnull⟩
      rw [ofOption, optional?.eq_2 decode (encode a) hnull, hread, Option.map_some]

/-- A table is read back entry by entry. -/
theorem table?_ofMembers {α : Type} {encode : α → Json} {decode : Json → Option α}
    (l : List (String × α)) (h : ∀ e ∈ l, decode (encode e.2) = some e.2) :
    (ofMembers (l.map (fun e => (e.1, encode e.2)))).table? decode = some l := by
  rw [ofMembers, table?, List.map_map]
  induction l with
  | nil => rfl
  | cons e l ih =>
      rw [List.map_cons, List.mapM_cons, ih (fun a ha => h a (List.mem_cons_of_mem _ ha))]
      simp only [Function.comp_apply, h e List.mem_cons_self, Option.map_some]
      rfl

end Json

end Bourse
