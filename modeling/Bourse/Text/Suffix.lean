/-!
# Suffixes

## Main definitions

* `stripSuffix?`: what stands before a suffix.

## Theorems

* `stripSuffix?_append`: a text with a suffix behind it has it stripped.
* `eq_append_of_stripSuffix?`: only a text that ends in the suffix has it stripped.
-/

namespace Bourse.Text

/-- What stands before a suffix, if a text ends in it. -/
def stripSuffix? (suffix s : String) : Option String :=
  let before := s.toList.length - suffix.toList.length
  if s.toList.drop before = suffix.toList then some (String.ofList (s.toList.take before)) else none

theorem stripSuffix?_append (s suffix : String) : stripSuffix? suffix (s ++ suffix) = some s := by
  simp [stripSuffix?]

theorem eq_append_of_stripSuffix? {suffix s t : String} (h : stripSuffix? suffix s = some t) :
    s = t ++ suffix := by
  unfold stripSuffix? at h
  simp only [Option.ite_none_right_eq_some, Option.some.injEq] at h
  obtain ⟨hs, rfl⟩ := h
  apply String.toList_inj.1
  rw [String.toList_append, String.toList_ofList]
  generalize s.toList.length - suffix.toList.length = n at hs ⊢
  rw [← hs, List.take_append_drop]

end Bourse.Text
