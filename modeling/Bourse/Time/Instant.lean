/-!
# Instants

The running time is counted in seconds of 63 bits. A time past the last of these is no
instant, and whatever adds up to one breaks off.

## Main definitions

* `isInstant`: whether a running time can be counted.

## Theorems

* `isInstant_of_le`: an earlier time than one that can be counted can be counted.
-/

namespace Bourse

/-- The last running time that can be counted, in milliseconds. -/
def lastInstant : Nat := 9223372036854775807999

/-- Whether a running time can be counted. -/
def isInstant (t : Nat) : Bool := t ≤ lastInstant

theorem isInstant_of_le {t t' : Nat} (h : isInstant t' = true) (hle : t ≤ t') :
    isInstant t = true :=
  decide_eq_true (Nat.le_trans hle (of_decide_eq_true h))

end Bourse
