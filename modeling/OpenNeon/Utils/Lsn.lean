import Mathlib.Tactic.Ring
import Mathlib.Order.Defs.LinearOrder

/-!
# Log sequence numbers and half-open ranges
-/

namespace OpenNeon

abbrev Lsn := Nat

/-- A half-open range: the start belongs to it, the stop does not. -/
structure Range (alpha : Type) where
  start : alpha
  stop : alpha
  deriving DecidableEq

namespace Range

variable {alpha : Type} [LinearOrder alpha]

instance : Membership alpha (Range alpha) :=
  ⟨fun r x => r.start ≤ x ∧ x < r.stop⟩

theorem mem_def {r : Range alpha} {x : alpha} : x ∈ r <-> r.start ≤ x ∧ x < r.stop := Iff.rfl

instance (x : alpha) (r : Range alpha) : Decidable (x ∈ r) :=
  decidable_of_iff _ mem_def.symm

def isEmpty (r : Range alpha) : Bool :=
  !decide (r.start < r.stop)

theorem isEmpty_eq_false_iff {r : Range alpha} : r.isEmpty = false <-> r.start < r.stop := by
  simp [isEmpty]

end Range
end OpenNeon
