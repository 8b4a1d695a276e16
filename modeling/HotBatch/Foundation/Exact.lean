import Mathlib.Algebra.Order.Field.Basic
import Mathlib.Tactic.NormNum.OfScientific
import HotBatch.Foundation.Scalar

/-!
# Exact floats

Both precisions are replaced by one ordered field, such as the rationals, and the exponential by a
weight function of its elements. What is proved over these floats is what the program would compute
if it never rounded.
-/

namespace HotBatch

section Scalars

variable {K : Type} [Field K] [LinearOrder K]

/-- The operations of a field, with `weight` for the exponential. No element is infinite. -/
abbrev exactScalar (weight : K → K) : Scalar K where
  ofScientific := OfScientific.ofScientific
  le left right := decide (left ≤ right)
  lt left right := decide (left < right)
  totalLe left right := decide (left ≤ right)
  aboveNegInfinity _ := true
  exp := weight

end Scalars

/-- A field as the single precision, with `weight` for the exponential. -/
def Exact {K : Type} (_weight : K → K) : Type := K

namespace Exact

variable {K : Type} [Field K] [LinearOrder K] {weight : K → K}

instance : Field (Exact weight) := inferInstanceAs (Field K)

instance : LinearOrder (Exact weight) := inferInstanceAs (LinearOrder K)

instance [IsStrictOrderedRing K] : IsStrictOrderedRing (Exact weight) :=
  inferInstanceAs (IsStrictOrderedRing K)

instance : Floats (Exact weight) where
  toScalar := exactScalar weight
  Double := K
  doubleScalar := exactScalar weight
  widen value := value
  epsilon := 1 / (2 ^ 23 : ℕ)

theorem le_iff {left right : K} :
    @Scalar.le K (exactScalar weight) left right = true ↔ left ≤ right := decide_eq_true_iff

theorem lt_iff {left right : K} :
    @Scalar.lt K (exactScalar weight) left right = true ↔ left < right := decide_eq_true_iff

theorem totalLe_iff {left right : K} :
    @Scalar.totalLe K (exactScalar weight) left right = true ↔ left ≤ right := decide_eq_true_iff

/-- The sum of the program is the sum of the field. -/
theorem sum_eq (values : List K) : @Scalar.sum K (exactScalar weight) values = values.sum :=
  List.sum_eq_foldl.symm

end Exact

end HotBatch
