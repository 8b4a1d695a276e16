import Mathlib.Algebra.Group.Nat.Defs
import Mathlib.Data.List.Basic

/-!
# Floating-point scalars

The program computes with `f32` tensors and samples with `f64` weights. No result of this
development depends on the rounding of a particular format, so a float type is any type that has
the operations the program applies to it; two of them, with the widening cast, make up `Floats`.
Results that need arithmetic to be exact ask for the few laws in `ExactScalar` by name.
-/

namespace HotBatch

/-- The operations of a floating-point type. Comparisons are Boolean and nothing is assumed of
them, since an unordered value compares false to everything. -/
class Scalar (α : Type) extends Zero α, One α, Add α, Neg α, Sub α, Mul α, Div α, NatCast α,
    OfScientific α where
  le : α → α → Bool
  lt : α → α → Bool
  /-- `left.total_cmp(&right)` is not `Greater`. -/
  totalLe : α → α → Bool
  /-- `value > NEG_INFINITY`. -/
  aboveNegInfinity : α → Bool
  exp : α → α

namespace Scalar

variable {α : Type} [Scalar α]

/-- `max` of two floats; the second operand is returned when the first is not comparable. -/
def max (left right : α) : α := if lt right left then left else right

def clamp (value low high : α) : α :=
  if lt value low then low else if lt high value then high else value

def sum (values : List α) : α := values.foldl (· + ·) 0

end Scalar

/-- Single precision together with the double precision it is widened to. -/
class Floats (α : Type) extends Scalar α where
  Double : Type
  doubleScalar : Scalar Double
  widen : α → Double
  /-- `f32::EPSILON`. -/
  epsilon : α

instance {α : Type} [Floats α] : Scalar (Floats.Double α) := Floats.doubleScalar

/-- The laws of exact arithmetic that incremental decoding relies on: weight zero removes a
summand. -/
class ExactScalar (α : Type) [Scalar α] : Prop where
  add_zero : ∀ value : α, value + 0 = value
  zero_mul : ∀ value : α, 0 * value = 0
  zero_div : ∀ value : α, 0 / value = 0

end HotBatch
