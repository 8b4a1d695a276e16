import Mathlib.Algebra.Group.Nat.Defs
import Mathlib.Data.Nat.Basic
import Mathlib.Tactic.Cases

/-!
# Word-sized unsigned arithmetic

Lengths, capacities and positions of the modelled program are 64-bit words. They are represented
here by natural numbers, and the two additions that observe the word size, `checked_add` and
`saturating_add`, keep the overflow behaviour explicit.
-/

namespace HotBatch.Usize

/-- Number of values of a 64-bit word. -/
def size : ℕ := 2 ^ 64

/-- `usize::MAX`. -/
def maxValue : ℕ := size - 1

/-- `usize::checked_add`. -/
def checkedAdd (left right : ℕ) : Option ℕ :=
  if left + right < size then some (left + right) else none

/-- `usize::saturating_add`. -/
def saturatingAdd (left right : ℕ) : ℕ := min (left + right) maxValue

/-- A checked sum that exists is the exact sum, and the exact sum fits the word. -/
theorem checkedAdd_eq_some {left right sum : ℕ} :
    checkedAdd left right = some sum ↔ left + right < size ∧ sum = left + right := by
  unfold checkedAdd
  by_cases hfits : left + right < size
  · rw [if_pos hfits]
    simp only [Option.some.injEq, hfits, true_and]
    exact eq_comm
  · simp [hfits]

/-- Saturation is invisible as long as the exact sum fits the word. -/
theorem saturatingAdd_eq_add {left right : ℕ} (hfits : left + right < size) :
    saturatingAdd left right = left + right := by
  unfold saturatingAdd maxValue
  omega

end HotBatch.Usize
