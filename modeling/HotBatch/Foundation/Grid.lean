import HotBatch.Foundation.WeightedChoice
import Mathlib.Algebra.BigOperators.Intervals
import Mathlib.Algebra.Order.Field.Basic
import Mathlib.Tactic.Linarith
import Mathlib.Tactic.Ring

/-!
# Counting on a grid

A range divided by weights, and a grid of equally many steps over it: every entry is chosen by as
many grid points as its share of the range says, up to one.
-/

namespace HotBatch.Grid

open WeightedChoice

section Below

variable {K : Type} [Field K] [LinearOrder K]

/-- The numbers up to a bound, among the first `size` ones. -/
def pointsBelow (bound : K) (size : ℕ) : Finset ℕ :=
  (Finset.range size).filter fun (point : ℕ) ↦ (point : K) ≤ bound

theorem mem_pointsBelow {bound : K} {size point : ℕ} :
    point ∈ pointsBelow bound size ↔ point < size ∧ (point : K) ≤ bound := by
  rw [pointsBelow, Finset.mem_filter, Finset.mem_range]

variable [IsStrictOrderedRing K]

/-- There are as many as the bound says, up to one, unless all are below it. -/
theorem card_pointsBelow {bound : K} (hbound : 0 ≤ bound) (size : ℕ) :
    ((pointsBelow bound size).card : K) ≤ bound + 1 ∧
      (bound ≤ (pointsBelow bound size).card ∨ (pointsBelow bound size).card = size) := by
  induction size with
  | zero => exact ⟨by simpa [pointsBelow] using add_nonneg hbound zero_le_one, Or.inr rfl⟩
  | succ size ih =>
      by_cases hreached : (size : K) ≤ bound
      · have hall : pointsBelow bound (size + 1) = Finset.range (size + 1) := by
          apply Finset.filter_true_of_mem
          intro point hpoint
          exact (Nat.cast_le.mpr (Nat.lt_succ_iff.mp (Finset.mem_range.mp hpoint))).trans hreached
        rw [hall, Finset.card_range]
        refine ⟨?_, Or.inr rfl⟩
        rw [Nat.cast_add, Nat.cast_one]
        exact add_le_add_left hreached 1
      · have hsame : pointsBelow bound (size + 1) = pointsBelow bound size := by
          rw [pointsBelow, Finset.range_add_one, Finset.filter_insert, if_neg hreached]
          rfl
        rw [hsame]
        refine ⟨ih.1, Or.inl ?_⟩
        rcases ih.2 with hle | heq
        · exact hle
        · rw [heq]
          exact (not_le.mp hreached).le

end Below

/-- As many numbers as `step` times those whose quotient has a property have it themselves. -/
theorem card_quotients (p : ℕ → Prop) [DecidablePred p] (size : ℕ) {step : ℕ} (hstep : 0 < step) :
    ((Finset.range (size * step)).filter fun value ↦ p (value / step)).card =
      step * ((Finset.range size).filter p).card := by
  simp only [Finset.card_filter]
  induction size with
  | zero => rw [Nat.zero_mul]; simp
  | succ size ih =>
      have hlast : ∀ offset ∈ Finset.range step,
          (if p ((size * step + offset) / step) then 1 else 0) = if p size then 1 else 0 := by
        intro offset hoffset
        rw [Nat.mul_comm, Nat.mul_add_div hstep, Nat.div_eq_of_lt (Finset.mem_range.mp hoffset),
          Nat.add_zero]
      rw [Nat.succ_mul, Finset.sum_range_add, ih, Finset.sum_congr rfl hlast, Finset.sum_const,
        Finset.card_range, Finset.sum_range_succ, Nat.mul_add, nsmul_eq_mul]
      simp

/-- Leaving out zero costs one number at most. -/
theorem card_positive (p : ℕ → Prop) [DecidablePred p] {size : ℕ} (hsize : 0 < size) :
    ((Finset.Ico 1 size).filter p).card + (if p 0 then 1 else 0) =
      ((Finset.range size).filter p).card := by
  have hsplit : Finset.range size = insert 0 (Finset.Ico 1 size) := by
    rw [Finset.range_eq_Ico]
    exact (Finset.insert_Ico_add_one_left_eq_Ico hsize).symm
  rw [hsplit, Finset.filter_insert]
  split
  · rw [Finset.card_insert_of_notMem (by simp)]
  · rw [Nat.add_zero]

section Shares

variable {K : Type} [Field K] [LinearOrder K] [IsStrictOrderedRing K] {weights : List K}

/-- The weight up to an entry, in steps of the grid. -/
def stepsBelow (weights : List K) (size rank : ℕ) : K :=
  cumulative weights rank * size / weights.sum

theorem stepsBelow_succ {rank : ℕ} (hrank : rank < weights.length) (size : ℕ) :
    stepsBelow weights size (rank + 1) =
      stepsBelow weights size rank + weights[rank] * size / weights.sum := by
  unfold stepsBelow cumulative
  rw [← List.take_append_getElem hrank, List.sum_append, List.sum_singleton]
  ring

variable (hweights : ∀ weight ∈ weights, 0 ≤ weight) (htotal : 0 < weights.sum) {size : ℕ}
  (hsize : 0 < size)
include hweights htotal hsize

theorem stepsBelow_bounds (rank : ℕ) :
    0 ≤ stepsBelow weights size rank ∧ stepsBelow weights size rank ≤ size := by
  have hnonneg : 0 ≤ cumulative weights rank := by
    simpa using cumulative_mono hweights (Nat.zero_le rank)
  have hle : cumulative weights rank ≤ weights.sum := by
    rw [← cumulative_of_length_le (Nat.le_max_right rank weights.length)]
    exact cumulative_mono hweights (Nat.le_max_left _ _)
  have hpos : (0 : K) < size := Nat.cast_pos.mpr hsize
  refine ⟨div_nonneg (mul_nonneg hnonneg hpos.le) htotal.le, ?_⟩
  unfold stepsBelow
  rw [div_le_iff₀ htotal, mul_comm]
  exact mul_le_mul_of_nonneg_left hle hpos.le

omit hweights in
/-- A grid point chooses the entry between whose ends it lies. -/
theorem chooses_point_iff {rank : ℕ} (hrank : rank < weights.length) (point : ℕ) :
    Chooses weights ((point : K) / size * weights.sum) rank ↔
      (rank = 0 ∨ ¬ (point : K) ≤ stepsBelow weights size rank) ∧
        (point : K) ≤ stepsBelow weights size (rank + 1) := by
  have hpos : (0 : K) < size := Nat.cast_pos.mpr hsize
  have hle : ∀ last, (point : K) / size * weights.sum ≤ cumulative weights last ↔
      (point : K) ≤ stepsBelow weights size last := by
    intro last
    unfold stepsBelow
    rw [le_div_iff₀ htotal, div_mul_eq_mul_div, div_le_iff₀ hpos]
  rw [← hle, ← hle, not_le]
  exact ⟨fun h ↦ ⟨h.above, h.below⟩, fun h ↦ ⟨hrank, h.1, h.2⟩⟩

/-- **Every entry is chosen by its share of the grid, up to one point.** The first entry is not
short of any. -/
theorem card_chooses {rank : ℕ} (hrank : rank < weights.length) (p : ℕ → Prop) [DecidablePred p]
    (hp : ∀ point < size, p point ↔ Chooses weights ((point : K) / size * weights.sum) rank) :
    weights[rank] * size / weights.sum - (if rank = 0 then 0 else 1) ≤
        ((Finset.range size).filter p).card ∧
      (((Finset.range size).filter p).card : K) ≤ weights[rank] * size / weights.sum + 1 := by
  have hreached : ∀ last, stepsBelow weights size last ≤
      (pointsBelow (stepsBelow weights size last) size).card := by
    intro last
    obtain ⟨hnonneg, hle⟩ := stepsBelow_bounds hweights htotal hsize last
    rcases (card_pointsBelow hnonneg size).2 with hreached | hall
    · exact hreached
    · rw [hall]
      exact hle
  have hnotPast : ∀ last, ((pointsBelow (stepsBelow weights size last) size).card : K) ≤
      stepsBelow weights size last + 1 :=
    fun last ↦ (card_pointsBelow (stepsBelow_bounds hweights htotal hsize last).1 size).1
  have hstep := stepsBelow_succ hrank size
  by_cases hfirst : rank = 0
  · have hsame : (Finset.range size).filter p =
        pointsBelow (stepsBelow weights size (rank + 1)) size := by
      apply Finset.filter_congr
      intro point hpoint
      rw [hp point (Finset.mem_range.mp hpoint), chooses_point_iff htotal hsize hrank]
      exact and_iff_right (Or.inl hfirst)
    have hzero : stepsBelow weights size rank = 0 := by
      rw [hfirst, stepsBelow, cumulative_zero, zero_mul, zero_div]
    rw [hzero, zero_add] at hstep
    rw [hsame, if_pos hfirst, sub_zero, ← hstep]
    exact ⟨hreached _, hnotPast _⟩
  · have hsame : (Finset.range size).filter p =
        pointsBelow (stepsBelow weights size (rank + 1)) size \
          pointsBelow (stepsBelow weights size rank) size := by
      ext point
      rw [Finset.mem_sdiff, mem_pointsBelow, mem_pointsBelow, Finset.mem_filter, Finset.mem_range]
      by_cases hpoint : point < size
      · rw [hp point hpoint, chooses_point_iff htotal hsize hrank]
        simp [hpoint, hfirst, and_comm]
      · simp [hpoint]
    have hsubset : pointsBelow (stepsBelow weights size rank) size ⊆
        pointsBelow (stepsBelow weights size (rank + 1)) size := by
      have hmass : 0 ≤ weights[rank] * size / weights.sum :=
        div_nonneg (mul_nonneg (hweights _ (List.getElem_mem hrank)) (Nat.cast_nonneg size))
          htotal.le
      intro point hmem
      rw [mem_pointsBelow] at hmem ⊢
      refine ⟨hmem.1, ?_⟩
      rw [hstep]
      exact le_add_of_le_of_nonneg hmem.2 hmass
    have hbefore := hreached rank
    have hbefore' := hnotPast rank
    have hafter := hreached (rank + 1)
    have hafter' := hnotPast (rank + 1)
    rw [hsame, if_neg hfirst, Finset.card_sdiff_of_subset hsubset,
      Nat.cast_sub (Finset.card_le_card hsubset)]
    constructor <;> linarith

end Shares

end HotBatch.Grid
