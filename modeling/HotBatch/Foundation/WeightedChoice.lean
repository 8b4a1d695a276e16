import Mathlib.Algebra.Order.BigOperators.Group.List
import Mathlib.Algebra.Order.Group.Unbundled.Basic

/-!
# Choosing an entry by its weight

Weights in a row divide a range into intervals, one for each entry, and a target in the range chooses
the entry in whose interval it lies. A scan that subtracts one weight after the other finds that
entry. The other scan of this module adds weights up until a threshold is reached.
-/

namespace HotBatch.WeightedChoice

variable {K : Type} [AddCommGroup K] {weights : List K} {target threshold start weight : K}
  {rank other : ℕ}

/-- The weight of the first entries. -/
def cumulative (weights : List K) (rank : ℕ) : K := (weights.take rank).sum

@[simp]
theorem cumulative_zero : cumulative weights 0 = 0 := rfl

@[simp]
theorem cumulative_cons_succ (rank : ℕ) :
    cumulative (weight :: weights) (rank + 1) = weight + cumulative weights rank := by
  rw [cumulative, List.take_succ_cons, List.sum_cons, cumulative]

theorem cumulative_of_length_le (hle : weights.length ≤ rank) :
    cumulative weights rank = weights.sum := by
  rw [cumulative, List.take_of_length_le hle]

variable [LinearOrder K] [IsOrderedAddMonoid K]

theorem cumulative_mono (hweights : ∀ weight ∈ weights, 0 ≤ weight) :
    Monotone (cumulative weights) := by
  intro rank other hle
  obtain ⟨more, rfl⟩ := Nat.exists_eq_add_of_le hle
  rw [cumulative, cumulative, List.take_add, List.sum_append]
  refine le_add_of_nonneg_right (List.sum_nonneg fun weight hmem ↦ ?_)
  exact hweights weight (List.mem_of_mem_drop (List.mem_of_mem_take hmem))

/-! ## The interval of an entry -/

/-- The target lies in the interval of the entry. The first interval has no lower end. -/
structure Chooses (weights : List K) (target : K) (rank : ℕ) : Prop where
  lt_length : rank < weights.length
  above : rank = 0 ∨ cumulative weights rank < target
  below : target ≤ cumulative weights (rank + 1)

/-- Intervals do not overlap. -/
theorem Chooses.not_lt (hweights : ∀ weight ∈ weights, 0 ≤ weight)
    (hrank : Chooses weights target rank) (hother : Chooses weights target other) :
    ¬ rank < other := by
  intro hlt
  have hreached := hrank.below.trans (cumulative_mono hweights (Nat.succ_le_of_lt hlt))
  cases hother.above with
  | inl hfirst => exact Nat.not_lt_zero _ (hfirst ▸ hlt)
  | inr habove => exact absurd hreached (not_le_of_gt habove)

theorem Chooses.unique (hweights : ∀ weight ∈ weights, 0 ≤ weight)
    (hrank : Chooses weights target rank) (hother : Chooses weights target other) :
    rank = other :=
  Nat.le_antisymm (Nat.not_lt.mp (hother.not_lt hweights hrank))
    (Nat.not_lt.mp (hrank.not_lt hweights hother))

/-- Past the first interval, the target is measured from its end. -/
theorem chooses_cons_succ_iff (hpast : weight < target) :
    Chooses (weight :: weights) target (rank + 1) ↔ Chooses weights (target - weight) rank := by
  constructor
  · rintro ⟨hlt, habove, hbelow⟩
    rw [cumulative_cons_succ] at habove hbelow
    refine ⟨Nat.lt_of_succ_lt_succ hlt, ?_, sub_le_iff_le_add'.mpr hbelow⟩
    exact .inr (lt_sub_iff_add_lt'.mpr (habove.resolve_left (Nat.succ_ne_zero _)))
  · rintro ⟨hlt, habove, hbelow⟩
    refine ⟨Nat.succ_lt_succ hlt, .inr ?_, ?_⟩
    · rw [cumulative_cons_succ]
      cases habove with
      | inl hfirst => rwa [hfirst, cumulative_zero, add_zero]
      | inr habove => exact lt_sub_iff_add_lt'.mp habove
    · rw [cumulative_cons_succ]
      exact sub_le_iff_le_add'.mp hbelow

/-- The scan that subtracts weights from the target until one reaches it. -/
def scan (target : K) : List K → Option ℕ
  | [] => none
  | weight :: rest =>
      if target ≤ weight then some 0 else (scan (target - weight) rest).map (· + 1)

/-- **The scan finds the entry in whose interval the target lies.** -/
theorem scan_eq_some_iff (hweights : ∀ weight ∈ weights, 0 ≤ weight) :
    scan target weights = some rank ↔ Chooses weights target rank := by
  induction weights generalizing target rank with
  | nil =>
      constructor
      · intro hscan
        cases hscan
      · intro hchooses
        exact absurd hchooses.lt_length (Nat.not_lt_zero _)
  | cons weight rest ih =>
      have hrest := fun entry hmem ↦ hweights entry (List.mem_cons_of_mem weight hmem)
      rw [scan]
      by_cases hreached : target ≤ weight
      · rw [if_pos hreached]
        have hfirst : Chooses (weight :: rest) target 0 := by
          refine ⟨Nat.succ_pos _, .inl rfl, ?_⟩
          rwa [cumulative_cons_succ, cumulative_zero, add_zero]
        constructor
        · intro heq
          rwa [← Option.some.inj heq]
        · intro hchooses
          rw [hfirst.unique hweights hchooses]
      · rw [if_neg hreached, Option.map_eq_some_iff]
        constructor
        · rintro ⟨before, hbefore, rfl⟩
          exact (chooses_cons_succ_iff (not_le.mp hreached)).mpr ((ih hrest).mp hbefore)
        · intro hchooses
          cases rank with
          | zero =>
              have hbelow := hchooses.below
              rw [cumulative_cons_succ, cumulative_zero, add_zero] at hbelow
              exact absurd hbelow hreached
          | succ rank =>
              exact ⟨rank, (ih hrest).mpr
                ((chooses_cons_succ_iff (not_le.mp hreached)).mp hchooses), rfl⟩

/-- A target up to the whole weight chooses an entry. -/
theorem exists_scan_eq_some (hne : weights ≠ []) (htarget : target ≤ weights.sum) :
    ∃ rank < weights.length, scan target weights = some rank := by
  induction weights generalizing target with
  | nil => exact absurd rfl hne
  | cons weight rest ih =>
      rw [scan]
      by_cases hreached : target ≤ weight
      · exact ⟨0, Nat.succ_pos _, if_pos hreached⟩
      · rw [List.sum_cons] at htarget
        have hrest : rest ≠ [] := by
          rintro rfl
          rw [List.sum_nil, add_zero] at htarget
          exact hreached htarget
        obtain ⟨rank, hlt, hscan⟩ := ih hrest (sub_le_iff_le_add'.mpr htarget)
        refine ⟨rank + 1, Nat.succ_lt_succ hlt, ?_⟩
        rw [if_neg hreached, hscan, Option.map_some]

/-! ## Reaching a threshold -/

/-- How many entries the scan takes that adds weights up until they reach the threshold. -/
def reaching (threshold start : K) : List K → ℕ
  | [] => 0
  | weight :: rest =>
      if threshold ≤ start + weight then 1 else reaching threshold (start + weight) rest + 1

/-- The number of entries is the least that reaches the threshold. -/
structure Reaches (weights : List K) (threshold : K) (count : ℕ) : Prop where
  le_length : count ≤ weights.length
  reached : threshold ≤ cumulative weights count
  least : ∀ fewer < count, cumulative weights fewer < threshold

theorem reaches_reaching (hstart : start < threshold) (hsum : threshold ≤ start + weights.sum) :
    Reaches weights (threshold - start) (reaching threshold start weights) := by
  induction weights generalizing start with
  | nil =>
      rw [List.sum_nil, add_zero] at hsum
      exact absurd hsum (not_le_of_gt hstart)
  | cons weight rest ih =>
      rw [reaching]
      by_cases hreached : threshold ≤ start + weight
      · rw [if_pos hreached]
        refine ⟨Nat.succ_pos _, ?_, fun fewer hfewer ↦ ?_⟩
        · rw [cumulative_cons_succ, cumulative_zero, add_zero]
          exact sub_le_iff_le_add'.mpr hreached
        · rw [Nat.lt_one_iff.mp hfewer, cumulative_zero]
          exact sub_pos.mpr hstart
      · rw [if_neg hreached]
        rw [List.sum_cons, ← add_assoc] at hsum
        obtain ⟨hlength, hrest, hleast⟩ := ih (not_le.mp hreached) hsum
        rw [← sub_sub] at hrest hleast
        refine ⟨Nat.succ_le_succ hlength, ?_, fun fewer hfewer ↦ ?_⟩
        · rw [cumulative_cons_succ]
          exact sub_le_iff_le_add'.mp hrest
        · cases fewer with
          | zero => exact sub_pos.mpr hstart
          | succ fewer =>
              rw [cumulative_cons_succ]
              exact lt_sub_iff_add_lt'.mp (hleast fewer (Nat.lt_of_succ_lt_succ hfewer))

end HotBatch.WeightedChoice
