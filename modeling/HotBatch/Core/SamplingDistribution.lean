import Mathlib.Algebra.BigOperators.Ring.List
import Mathlib.Tactic.Linarith
import Mathlib.Tactic.NormNum
import HotBatch.Core.RandomStream
import HotBatch.Foundation.Ranking
import HotBatch.Foundation.WeightedChoice

/-!
# The distribution of sampled tokens

Over exact floats and any positive increasing weight function, the candidates of a row are its best
entries, cut to the shortest prefix that has the share `top_p` asks for, and a draw chooses the
candidate in whose interval of the kept weight it falls.
-/

namespace HotBatch

open Ranking WeightedChoice

variable {K : Type} [Field K] [LinearOrder K] {weight : K → K}

/-! ## The greedy choice -/

/-- The loop of `argmax` stops at the best of the entries it has seen. -/
theorem LogitRow.argmaxFrom_spec (best : ℕ × Exact weight) (index : ℕ)
    (row : LogitRow (Exact weight)) (hbest : best.1 < index) :
    ∃ top ∈ best :: indexed index row, argmaxFrom (best.1, some best.2) index row = top.1 ∧
      ∀ entry ∈ best :: indexed index row, entry = top ∨ Precedes top entry := by
  induction row generalizing best index with
  | nil =>
      refine ⟨best, List.mem_cons_self, rfl, fun entry hmem ↦ .inl ?_⟩
      exact List.mem_singleton.mp hmem
  | cons value rest ih =>
      rw [argmaxFrom, indexed_cons]
      by_cases hexceeds : best.2 < value
      · have htrue : exceeds value (some best.2) = true := decide_eq_true hexceeds
        obtain ⟨top, hmem, hargmax, hall⟩ := ih (index, value) (index + 1) (Nat.lt_succ_self _)
        rw [if_pos htrue]
        refine ⟨top, List.mem_cons_of_mem _ hmem, hargmax, fun entry hentry ↦ ?_⟩
        cases List.mem_cons.mp hentry with
        | inl heq =>
            have hbeaten : Precedes (index, value) entry := .inl (heq ▸ hexceeds)
            cases hall _ List.mem_cons_self with
            | inl hself => exact .inr (hself ▸ hbeaten)
            | inr hprecedes => exact .inr (hprecedes.trans hbeaten)
        | inr hentry => exact hall entry hentry
      · have hfalse : exceeds value (some best.2) = false := decide_eq_false hexceeds
        obtain ⟨top, hmem, hargmax, hall⟩ := ih best (index + 1) (Nat.lt_succ_of_lt hbest)
        rw [hfalse, if_neg Bool.false_ne_true]
        refine ⟨top, ?_, hargmax, fun entry hentry ↦ ?_⟩
        · cases List.mem_cons.mp hmem with
          | inl heq => exact heq ▸ List.mem_cons_self
          | inr hmem => exact List.mem_cons_of_mem _ (List.mem_cons_of_mem _ hmem)
        · have hbeaten : Precedes best (index, value) := precedes_of_le (not_lt.mp hexceeds) hbest
          cases List.mem_cons.mp hentry with
          | inl heq => exact hall entry (heq ▸ List.mem_cons_self)
          | inr hentry =>
              cases List.mem_cons.mp hentry with
              | inl heq =>
                  rw [heq]
                  cases hall _ List.mem_cons_self with
                  | inl hself => exact .inr (hself ▸ hbeaten)
                  | inr hprecedes => exact .inr (hprecedes.trans hbeaten)
              | inr hentry => exact hall entry (List.mem_cons_of_mem _ hentry)

/-- `argmax` is the index of the best entry. -/
theorem LogitRow.argmax_spec {logits : LogitRow (Exact weight)} (hne : logits ≠ []) :
    ∃ top ∈ indexed 0 logits, logits.argmax = top.1 ∧
      ∀ entry ∈ indexed 0 logits, entry = top ∨ Precedes top entry := by
  cases logits with
  | nil => exact absurd rfl hne
  | cons value rest => exact argmaxFrom_spec (0, value) 1 rest Nat.zero_lt_one

namespace Sampler

/-! ## The candidates -/

theorem ranked_eq (logits : LogitRow (Exact weight)) :
    ranked logits = (indexed 0 logits).insertionSort fun left right ↦
      Scalar.totalLe right.2 left.2 = true := rfl

theorem ranked_before (left right : ℕ × Exact weight) :
    Scalar.totalLe right.2 left.2 = true ↔ right.2 ≤ left.2 := decide_eq_true_iff

/-- How many entries `top_k` leaves. -/
def truncation (config : SamplerConfig (Exact weight)) (logits : LogitRow (Exact weight)) : ℕ :=
  (config.topK.map (max · 1)).getD logits.length

theorem truncated_eq_take (config : SamplerConfig (Exact weight))
    (logits : LogitRow (Exact weight)) :
    truncated config logits = (ranked logits).take (truncation config logits) := by
  unfold truncated truncation
  cases config.topK with
  | none =>
      have hlength : (ranked logits).length = logits.length := by
        rw [ranked_eq, List.length_insertionSort, length_indexed]
      rw [Option.map_none, Option.getD_none, ← hlength, List.take_length]
  | some topK => rfl

theorem best_truncated (config : SamplerConfig (Exact weight)) (logits : LogitRow (Exact weight)) :
    Best (truncation config logits) logits (truncated config logits) := by
  rw [truncated_eq_take, ranked_eq]
  exact best_take_insertionSort ranked_before logits _

theorem length_truncated_pos (config : SamplerConfig (Exact weight))
    {logits : LogitRow (Exact weight)} (hne : logits ≠ []) :
    0 < (truncated config logits).length := by
  have hlength := List.length_pos_iff.mpr hne
  rw [(best_truncated config logits).length_eq, truncation]
  cases config.topK with
  | none => exact lt_min hlength hlength
  | some topK => exact lt_min (Nat.lt_of_lt_of_le Nat.zero_lt_one (le_max_right _ _)) hlength

/-- The first candidate is the greedy choice. -/
theorem head_truncated (config : SamplerConfig (Exact weight)) {logits : LogitRow (Exact weight)}
    (hne : logits ≠ []) :
    ((truncated config logits).map Prod.fst).head? = some logits.argmax := by
  have hbest := best_truncated config logits
  have hlength := length_truncated_pos config hne
  obtain ⟨top, htop, hargmax, hall⟩ := LogitRow.argmax_spec hne
  cases htruncated : truncated config logits with
  | nil => rw [htruncated] at hlength; cases hlength
  | cons first rest =>
      rw [htruncated] at hbest
      have hfirst := hbest.entries first List.mem_cons_self
      have heq : first = top := by
        cases hall first (mem_indexed_zero.mpr hfirst) with
        | inl heq => exact heq
        | inr hprecedes =>
            exfalso
            by_cases hmem : top ∈ first :: rest
            · cases List.mem_cons.mp hmem with
              | inl heq => exact hprecedes.asymm (heq ▸ hprecedes)
              | inr hmem => exact hprecedes.asymm (List.rel_of_pairwise_cons hbest.ordered hmem)
            · exact hprecedes.asymm (hbest.best first List.mem_cons_self top
                (mem_indexed_zero.mp htop) hmem)
      rw [List.map_cons, List.head?_cons, heq, hargmax]

/-! ## Their weights -/

section Weights

/-- The candidates that `top_k` leaves, with their weights. -/
def topWeighted (config : SamplerConfig (Exact weight)) (logits : LogitRow (Exact weight)) :
    List (ℕ × K) := weigh config (truncated config logits)

theorem map_fst_topWeighted (config : SamplerConfig (Exact weight))
    (logits : LogitRow (Exact weight)) :
    (topWeighted config logits).map Prod.fst = (truncated config logits).map Prod.fst :=
  map_fst_weigh config _

theorem length_topWeighted (config : SamplerConfig (Exact weight))
    (logits : LogitRow (Exact weight)) :
    (topWeighted config logits).length = (truncated config logits).length :=
  List.length_map _

theorem topWeighted_ne_nil (config : SamplerConfig (Exact weight))
    {logits : LogitRow (Exact weight)} (hne : logits ≠ []) : topWeighted config logits ≠ [] := by
  rw [← List.length_pos_iff, length_topWeighted]
  exact length_truncated_pos config hne

theorem topWeighted_pos (hpos : ∀ exponent, 0 < weight exponent)
    (config : SamplerConfig (Exact weight)) (logits : LogitRow (Exact weight)) :
    ∀ candidate ∈ topWeighted config logits, 0 < candidate.2 := by
  intro candidate hmem
  unfold topWeighted weigh at hmem
  obtain ⟨entry, _, rfl⟩ := List.mem_map.mp hmem
  exact hpos _

variable [IsStrictOrderedRing K]

/-- The temperature that divides the logits. -/
theorem warmth_pos (config : SamplerConfig (Exact weight)) :
    (0 : Exact weight) < Scalar.max config.temperature 0.001 := by
  have hleast : (0 : K) < 0.001 := by norm_num
  unfold Scalar.max
  split
  · next hlt => exact lt_trans hleast (Exact.lt_iff.mp hlt)
  · exact hleast

/-- Better entries do not weigh less. -/
theorem pairwise_topWeighted (hmono : Monotone weight) (config : SamplerConfig (Exact weight))
    (logits : LogitRow (Exact weight)) :
    (topWeighted config logits).Pairwise fun left right ↦ right.2 ≤ left.2 := by
  have hwarm := warmth_pos config
  unfold topWeighted weigh
  rw [List.pairwise_map]
  refine (best_truncated config logits).ordered.imp fun hprecedes ↦ ?_
  apply hmono
  exact div_le_div_of_nonneg_right (sub_le_sub_right hprecedes.le _) hwarm.le

/-- The second sort changes nothing. -/
theorem insertionSort_topWeighted (hmono : Monotone weight)
    (config : SamplerConfig (Exact weight)) (logits : LogitRow (Exact weight)) :
    ((topWeighted config logits).insertionSort fun left right ↦
      @Scalar.totalLe K (exactScalar weight) right.2 left.2 = true) = topWeighted config logits := by
  apply List.Pairwise.insertionSort_eq
  exact (pairwise_topWeighted hmono config logits).imp Exact.totalLe_iff.mpr

end Weights

/-! ## The cut to `top_p` -/

section Nucleus

/-- The share of the first candidates in the weight of all. -/
def share (weighted : List (ℕ × K)) (count : ℕ) : K :=
  cumulative (weighted.map Prod.snd) count / (weighted.map Prod.snd).sum

/-- The shortest prefix whose share reaches a threshold. -/
structure Nucleus (threshold : K) (weighted kept : List (ℕ × K)) (count : ℕ) : Prop where
  le_length : count ≤ weighted.length
  kept_eq : kept = weighted.take count
  reached : threshold ≤ share weighted count
  shortest : ∀ fewer < count, share weighted fewer < threshold

theorem keepNucleus_eq_take {total : K} (htotal : 0 < total) (threshold start : K)
    (weighted : List (ℕ × K)) :
    keepNucleus (α := Exact weight) total threshold start weighted =
      weighted.take (reaching threshold start (weighted.map fun candidate ↦
        candidate.2 / total)) := by
  induction weighted generalizing start with
  | nil => rfl
  | cons candidate rest ih =>
      obtain ⟨token, mass⟩ := candidate
      have hpositive : @Scalar.lt K (exactScalar weight) 0 total = true := Exact.lt_iff.mpr htotal
      have hprobability : (if @Scalar.lt K (exactScalar weight) 0 total = true then mass / total
          else 0) = mass / total := if_pos hpositive
      rw [List.map_cons, reaching]
      change (if @Scalar.le K (exactScalar weight) threshold _ = true then _ else _) = _
      rw [hprobability]
      by_cases hreached : threshold ≤ start + mass / total
      · rw [if_pos (Exact.le_iff.mpr hreached), if_pos hreached]
        rfl
      · rw [if_neg (mt Exact.le_iff.mp hreached), if_neg hreached, List.take_succ_cons]
        exact congrArg _ (ih _)

omit [LinearOrder K] in
theorem cumulative_map_div (total : K) (weighted : List (ℕ × K)) (count : ℕ) :
    cumulative (weighted.map fun candidate ↦ candidate.2 / total) count =
      cumulative (weighted.map Prod.snd) count / total := by
  simp only [cumulative, ← List.map_take, div_eq_mul_inv, List.sum_map_mul_right]

variable [IsStrictOrderedRing K]

theorem nucleus_keepNucleus {weighted : List (ℕ × K)} {threshold : K}
    (htotal : 0 < (weighted.map Prod.snd).sum) (hthreshold : 0 < threshold)
    (hmost : threshold ≤ 1) :
    ∃ count, Nucleus threshold weighted
      (keepNucleus (α := Exact weight) (weighted.map Prod.snd).sum threshold 0 weighted) count := by
  let shares := weighted.map fun candidate ↦ candidate.2 / (weighted.map Prod.snd).sum
  have hshares (count : ℕ) : cumulative shares count = share weighted count :=
    cumulative_map_div _ _ _
  have hwhole : shares.sum = 1 := by
    rw [← cumulative_of_length_le (Nat.le_refl shares.length), hshares, share]
    rw [cumulative_of_length_le (by simp [shares]), div_self htotal.ne']
  have henough : threshold ≤ 0 + shares.sum := by rwa [zero_add, hwhole]
  have hreaches := reaches_reaching hthreshold henough
  rw [sub_zero] at hreaches
  refine ⟨_, ?_, keepNucleus_eq_take htotal _ _ _, ?_, fun fewer hfewer ↦ ?_⟩
  · exact hreaches.le_length.trans_eq (List.length_map _)
  · rw [← hshares]
    exact hreaches.reached
  · rw [← hshares]
    exact hreaches.least fewer hfewer

/-- The clamped `top_p`. -/
def clampedTopP (config : SamplerConfig (Exact weight)) : K :=
  (Scalar.clamp config.topP 0.001 1.0 : Exact weight)

theorem clampedTopP_pos (config : SamplerConfig (Exact weight)) : 0 < clampedTopP config := by
  have hleast : (0 : K) < 0.001 := by norm_num
  have hone : (0 : K) < 1.0 := by norm_num
  unfold clampedTopP Scalar.clamp
  split
  · exact hleast
  · next hlow =>
      split
      · exact hone
      · exact lt_of_lt_of_le hleast (not_lt.mp (mt Exact.lt_iff.mpr hlow))

theorem clampedTopP_le_one (config : SamplerConfig (Exact weight)) : clampedTopP config ≤ 1 := by
  have hleast : (0.001 : K) ≤ 1 := by norm_num
  have hone : (1.0 : K) = 1 := by norm_num
  unfold clampedTopP Scalar.clamp
  split
  · exact hleast
  · split
    · exact hone.le
    · next hhigh => exact (not_lt.mp (mt Exact.lt_iff.mpr hhigh)).trans_eq hone

end Nucleus

/-! ## What is kept -/

/-- The candidates for the draw, with their weights. -/
def kept (config : SamplerConfig (Exact weight)) (logits : LogitRow (Exact weight)) :
    List (ℕ × K) := (candidates config logits).1

/-- Their total weight. -/
def keptTotal (config : SamplerConfig (Exact weight)) (logits : LogitRow (Exact weight)) : K :=
  (candidates config logits).2

section Kept

variable (config : SamplerConfig (Exact weight)) (logits : LogitRow (Exact weight))

theorem candidates_eq_ite :
    candidates config logits =
      let total := @Scalar.sum K (exactScalar weight) ((topWeighted config logits).map Prod.snd)
      let weighted := (topWeighted config logits).insertionSort fun left right ↦
        @Scalar.totalLe K (exactScalar weight) right.2 left.2 = true
      if Scalar.lt config.topP (0.999 : Exact weight) then
        let cut := keepNucleus (α := Exact weight) total (clampedTopP config) (0.0 : K) weighted
        (cut, @Scalar.sum K (exactScalar weight) (cut.map Prod.snd))
      else (weighted, total) := rfl

/-- `top_p` cuts the candidates. -/
def CutsTopP : Prop := config.topP < (0.999 : Exact weight)

variable [IsStrictOrderedRing K] (hmono : Monotone weight)

include hmono

theorem candidates_of_cut (hcut : CutsTopP config) :
    candidates config logits =
      let cut := keepNucleus (α := Exact weight) ((topWeighted config logits).map Prod.snd).sum
        (clampedTopP config) (0 : K) (topWeighted config logits)
      (cut, (cut.map Prod.snd).sum) := by
  have hzero : (0.0 : K) = 0 := by norm_num
  have htest : Scalar.lt config.topP (0.999 : Exact weight) = true := decide_eq_true hcut
  rw [candidates_eq_ite, insertionSort_topWeighted hmono, hzero]
  dsimp only
  rw [if_pos htest, Exact.sum_eq, Exact.sum_eq]
  rfl

theorem candidates_of_not_cut (hcut : ¬ CutsTopP config) :
    candidates config logits =
      (topWeighted config logits, ((topWeighted config logits).map Prod.snd).sum) := by
  have htest : ¬ Scalar.lt config.topP (0.999 : Exact weight) = true := mt of_decide_eq_true hcut
  rw [candidates_eq_ite, insertionSort_topWeighted hmono]
  dsimp only
  rw [if_neg htest, Exact.sum_eq]

theorem keptTotal_eq : keptTotal config logits = ((kept config logits).map Prod.snd).sum := by
  unfold keptTotal kept
  by_cases hcut : CutsTopP config
  · rw [candidates_of_cut config logits hmono hcut]
    rfl
  · rw [candidates_of_not_cut config logits hmono hcut]

variable {logits} (hpos : ∀ exponent, 0 < weight exponent) (hne : logits ≠ [])

include hpos hne

omit hmono in
theorem sum_topWeighted_pos : 0 < ((topWeighted config logits).map Prod.snd).sum := by
  refine List.sum_pos _ (fun mass hmem ↦ ?_) (mt List.map_eq_nil_iff.mp (topWeighted_ne_nil _ hne))
  obtain ⟨candidate, hcandidate, rfl⟩ := List.mem_map.mp hmem
  exact topWeighted_pos hpos config logits candidate hcandidate

/-- `top_p` keeps the shortest prefix that has the share. -/
theorem nucleus_kept (hcut : CutsTopP config) :
    ∃ count, Nucleus (clampedTopP config) (topWeighted config logits) (kept config logits) count := by
  unfold kept
  rw [candidates_of_cut config logits hmono hcut]
  exact nucleus_keepNucleus (sum_topWeighted_pos config hpos hne) (clampedTopP_pos config)
    (clampedTopP_le_one config)

/-- Something is kept, from the best candidate on. -/
theorem exists_kept_eq_take :
    ∃ count, 0 < count ∧ kept config logits = (topWeighted config logits).take count := by
  by_cases hcut : CutsTopP config
  · obtain ⟨count, hnucleus⟩ := nucleus_kept config hmono hpos hne hcut
    refine ⟨count, Nat.pos_of_ne_zero ?_, hnucleus.kept_eq⟩
    rintro rfl
    have hreached := hnucleus.reached
    rw [share, cumulative_zero, zero_div] at hreached
    exact absurd hreached (not_le_of_gt (clampedTopP_pos config))
  · refine ⟨(topWeighted config logits).length, ?_, ?_⟩
    · exact List.length_pos_iff.mpr (topWeighted_ne_nil config hne)
    · rw [kept, candidates_of_not_cut config logits hmono hcut, List.take_length]

theorem kept_ne_nil : kept config logits ≠ [] := by
  obtain ⟨count, hcount, hkept⟩ := exists_kept_eq_take config hmono hpos hne
  rw [hkept, ← List.length_pos_iff, List.length_take]
  exact lt_min hcount (List.length_pos_iff.mpr (topWeighted_ne_nil config hne))

theorem kept_pos : ∀ candidate ∈ kept config logits, 0 < candidate.2 := by
  obtain ⟨count, _, hkept⟩ := exists_kept_eq_take config hmono hpos hne
  intro candidate hmem
  rw [hkept] at hmem
  exact topWeighted_pos hpos config logits candidate (List.mem_of_mem_take hmem)

theorem keptTotal_pos : 0 < keptTotal config logits := by
  rw [keptTotal_eq config logits hmono]
  refine List.sum_pos _ (fun mass hmem ↦ ?_)
    (mt List.map_eq_nil_iff.mp (kept_ne_nil config hmono hpos hne))
  obtain ⟨candidate, hcandidate, rfl⟩ := List.mem_map.mp hmem
  exact kept_pos config hmono hpos hne candidate hcandidate

theorem nodup_kept : ((kept config logits).map Prod.fst).Nodup := by
  obtain ⟨count, _, hkept⟩ := exists_kept_eq_take config hmono hpos hne
  rw [hkept, List.map_take, map_fst_topWeighted]
  exact (best_truncated config logits).nodup.sublist (List.take_sublist _ _)

/-- The first of the kept candidates is the greedy choice. -/
theorem head_kept : ((kept config logits).map Prod.fst).head? = some logits.argmax := by
  obtain ⟨count, hcount, hkept⟩ := exists_kept_eq_take config hmono hpos hne
  rw [hkept, List.map_take, map_fst_topWeighted, List.head?_take, if_neg hcount.ne',
    head_truncated config hne]

/-- A draw that chooses the first candidate makes the greedy choice. -/
theorem getElem_zero_kept (hlength : 0 < (kept config logits).length) :
    (kept config logits)[0].1 = logits.argmax := by
  have hhead := head_kept config hmono hpos hne
  rw [List.head?_map, List.head?_eq_getElem?, List.getElem?_eq_getElem hlength] at hhead
  exact Option.some.inj hhead

end Kept

/-! ## The draw -/

section Draw

theorem pick_eq_scan (target : K) (weighted : List (ℕ × K)) :
    pick (α := Exact weight) target weighted =
      (scan target (weighted.map Prod.snd)).bind fun rank ↦ (weighted.map Prod.fst)[rank]? := by
  induction weighted generalizing target with
  | nil => rfl
  | cons candidate rest ih =>
      obtain ⟨token, mass⟩ := candidate
      rw [List.map_cons, scan]
      change (if @Scalar.le K (exactScalar weight) target mass = true then _ else _) = _
      by_cases hreached : target ≤ mass
      · rw [if_pos (Exact.le_iff.mpr hreached), if_pos hreached]
        rfl
      · rw [if_neg (mt Exact.le_iff.mp hreached), if_neg hreached, Option.bind_map]
        exact ih _

variable [IsStrictOrderedRing K] {weighted : List (ℕ × K)} {target : K}

/-- A token is returned exactly for the targets in its interval. -/
theorem pick_eq_some_iff (hweighted : ∀ candidate ∈ weighted, 0 ≤ candidate.2)
    (hnodup : (weighted.map Prod.fst).Nodup) {rank : ℕ} (hrank : rank < weighted.length) :
    pick (α := Exact weight) target weighted = some weighted[rank].1 ↔
      Chooses (weighted.map Prod.snd) target rank := by
  have hweights : ∀ mass ∈ weighted.map Prod.snd, 0 ≤ mass := by
    intro mass hmem
    obtain ⟨candidate, hcandidate, rfl⟩ := List.mem_map.mp hmem
    exact hweighted candidate hcandidate
  have htoken : (weighted.map Prod.fst)[rank]? = some weighted[rank].1 := by
    rw [List.getElem?_map, List.getElem?_eq_getElem hrank, Option.map_some]
  rw [pick_eq_scan, Option.bind_eq_some_iff]
  constructor
  · rintro ⟨other, hscan, hother⟩
    have hchooses := (scan_eq_some_iff hweights).mp hscan
    have heq : other = rank := by
      apply (List.getElem?_inj _ hnodup).mp (hother.trans htoken.symm)
      simpa using hchooses.lt_length
    exact heq ▸ hchooses
  · intro hchooses
    exact ⟨rank, (scan_eq_some_iff hweights).mpr hchooses, htoken⟩

/-- Some candidate is returned for every target up to the total weight. -/
theorem exists_pick_eq_some (hne : weighted ≠ [])
    (htarget : target ≤ (weighted.map Prod.snd).sum) :
    ∃ rank, ∃ hrank : rank < weighted.length,
      pick (α := Exact weight) target weighted = some weighted[rank].1 := by
  obtain ⟨rank, hlt, hscan⟩ := exists_scan_eq_some (mt List.map_eq_nil_iff.mp hne) htarget
  rw [List.length_map] at hlt
  refine ⟨rank, hlt, ?_⟩
  rw [pick_eq_scan, hscan, Option.bind_some, List.getElem?_map, List.getElem?_eq_getElem hlt,
    Option.map_some]

end Draw

section Sample

variable [IsStrictOrderedRing K] (hmono : Monotone weight) (hpos : ∀ exponent, 0 < weight exponent)
  (sampler : Sampler (Exact weight)) {logits : LogitRow (Exact weight)} (hne : logits ≠ [])
  (hwarm : Floats.epsilon < sampler.config.temperature)

include hmono hpos hne

/-- The target of every draw below one chooses a kept candidate. -/
theorem exists_pick_kept (config : SamplerConfig (Exact weight)) {u : K} (hu : u < 1) :
    ∃ rank, ∃ hrank : rank < (kept config logits).length,
      pick (α := Exact weight) (u * keptTotal config logits) (kept config logits) =
        some (kept config logits)[rank].1 := by
  apply exists_pick_eq_some (kept_ne_nil config hmono hpos hne)
  have htotal := keptTotal_pos config hmono hpos hne
  rw [← keptTotal_eq config logits hmono]
  exact mul_le_of_le_one_left htotal.le hu.le

theorem pick_kept_iff (config : SamplerConfig (Exact weight)) (u : K) {rank : ℕ}
    (hrank : rank < (kept config logits).length) :
    pick (α := Exact weight) (u * keptTotal config logits) (kept config logits) =
        some (kept config logits)[rank].1 ↔
      Chooses ((kept config logits).map Prod.snd) (u * keptTotal config logits) rank :=
  pick_eq_some_iff (fun candidate hmem ↦ (kept_pos config hmono hpos hne candidate hmem).le)
    (nodup_kept config hmono hpos hne) hrank

/-- The lowest draw chooses the best candidate. -/
theorem pick_kept_zero (config : SamplerConfig (Exact weight))
    (hlength : 0 < (kept config logits).length) :
    pick (α := Exact weight) (0 * keptTotal config logits) (kept config logits) =
      some (kept config logits)[0].1 := by
  refine (pick_kept_iff hmono hpos hne config 0 hlength).mpr ⟨?_, .inl rfl, ?_⟩
  · rwa [List.length_map]
  · rw [zero_mul]
    refine List.sum_nonneg fun mass hmem ↦ ?_
    obtain ⟨candidate, hcandidate, rfl⟩ := List.mem_map.mp (List.mem_of_mem_take hmem)
    exact (kept_pos config hmono hpos hne candidate hcandidate).le

include hwarm

/-- Above the greedy threshold, one value is drawn and its target is looked up. -/
theorem sampleIndex_of_warm :
    sampler.sampleIndex logits =
      ((pick (α := Exact weight) (sampler.draw * keptTotal sampler.config logits)
        (kept sampler.config logits)).getD logits.argmax, sampler.advance) := by
  have hgreedy : ¬ Scalar.le sampler.config.temperature Floats.epsilon = true :=
    mt of_decide_eq_true (not_le_of_gt hwarm)
  have hempty : (kept sampler.config logits).isEmpty = false :=
    List.isEmpty_eq_false_iff.mpr (kept_ne_nil _ hmono hpos hne)
  have hzero : (0.0 : K) = 0 := by norm_num
  have htotal : @Scalar.le K (exactScalar weight) (keptTotal sampler.config logits) (0.0 : K) =
      false := by
    rw [hzero]
    exact decide_eq_false (not_le_of_gt (keptTotal_pos _ hmono hpos hne))
  have hdraws : ((kept sampler.config logits).isEmpty || @Scalar.le K (exactScalar weight)
      (keptTotal sampler.config logits) (0.0 : K)) = false := by
    rw [hempty, htotal]
    rfl
  unfold sampleIndex
  rw [if_neg hgreedy]
  change (if ((kept sampler.config logits).isEmpty || @Scalar.le K (exactScalar weight)
      (keptTotal sampler.config logits) (0.0 : K)) = true then _ else _) = _
  rw [hdraws, if_neg Bool.false_ne_true]
  rfl

/-- The fallback after the scan is never reached. -/
theorem pick_draw_eq_some :
    pick (α := Exact weight) (sampler.draw * keptTotal sampler.config logits)
      (kept sampler.config logits) = some (sampler.sampleIndex logits).1 := by
  obtain ⟨rank, hrank, hpick⟩ :=
    exists_pick_kept hmono hpos hne sampler.config sampler.draw_lt_one
  rw [sampleIndex_of_warm hmono hpos sampler hne hwarm, hpick, Option.getD_some]

/-- With a single candidate, the sampled token is the greedy choice. -/
theorem sampleIndex_of_length_kept (hlength : (kept sampler.config logits).length = 1) :
    (sampler.sampleIndex logits).1 = logits.argmax := by
  obtain ⟨rank, hrank, hpick⟩ :=
    exists_pick_kept hmono hpos hne sampler.config sampler.draw_lt_one
  rw [pick_draw_eq_some hmono hpos sampler hne hwarm] at hpick
  have hzero : rank = 0 := by omega
  subst hzero
  rw [Option.some.inj hpick, getElem_zero_kept sampler.config hmono hpos hne]

end Sample

/-! ## Inverse-CDF sampling -/

/-- **Sampling above the greedy threshold is inverse-CDF over the truncated nucleus.** The candidates
are the best entries of the row, at least one, cut to the shortest prefix with the share that `top_p`
asks for. Every draw chooses a candidate, namely the one in whose interval of the kept weight the
draw falls, so the fallback is never reached; and a cut to one candidate makes the greedy choice. -/
theorem sample_inverse_cdf [IsStrictOrderedRing K] (hpos : ∀ exponent, 0 < weight exponent)
    (hmono : StrictMono weight) (sampler : Sampler (Exact weight))
    {logits : LogitRow (Exact weight)} (hne : logits ≠ [])
    (hwarm : Floats.epsilon < sampler.config.temperature) :
    let config := sampler.config
    let kept := kept config logits
    let total := keptTotal config logits
    Best ((config.topK.map (max · 1)).getD logits.length) logits (truncated config logits) ∧
    (CutsTopP config →
      ∃ count, Nucleus (clampedTopP config) (topWeighted config logits) kept count) ∧
    (¬ CutsTopP config → kept = topWeighted config logits) ∧
    total = (kept.map Prod.snd).sum ∧
    (∀ u : K, 0 ≤ u → u < 1 →
      (∃ rank, ∃ hrank : rank < kept.length,
        pick (α := Exact weight) (u * total) kept = some kept[rank].1) ∧
      ∀ rank, ∀ hrank : rank < kept.length,
        pick (α := Exact weight) (u * total) kept = some kept[rank].1 ↔
          Chooses (kept.map Prod.snd) (u * total) rank) ∧
    (∃ hfirst : 0 < kept.length,
      pick (α := Exact weight) (0 * total) kept = some kept[0].1) ∧
    (0 ≤ sampler.draw ∧ sampler.draw < 1) ∧
    pick (α := Exact weight) (sampler.draw * total) kept = some (sampler.sampleIndex logits).1 ∧
    (sampler.sampleIndex logits).1 < logits.length ∧
    sampler.sample logits = (UInt32.ofNat (sampler.sampleIndex logits).1, sampler.advance) ∧
    (config.topK = some 1 → (sampler.sampleIndex logits).1 = logits.argmax) ∧
    (CutsTopP config → clampedTopP config ≤ share (topWeighted config logits) 1 →
      (sampler.sampleIndex logits).1 = logits.argmax) := by
  dsimp only
  have hweight := hmono.monotone
  have hlength := List.length_pos_iff.mpr (kept_ne_nil sampler.config hweight hpos hne)
  refine ⟨best_truncated _ _, fun hcut ↦ nucleus_kept _ hweight hpos hne hcut, fun hcut ↦ ?_,
    keptTotal_eq _ _ hweight, fun u _ hu ↦ ⟨?_, fun rank hrank ↦ ?_⟩, ⟨hlength, ?_⟩,
    ⟨sampler.draw_nonneg, sampler.draw_lt_one⟩, ?_, sampler.sampleIndex_lt hne, ?_,
    fun htopK ↦ ?_, fun hcut hshare ↦ ?_⟩
  · rw [kept, candidates_of_not_cut _ _ hweight hcut]
  · exact exists_pick_kept hweight hpos hne _ hu
  · exact pick_kept_iff hweight hpos hne _ u hrank
  · exact pick_kept_zero hweight hpos hne _ hlength
  · exact pick_draw_eq_some hweight hpos sampler hne hwarm
  · have hadvance : (sampler.sampleIndex logits).2 = sampler.advance := by
      rw [sampleIndex_of_warm hweight hpos sampler hne hwarm]
    rw [← hadvance]
    rfl
  · apply sampleIndex_of_length_kept hweight hpos sampler hne hwarm
    apply Nat.le_antisymm _ hlength
    obtain ⟨count, _, hkept⟩ := exists_kept_eq_take sampler.config hweight hpos hne
    rw [hkept, List.length_take, length_topWeighted, (best_truncated _ _).length_eq, truncation,
      htopK]
    exact (Nat.min_le_right _ _).trans (Nat.min_le_left _ _)
  · apply sampleIndex_of_length_kept hweight hpos sampler hne hwarm
    apply Nat.le_antisymm _ hlength
    obtain ⟨count, hnucleus⟩ := nucleus_kept _ hweight hpos hne hcut
    have hcount : count ≤ 1 := by
      by_contra hmore
      exact absurd hshare (not_le_of_gt (hnucleus.shortest 1 (Nat.lt_of_not_le hmore)))
    rw [hnucleus.kept_eq, List.length_take]
    exact (Nat.min_le_left _ _).trans hcount

/-- A positive increasing function of the rationals. -/
def rationalWeight (exponent : ℚ) : ℚ := if exponent < 0 then 1 / (1 - exponent) else 1 + exponent

theorem rationalWeight_pos (exponent : ℚ) : 0 < rationalWeight exponent := by
  unfold rationalWeight
  split
  · next hneg => exact one_div_pos.mpr (by linarith)
  · next hnonneg => linarith [not_lt.mp hnonneg]

theorem strictMono_rationalWeight : StrictMono rationalWeight := by
  intro left right hlt
  unfold rationalWeight
  by_cases hright : right < 0
  · rw [if_pos (hlt.trans hright), if_pos hright]
    exact one_div_lt_one_div_of_lt (by linarith) (by linarith)
  · rw [if_neg hright]
    have hnonneg := not_lt.mp hright
    split
    · next hleft =>
        calc 1 / (1 - left) < 1 := (div_lt_one (by linarith)).mpr (by linarith)
          _ ≤ 1 + right := by linarith
    · linarith

/-- Temperature one, and half of the weight. -/
def warmConfig (topK : Option ℕ) : SamplerConfig (Exact rationalWeight) where
  temperature := (1 : ℚ)
  topP := (1 / 2 : ℚ)
  topK := topK
  stopSequences := []
  maxNewTokens := 1
  eosToken := 0
  seed := 7

/-- A row with two equal entries. -/
def tiedRow : LogitRow (Exact rationalWeight) := [(1 : ℚ), (3 : ℚ), (3 : ℚ)]

theorem sample_inverse_cdf_tiedRow :
    Best 2 tiedRow (truncated (warmConfig (some 2)) tiedRow) ∧
    ((new (warmConfig (some 2))).sampleIndex tiedRow).1 < 3 ∧
    ((new (warmConfig (some 1))).sampleIndex tiedRow).1 = tiedRow.argmax := by
  have hne : tiedRow ≠ [] := List.cons_ne_nil _ _
  have hwarm : (1 / 2 ^ 23 : ℚ) < 1 := by norm_num
  have htwo := sample_inverse_cdf rationalWeight_pos strictMono_rationalWeight
    (new (warmConfig (some 2))) hne hwarm
  have hone := sample_inverse_cdf rationalWeight_pos strictMono_rationalWeight
    (new (warmConfig (some 1))) hne hwarm
  obtain ⟨hbest, -, -, -, -, -, -, -, hlt, -⟩ := htwo
  obtain ⟨-, -, -, -, -, -, -, -, -, -, hgreedy, -⟩ := hone
  exact ⟨hbest, hlt, hgreedy rfl⟩

/-- `top_k` zero still leaves one candidate. -/
theorem not_best_truncated_zero :
    (warmConfig (some 0)).topK = some 0 ∧
      ¬ Best 0 tiedRow (truncated (warmConfig (some 0)) tiedRow) := by
  refine ⟨rfl, fun hbest ↦ ?_⟩
  have hne : tiedRow ≠ [] := List.cons_ne_nil _ _
  have hlength := length_truncated_pos (warmConfig (some 0)) hne
  rw [hbest.length_eq, Nat.zero_min] at hlength
  exact Nat.lt_irrefl 0 hlength

end Sampler

end HotBatch
