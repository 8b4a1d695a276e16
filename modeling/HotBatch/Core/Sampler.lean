import HotBatch.Foundation.Scalar
import Mathlib.Data.List.Sort

/-!
# Token sampling

Greedy argmax below the temperature threshold, otherwise inverse-CDF sampling from the logits kept
by `top_k` and `top_p`, driven by a private xorshift generator. Sampling is a function of the
configuration, the generator state and one logit row, and it can only return an index of that row.
-/

namespace HotBatch

/-- A token id, `u32`. -/
abbrev Token := UInt32

structure SamplerConfig (α : Type) where
  temperature : α
  topP : α
  topK : Option ℕ
  stopSequences : List (List Token)
  maxNewTokens : ℕ
  eosToken : Token
  seed : UInt64

structure Sampler (α : Type) where
  config : SamplerConfig α
  rngState : UInt64

/-- One row of logits. -/
abbrev LogitRow (α : Type) := List α

section Argmax

variable {α : Type} [Scalar α]

/-- `value > best_value`; the best value is negative infinity until a logit has been taken. -/
def LogitRow.exceeds (value : α) : Option α → Bool
  | none => Scalar.aboveNegInfinity value
  | some bestValue => Scalar.lt bestValue value

/-- The loop of `argmax`, with the index and the value of the best logit so far. -/
def LogitRow.argmaxFrom (best : ℕ × Option α) (index : ℕ) : LogitRow α → ℕ
  | [] => best.1
  | value :: rest =>
      argmaxFrom (if exceeds value best.2 then (index, some value) else best) (index + 1) rest

/-- `argmax`, before the cast to a token id. -/
def LogitRow.argmax (logits : LogitRow α) : ℕ := argmaxFrom (0, none) 0 logits

theorem LogitRow.argmaxFrom_lt (logits : LogitRow α) (best : ℕ × Option α) (index bound : ℕ)
    (hbest : best.1 < bound) (hindex : index + logits.length ≤ bound) :
    argmaxFrom best index logits < bound := by
  induction logits generalizing best index with
  | nil => exact hbest
  | cons value rest ih =>
      rw [List.length_cons] at hindex
      rw [argmaxFrom]
      apply ih
      · split
        · exact Nat.lt_of_lt_of_le (by omega) hindex
        · exact hbest
      · omega

theorem LogitRow.argmax_lt (logits : LogitRow α) (hne : logits ≠ []) :
    logits.argmax < logits.length :=
  argmaxFrom_lt logits _ 0 _ (List.length_pos_iff.mpr hne) (by omega)

end Argmax

namespace Sampler

variable {α : Type}

/-- `Sampler::new`. -/
def new (config : SamplerConfig α) : Sampler α where
  config := config
  rngState := config.seed ^^^ 0x9e3779b97f4a7c15

def maxNewTokens (sampler : Sampler α) : ℕ := sampler.config.maxNewTokens

def eosToken (sampler : Sampler α) : Token := sampler.config.eosToken

def stopSequences (sampler : Sampler α) : List (List Token) := sampler.config.stopSequences

/-- The three shift-xor steps of `next_f64`. -/
def xorshift (word : UInt64) : UInt64 :=
  let word := word ^^^ (word <<< 13)
  let word := word ^^^ (word >>> 7)
  word ^^^ (word <<< 17)

variable [Floats α]

/-- `next_f64`: the drawn value and the sampler with the next generator state. -/
def nextF64 (sampler : Sampler α) : Floats.Double α × Sampler α :=
  let rngState := xorshift sampler.rngState
  (((rngState >>> 11).toNat : Floats.Double α) / ((2 ^ 53 : ℕ) : Floats.Double α),
    { sampler with rngState := rngState })

/-- Logits with their indices, best first. The sort is stable. -/
def ranked (logits : LogitRow α) : List (ℕ × α) :=
  (logits.zipIdx.map Prod.swap).insertionSort fun left right ↦
    Scalar.totalLe right.2 left.2 = true

/-- The `top_p` loop: candidates up to and including the one that reaches the threshold. -/
def keepNucleus (total threshold : Floats.Double α) (cumulative : Floats.Double α) :
    List (ℕ × Floats.Double α) → List (ℕ × Floats.Double α)
  | [] => []
  | (token, weight) :: rest =>
      let probability := if Scalar.lt 0 total then weight / total else 0
      let cumulative := cumulative + probability
      if Scalar.le threshold cumulative then [(token, weight)]
      else (token, weight) :: keepNucleus total threshold cumulative rest

/-- The final loop: the first candidate whose cumulative weight reaches the target. -/
def pick (target : Floats.Double α) : List (ℕ × Floats.Double α) → Option ℕ
  | [] => none
  | (token, weight) :: rest =>
      if Scalar.le target weight then some token else pick (target - weight) rest

/-- The ranking cut to `top_k`. -/
def truncated (config : SamplerConfig α) (logits : LogitRow α) : List (ℕ × α) :=
  match config.topK with
  | some topK => (ranked logits).take (max topK 1)
  | none => ranked logits

/-- Softmax numerators of the truncated ranking. -/
def weigh (config : SamplerConfig α) (ranking : List (ℕ × α)) : List (ℕ × Floats.Double α) :=
  let temperature := Scalar.max config.temperature 0.001
  let maxLogit := (ranking.head?.map Prod.snd).getD 0.0
  ranking.map fun candidate ↦
    (candidate.1, Scalar.exp (Floats.widen ((candidate.2 - maxLogit) / temperature)))

/-- The candidates with their weights after `top_k` and `top_p`, and their total weight. -/
def candidates (config : SamplerConfig α) (logits : LogitRow α) :
    List (ℕ × Floats.Double α) × Floats.Double α :=
  let weighted := weigh config (truncated config logits)
  let total := Scalar.sum (weighted.map Prod.snd)
  let weighted := weighted.insertionSort fun left right ↦ Scalar.totalLe right.2 left.2 = true
  if Scalar.lt config.topP 0.999 then
    let kept := keepNucleus total (Floats.widen (Scalar.clamp config.topP 0.001 1.0)) 0.0 weighted
    (kept, Scalar.sum (kept.map Prod.snd))
  else (weighted, total)

/-- `sample`: the chosen index of the row, and the sampler with its generator advanced if a random
value was drawn. -/
def sampleIndex (sampler : Sampler α) (logits : LogitRow α) : ℕ × Sampler α :=
  if Scalar.le sampler.config.temperature Floats.epsilon then (logits.argmax, sampler)
  else
    let (weighted, total) := candidates sampler.config logits
    if weighted.isEmpty || Scalar.le total 0.0 then (logits.argmax, sampler)
    else
      let (draw, sampler) := sampler.nextF64
      ((pick (draw * total) weighted).getD logits.argmax, sampler)

/-- `sample` with its result cast to a token id. -/
def sample (sampler : Sampler α) (logits : LogitRow α) : Token × Sampler α :=
  let (index, sampler) := sampler.sampleIndex logits
  (UInt32.ofNat index, sampler)

/-! ## Only indices of the row are sampled -/

theorem keepNucleus_subset (total threshold cumulative : Floats.Double α)
    (weighted : List (ℕ × Floats.Double α)) :
    keepNucleus total threshold cumulative weighted ⊆ weighted := by
  induction weighted generalizing cumulative with
  | nil => exact List.Subset.refl _
  | cons candidate rest ih =>
      obtain ⟨token, weight⟩ := candidate
      rw [keepNucleus]
      generalize cumulative + (if Scalar.lt 0 total then weight / total else 0) = reached
      by_cases hreached : Scalar.le threshold reached = true
      · rw [if_pos hreached]
        exact List.cons_subset_cons _ (List.nil_subset _)
      · rw [if_neg hreached]
        exact List.cons_subset_cons _ (ih _)

theorem mem_of_pick {target : Floats.Double α} {weighted : List (ℕ × Floats.Double α)} {token : ℕ}
    (hpick : pick target weighted = some token) : token ∈ weighted.map Prod.fst := by
  induction weighted generalizing target with
  | nil => cases hpick
  | cons candidate rest ih =>
      obtain ⟨first, weight⟩ := candidate
      rw [pick] at hpick
      split at hpick
      · obtain rfl := Option.some.inj hpick
        exact List.mem_cons_self
      · exact List.mem_cons_of_mem _ (ih hpick)

theorem lt_of_mem_ranked {logits : LogitRow α} {candidate : ℕ × α}
    (hmem : candidate ∈ ranked logits) : candidate.1 < logits.length := by
  rw [ranked, List.mem_insertionSort, List.mem_map] at hmem
  obtain ⟨⟨value, index⟩, hindexed, rfl⟩ := hmem
  exact (List.mem_zipIdx' hindexed).1

theorem truncated_subset (config : SamplerConfig α) (logits : LogitRow α) :
    truncated config logits ⊆ ranked logits := by
  unfold truncated
  split
  · exact List.take_subset _ _
  · exact List.Subset.refl _

@[simp]
theorem map_fst_weigh (config : SamplerConfig α) (ranking : List (ℕ × α)) :
    (weigh config ranking).map Prod.fst = ranking.map Prod.fst := by
  simp [weigh, Function.comp_def]

/-- Both cuts keep only candidates of the ranking. -/
theorem map_fst_candidates_subset (config : SamplerConfig α) (logits : LogitRow α) :
    (candidates config logits).1.map Prod.fst ⊆ (ranked logits).map Prod.fst := by
  have hweighed : (weigh config (truncated config logits)).map Prod.fst ⊆
      (ranked logits).map Prod.fst := by
    rw [map_fst_weigh]
    exact List.map_subset _ (truncated_subset config logits)
  have hsorted := (List.perm_insertionSort
    (fun left right : ℕ × Floats.Double α ↦ Scalar.totalLe right.2 left.2 = true)
    (weigh config (truncated config logits))).subset
  have hall := List.Subset.trans (List.map_subset Prod.fst hsorted) hweighed
  unfold candidates
  dsimp only
  split
  · exact List.Subset.trans (List.map_subset _ (keepNucleus_subset _ _ _ _)) hall
  · exact hall

/-- Every candidate that survives `top_k` and `top_p` is an index of the row. -/
theorem lt_of_mem_candidates {config : SamplerConfig α} {logits : LogitRow α} {token : ℕ}
    (hmem : token ∈ (candidates config logits).1.map Prod.fst) : token < logits.length := by
  obtain ⟨candidate, hcandidate, rfl⟩ :=
    List.mem_map.mp (map_fst_candidates_subset config logits hmem)
  exact lt_of_mem_ranked hcandidate

/-- **Sampling stays inside the row.** -/
theorem sampleIndex_lt (sampler : Sampler α) {logits : LogitRow α} (hne : logits ≠ []) :
    (sampler.sampleIndex logits).1 < logits.length := by
  unfold sampleIndex
  split
  · exact logits.argmax_lt hne
  dsimp only
  split
  · exact logits.argmax_lt hne
  · cases hpick : pick (sampler.nextF64.1 * (candidates sampler.config logits).2)
        (candidates sampler.config logits).1 with
    | none => simpa only [Option.getD_none] using logits.argmax_lt hne
    | some token => simpa only [Option.getD_some] using lt_of_mem_candidates (mem_of_pick hpick)

/-- Sampling reads the configuration and never changes it. -/
@[simp]
theorem sample_config (sampler : Sampler α) (logits : LogitRow α) :
    (sampler.sample logits).2.config = sampler.config := by
  change (sampler.sampleIndex logits).2.config = sampler.config
  unfold sampleIndex
  split
  · rfl
  dsimp only
  split <;> rfl

/-- A sampled token is an index of a row that token ids can address. -/
theorem sample_lt (sampler : Sampler α) {logits : LogitRow α} (hne : logits ≠ []) :
    (sampler.sample logits).1.toNat < logits.length := by
  have hindex := sampler.sampleIndex_lt hne
  calc (sampler.sample logits).1.toNat
      = (UInt32.ofNat (sampler.sampleIndex logits).1).toNat := rfl
    _ = (sampler.sampleIndex logits).1 % 2 ^ 32 := UInt32.toNat_ofNat'
    _ ≤ (sampler.sampleIndex logits).1 := Nat.mod_le _ _
    _ < logits.length := hindex

end Sampler

end HotBatch
