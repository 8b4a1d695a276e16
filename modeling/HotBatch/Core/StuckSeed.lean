import HotBatch.Core.SamplingDistribution

/-!
# The seed that stops the random stream

`Sampler::new` mixes the seed with a constant so that seed zero does not start in state zero. But the
seed that equals the constant does, and zero is the one state that the transition does not leave. All
draws of that seed are zero, and every sampled token is the greedy choice.
-/

namespace HotBatch.Sampler

open Ranking WeightedChoice

/-- One seed starts in state zero. -/
theorem rngState_new_eq_zero_iff {α : Type} {config : SamplerConfig α} :
    (new config).rngState = 0 ↔ config.seed = 0x9e3779b97f4a7c15 :=
  UInt64.xor_eq_zero_iff

section States

variable {α : Type} [Floats α] {sampler : Sampler α}

theorem rngState_afterDraws_of_zero (hzero : sampler.rngState = 0) (draws : ℕ) :
    (sampler.afterDraws draws).rngState = 0 := by
  induction draws with
  | zero => exact hzero
  | succ draws ih => rw [afterDraws_succ, rngState_advance, ih, xorshift_zero]

/-- A state that is not zero changes at every draw. -/
theorem rngState_advance_ne (hne : sampler.rngState ≠ 0) :
    sampler.advance.rngState ≠ sampler.rngState := by
  intro hfixed
  rw [rngState_advance] at hfixed
  apply xorshiftBits_ne_self (mt UInt64.toBitVec_inj.mp hne)
  rw [← toBitVec_xorshift, hfixed]

theorem toBitVec_rngState_afterDraws (draws : ℕ) :
    (sampler.afterDraws draws).rngState.toBitVec = xorshiftBits^[draws] sampler.rngState.toBitVec := by
  rw [rngState_afterDraws]
  exact (Function.Semiconj.iterate_right toBitVec_xorshift draws).eq sampler.rngState

/-- A stream that does not start in state zero draws a value of at least one half. -/
theorem exists_high_draw (hne : sampler.rngState ≠ 0) :
    ∃ draws, 2 ^ 52 ≤ (sampler.afterDraws draws).drawNumerator := by
  have hnext : (xorshift sampler.rngState).toBitVec ≠ 0#64 :=
    mt UInt64.toBitVec_inj.mp (xorshift_ne_zero hne)
  obtain ⟨turn, _, hbit⟩ := exists_highest_bit hnext
  refine ⟨turn, ?_⟩
  have hstate : (xorshift (sampler.afterDraws turn).rngState).toBitVec =
      xorshiftBits^[turn] (xorshift sampler.rngState).toBitVec := by
    rw [← rngState_advance, ← afterDraws_succ, toBitVec_rngState_afterDraws,
      Function.iterate_succ_apply, toBitVec_xorshift]
  rw [← hstate] at hbit
  have hword : 2 ^ 63 ≤ (xorshift (sampler.afterDraws turn).rngState).toNat :=
    Nat.ge_two_pow_of_testBit hbit
  rw [drawNumerator, UInt64.toNat_shiftRight, Nat.shiftRight_eq_div_pow]
  exact (Nat.le_div_iff_mul_le (Nat.two_pow_pos _)).mpr hword

end States

section Draws

variable {K : Type} [Field K] [LinearOrder K] {weight : K → K}

/-- What a seed has to give for the stream not to get stuck. -/
structure NeverStuck (weight : K → K) (seed : UInt64) : Prop where
  state_ne_zero : ∀ config : SamplerConfig (Exact weight), config.seed = seed →
    ∀ draws, ((new config).afterDraws draws).rngState ≠ 0
  state_changes : ∀ config : SamplerConfig (Exact weight), config.seed = seed →
    ∀ draws, ((new config).afterDraws (draws + 1)).rngState ≠ ((new config).afterDraws draws).rngState
  draws_not_all_zero : ∀ config : SamplerConfig (Exact weight), config.seed = seed →
    ∃ draws, ((new config).afterDraws draws).draw ≠ 0
  /-- Where the best candidate has less than half of the weight, another token is sampled some
  time. -/
  choices_not_all_greedy : ∀ config : SamplerConfig (Exact weight), config.seed = seed →
    Floats.epsilon < config.temperature → ∀ logits : LogitRow (Exact weight), logits ≠ [] →
    share (kept config logits) 1 < 1 / 2 →
    ∃ draws, (((new config).afterDraws draws).sampleIndex logits).1 ≠ logits.argmax
  some_choice_not_greedy : ∃ config : SamplerConfig (Exact weight), config.seed = seed ∧
    Floats.epsilon < config.temperature ∧ ∃ logits : LogitRow (Exact weight), logits ≠ [] ∧
    ∃ draws, (((new config).afterDraws draws).sampleIndex logits).1 ≠ logits.argmax

theorem draw_of_zero {sampler : Sampler (Exact weight)} (hzero : sampler.rngState = 0) :
    sampler.draw = 0 := by
  rw [draw_eq, drawNumerator, hzero, xorshift_zero]
  exact (congrArg (· / _) Nat.cast_zero).trans (zero_div _)

variable [IsStrictOrderedRing K]

theorem half_le_draw {sampler : Sampler (Exact weight)} (hhigh : 2 ^ 52 ≤ sampler.drawNumerator) :
    1 / 2 ≤ sampler.draw := by
  have hcast : ((2 ^ 52 : ℕ) : K) ≤ (sampler.drawNumerator : K) := Nat.cast_le.mpr hhigh
  rw [draw_eq, div_le_div_iff₀ two_pos (by positivity)]
  push_cast at hcast ⊢
  linarith

variable (hmono : Monotone weight) (hpos : ∀ exponent, 0 < weight exponent)
  {sampler : Sampler (Exact weight)} {logits : LogitRow (Exact weight)} (hne : logits ≠ [])
  (hwarm : Floats.epsilon < sampler.config.temperature)

include hmono hpos hne hwarm

/-- In state zero the sampled token is the greedy choice. -/
theorem sampleIndex_of_zero (hzero : sampler.rngState = 0) :
    (sampler.sampleIndex logits).1 = logits.argmax := by
  have hlength := List.length_pos_iff.mpr (kept_ne_nil sampler.config hmono hpos hne)
  have hpick := pick_draw_eq_some hmono hpos sampler hne hwarm
  rw [draw_of_zero hzero, pick_kept_zero hmono hpos hne _ hlength] at hpick
  rw [← Option.some.inj hpick, getElem_zero_kept _ hmono hpos hne]

/-- A high draw passes over a candidate that has less than half of the weight. -/
theorem sampleIndex_ne_argmax (hshare : share (kept sampler.config logits) 1 < 1 / 2)
    (hhigh : 2 ^ 52 ≤ sampler.drawNumerator) :
    (sampler.sampleIndex logits).1 ≠ logits.argmax := by
  intro hgreedy
  have hlength := List.length_pos_iff.mpr (kept_ne_nil sampler.config hmono hpos hne)
  have htotal := keptTotal_pos sampler.config hmono hpos hne
  have hpick := pick_draw_eq_some hmono hpos sampler hne hwarm
  rw [hgreedy, ← getElem_zero_kept _ hmono hpos hne hlength] at hpick
  have hbelow := ((pick_kept_iff hmono hpos hne _ _ hlength).mp hpick).below
  rw [share, ← keptTotal_eq _ _ hmono, div_lt_iff₀ htotal] at hshare
  have htarget := mul_le_mul_of_nonneg_right (half_le_draw hhigh) htotal.le
  exact absurd (htarget.trans hbelow) (not_le_of_gt hshare)

end Draws

section Plain

variable {K : Type} [Field K]

/-- A row of three equal logits. -/
def evenRow (weight : K → K) : LogitRow (Exact weight) := List.replicate 3 (0 : K)

theorem evenRow_ne_nil (weight : K → K) : evenRow weight ≠ [] := List.cons_ne_nil _ _

variable [LinearOrder K]

/-- Greedy sampling is off, and nothing is cut. -/
def plainConfig (weight : K → K) (seed : UInt64) : SamplerConfig (Exact weight) where
  temperature := (1 : K)
  topP := (1 : K)
  topK := none
  stopSequences := []
  maxNewTokens := 1
  eosToken := 0
  seed := seed

variable [IsStrictOrderedRing K] {weight : K → K} (seed : UInt64)

theorem epsilon_lt_plainConfig : Floats.epsilon < (plainConfig weight seed).temperature := by
  have hepsilon : (1 / (2 ^ 23 : ℕ) : K) < 1 := by norm_num
  exact hepsilon

/-- Equal logits have equal weights. -/
theorem map_snd_kept_evenRow (hmono : Monotone weight) :
    (kept (plainConfig weight seed) (evenRow weight)).map Prod.snd =
      List.replicate 3 (weight 0) := by
  have hbest := best_truncated (plainConfig weight seed) (evenRow weight)
  have hvalue : ∀ entry ∈ truncated (plainConfig weight seed) (evenRow weight), entry.2 = 0 := by
    intro entry hmem
    exact List.eq_of_mem_replicate (List.mem_of_getElem? (hbest.entries entry hmem))
  have hcut : ¬ CutsTopP (plainConfig weight seed) := by
    have hwhole : ¬ (1 : K) < 0.999 := by norm_num
    exact hwhole
  have hmax : ((truncated (plainConfig weight seed) (evenRow weight)).head?.map Prod.snd).getD
      (0.0 : Exact weight) = 0 := by
    cases hhead : (truncated (plainConfig weight seed) (evenRow weight)).head? with
    | none =>
        have hzero : (0.0 : K) = 0 := by norm_num
        exact hzero
    | some entry => exact hvalue entry (List.mem_of_head? hhead)
  rw [kept, candidates_of_not_cut _ _ hmono hcut]
  refine List.eq_replicate_iff.mpr ⟨?_, fun mass hmass ↦ ?_⟩
  · rw [List.length_map, length_topWeighted, hbest.length_eq]
    rfl
  · obtain ⟨candidate, hcandidate, rfl⟩ := List.mem_map.mp hmass
    unfold topWeighted weigh at hcandidate
    obtain ⟨entry, hentry, rfl⟩ := List.mem_map.mp hcandidate
    dsimp only
    rw [hmax, hvalue entry hentry]
    have hexponent : ((0 : Exact weight) - 0) / Scalar.max (plainConfig weight seed).temperature
        0.001 = 0 := by
      rw [sub_zero, zero_div]
    exact congrArg weight hexponent

/-- The best of three equal candidates has a third of the weight. -/
theorem share_kept_evenRow (hmono : Monotone weight) (hpos : ∀ exponent, 0 < weight exponent) :
    share (kept (plainConfig weight seed) (evenRow weight)) 1 < 1 / 2 := by
  have hzero := hpos 0
  rw [share, map_snd_kept_evenRow seed hmono]
  have hone : cumulative (List.replicate 3 (weight 0)) 1 = weight 0 := add_zero _
  have hsum : (List.replicate 3 (weight 0)).sum = 3 * weight 0 := by
    rw [List.sum_replicate, nsmul_eq_mul]
    norm_num
  rw [hone, hsum, div_lt_iff₀ (by linarith)]
  linarith

end Plain

/-- **Exactly one seed gets stuck.** -/
theorem neverStuck_iff {K : Type} [Field K] [LinearOrder K] [IsStrictOrderedRing K]
    {weight : K → K} (hpos : ∀ exponent, 0 < weight exponent) (hmono : StrictMono weight)
    (seed : UInt64) : NeverStuck weight seed ↔ seed ≠ 0x9e3779b97f4a7c15 := by
  constructor
  · intro hnever hstuck
    exact hnever.state_ne_zero (plainConfig weight seed) rfl 0 (rngState_new_eq_zero_iff.mpr hstuck)
  · intro hseed
    have hstart (config : SamplerConfig (Exact weight)) (heq : config.seed = seed) :
        (new config).rngState ≠ 0 := fun hzero ↦
      hseed (heq ▸ rngState_new_eq_zero_iff.mp hzero)
    have hchoices (config : SamplerConfig (Exact weight)) (heq : config.seed = seed)
        (hwarm : Floats.epsilon < config.temperature) (logits : LogitRow (Exact weight))
        (hne : logits ≠ []) (hshare : share (kept config logits) 1 < 1 / 2) :
        ∃ draws, (((new config).afterDraws draws).sampleIndex logits).1 ≠ logits.argmax := by
      obtain ⟨draws, hhigh⟩ := exists_high_draw (hstart config heq)
      have hconfig : ((new config).afterDraws draws).config = config := config_afterDraws _ _
      refine ⟨draws, sampleIndex_ne_argmax hmono.monotone hpos hne ?_ ?_ hhigh⟩
      · rwa [hconfig]
      · rwa [hconfig]
    refine ⟨fun config heq draws ↦ ?_, fun config heq draws ↦ ?_, fun config heq ↦ ?_, hchoices, ?_⟩
    · exact rngState_afterDraws_ne_zero draws (hstart config heq)
    · rw [afterDraws_succ]
      exact rngState_advance_ne (rngState_afterDraws_ne_zero draws (hstart config heq))
    · obtain ⟨draws, hhigh⟩ := exists_high_draw (hstart config heq)
      refine ⟨draws, fun hzero ↦ ?_⟩
      have hhalf : (1 / 2 : K) ≤ 0 := (half_le_draw hhigh).trans_eq hzero
      exact absurd hhalf (not_le_of_gt (half_pos one_pos))
    · refine ⟨plainConfig weight seed, rfl, epsilon_lt_plainConfig seed, evenRow weight,
        evenRow_ne_nil weight, ?_⟩
      exact hchoices _ rfl (epsilon_lt_plainConfig seed) _ (evenRow_ne_nil weight)
        (share_kept_evenRow seed hmono.monotone hpos)

theorem neverStuck_seven : NeverStuck rationalWeight 7 :=
  (neverStuck_iff rationalWeight_pos strictMono_rationalWeight 7).mpr (by decide)

/-- The stuck seed: the state stays zero, every drawn value is zero, and every sampled token is the
greedy choice, on every row. -/
theorem stuck_seed :
    let sampler := new (plainConfig rationalWeight 0x9e3779b97f4a7c15)
    (∀ draws, (sampler.afterDraws draws).rngState = 0) ∧
    (∀ draws, (sampler.afterDraws draws).draw = 0) ∧
    (∀ draws, ∀ logits : LogitRow (Exact rationalWeight), logits ≠ [] →
      ((sampler.afterDraws draws).sampleIndex logits).1 = logits.argmax) ∧
    ¬ NeverStuck rationalWeight 0x9e3779b97f4a7c15 := by
  have hstart : (new (plainConfig rationalWeight 0x9e3779b97f4a7c15)).rngState = 0 :=
    rngState_new_eq_zero_iff.mpr rfl
  refine ⟨fun draws ↦ ?_, fun draws ↦ ?_, fun draws logits hne ↦ ?_, fun hnever ↦ ?_⟩
  · exact rngState_afterDraws_of_zero hstart draws
  · exact draw_of_zero (rngState_afterDraws_of_zero hstart draws)
  · apply sampleIndex_of_zero strictMono_rationalWeight.monotone rationalWeight_pos hne
    · rw [config_afterDraws]
      exact epsilon_lt_plainConfig _
    · exact rngState_afterDraws_of_zero hstart draws
  · exact hnever.state_ne_zero _ rfl 0 hstart

end HotBatch.Sampler
