import HotBatch.Core.StuckSeed
import HotBatch.Foundation.Grid
import HotBatch.Foundation.StepPolynomials
import Mathlib.Data.List.Prime
import Mathlib.Tactic.NormNum.Prime

/-!
# The period of the random stream

But for the one that is stuck, every seed starts the same cycle: the transition goes through all
words except zero before it comes back. So over a period every drawn value is as frequent as every
other, and every candidate of a row is sampled in its share of the weight.
-/

namespace HotBatch.Sampler

/-! ## The cycle of the transition -/

/-- The characteristic polynomial of the transition. -/
def characteristic : ℕ := 0x1013ed4a358913201

/-- The number of words but zero. -/
def periodLength : ℕ := 2 ^ 64 - 1

theorem annihilates_characteristic : Words.Annihilates xorshiftBits 64 characteristic := by
  apply Words.annihilates_of_twoPow linear_xorshiftBits
  · decide
  · decide
  · decide +kernel

/-- The prime divisors of the period. For each of them the transition to the power of the quotient,
minus the identity, has an inverse. -/
def primeInverses : List (ℕ × ℕ) :=
  [(3, 0xd742ca58f5d785e2), (5, 0xa3f64d1fb612f669), (17, 0x63f43995a1b49645),
    (257, 0x7d573a75b5260c4d), (641, 0x1ead61508d13286), (65537, 0xed7248a2317d33b1),
    (6700417, 0x483b08aa5d3741b5)]

theorem multiply_primeInverses : ∀ entry ∈ primeInverses,
    Words.multiply 64 characteristic 64 entry.2
      (Words.power 64 characteristic 64 (periodLength / entry.1) ^^^ 1) = 1 := by
  decide +kernel

theorem power_periodLength : Words.power 64 characteristic 64 periodLength = 1 := by
  decide +kernel

theorem prime_of_mem_primeInverses : ∀ entry ∈ primeInverses, entry.1.Prime := by
  intro entry hentry
  simp only [primeInverses, List.mem_cons, List.not_mem_nil, or_false] at hentry
  rcases hentry with rfl | rfl | rfl | rfl | rfl | rfl | rfl <;> norm_num

theorem exists_primeInverse {prime : ℕ} (hprime : prime.Prime) (hdvd : prime ∣ periodLength) :
    ∃ inverse, (prime, inverse) ∈ primeInverses := by
  have hfactors : (primeInverses.map Prod.fst).prod = periodLength := by decide
  rw [← hfactors, Prime.dvd_prod_iff hprime.prime] at hdvd
  obtain ⟨factor, hfactor, hdvd⟩ := hdvd
  obtain ⟨⟨_, inverse⟩, hentry, rfl⟩ := List.mem_map.mp hfactor
  have hsame := (Nat.prime_dvd_prime_iff_eq hprime (prime_of_mem_primeInverses _ hentry)).mp hdvd
  exact ⟨inverse, hsame ▸ hentry⟩

theorem minimalPeriod_xorshiftBits {word : BitVec 64} (hne : word ≠ BitVec.ofNat 64 0) :
    Function.minimalPeriod xorshiftBits word = periodLength := by
  apply Words.minimalPeriod_eq linear_xorshiftBits (by decide) annihilates_characteristic
    (by decide) power_periodLength _ hne
  intro prime hprime hdvd
  obtain ⟨inverse, hmem⟩ := exists_primeInverse hprime hdvd
  exact ⟨inverse, multiply_primeInverses _ hmem⟩

/-- Every word but zero comes back after all the others. -/
theorem minimalPeriod_xorshift {word : UInt64} (hne : word ≠ 0) :
    Function.minimalPeriod xorshift word = periodLength := by
  have hbits : word.toBitVec ≠ BitVec.ofNat 64 0 := fun hzero ↦ hne (UInt64.toBitVec_inj.mp hzero)
  rw [← minimalPeriod_xorshiftBits hbits, Function.minimalPeriod_eq_minimalPeriod_iff]
  intro turns
  have hiterate : (xorshift^[turns] word).toBitVec = xorshiftBits^[turns] word.toBitVec :=
    (Function.Semiconj.iterate_right toBitVec_xorshift turns).eq word
  unfold Function.IsPeriodicPt Function.IsFixedPt
  rw [← hiterate, UInt64.toBitVec_inj]

/-! ## The states of a sampler -/

section States

variable {α : Type} [Floats α] {config : SamplerConfig α}

omit [Floats α] in
theorem rngState_new_ne_zero (hseed : config.seed ≠ 0x9e3779b97f4a7c15) :
    (new config).rngState ≠ 0 := fun hzero ↦ hseed (rngState_new_eq_zero_iff.mp hzero)

theorem toNat_iterate_bounds {word : UInt64} (hne : word ≠ 0) (turns : ℕ) :
    0 < (xorshift^[turns] word).toNat ∧ (xorshift^[turns] word).toNat < 2 ^ 64 := by
  have hnotZero : xorshift^[turns] word ≠ 0 := by
    induction turns with
    | zero => exact hne
    | succ turns ih =>
        rw [Function.iterate_succ_apply']
        exact xorshift_ne_zero ih
  refine ⟨Nat.pos_of_ne_zero fun hzero ↦ hnotZero ?_, UInt64.toNat_lt _⟩
  exact UInt64.toNat_inj.mp hzero

theorem drawNumerator_afterDraws (sampler : Sampler α) (draws : ℕ) :
    (sampler.afterDraws draws).drawNumerator =
      (xorshift^[draws] (xorshift sampler.rngState)).toNat / 2 ^ 11 := by
  have hshift : xorshift (xorshift^[draws] sampler.rngState) =
      xorshift^[draws] (xorshift sampler.rngState) :=
    (Function.Commute.refl xorshift).iterate_right draws sampler.rngState
  rw [drawNumerator, rngState_afterDraws, hshift, UInt64.toNat_shiftRight,
    Nat.shiftRight_eq_div_pow]
  rfl

/-- Over a period a property of the draws holds for the same share of the numerators; only zero is
drawn once less than the others. -/
theorem card_draws (hseed : config.seed ≠ 0x9e3779b97f4a7c15) (p : ℕ → Prop) [DecidablePred p] :
    ((Finset.range periodLength).filter fun draws ↦
        p ((new config).afterDraws draws).drawNumerator).card + (if p 0 then 1 else 0) =
      2 ^ 11 * ((Finset.range (2 ^ 53)).filter p).card := by
  have hstart := xorshift_ne_zero (rngState_new_ne_zero hseed)
  have hcard := Words.card_orbit (fun _ _ ↦ UInt64.toNat_inj.mp) (toNat_iterate_bounds hstart)
    (minimalPeriod_xorshift hstart) fun word ↦ p (word / 2 ^ 11)
  have hsize : 2 ^ 53 * 2 ^ 11 = 2 ^ 64 := by decide
  have hquotients := Grid.card_quotients p (2 ^ 53) (Nat.two_pow_pos 11)
  rw [hsize, ← Grid.card_positive (fun word ↦ p (word / 2 ^ 11)) (Nat.two_pow_pos 64),
    ← hcard, Nat.zero_div] at hquotients
  rw [← hquotients]
  simp only [drawNumerator_afterDraws]
  rfl

/-- **Every seed but one runs through all states.** The states of a sampler repeat after `2 ^ 64 - 1`
draws and not before, every word but zero is the state after exactly one number of draws in a
period, and over a period every value is drawn equally often, except that zero is drawn once less. -/
theorem rngState_full_period (hseed : config.seed ≠ 0x9e3779b97f4a7c15) :
    (∀ first second, ((new config).afterDraws first).rngState =
        ((new config).afterDraws second).rngState ↔ first ≡ second [MOD periodLength]) ∧
    (∀ state : UInt64, state ≠ 0 → ∃! draws, draws < periodLength ∧
      ((new config).afterDraws draws).rngState = state) ∧
    ∀ numerator < 2 ^ 53, ((Finset.range periodLength).filter fun draws ↦
        ((new config).afterDraws draws).drawNumerator = numerator).card =
      if numerator = 0 then 2 ^ 11 - 1 else 2 ^ 11 := by
  have hpos : 0 < periodLength := by decide
  have hstart := rngState_new_ne_zero hseed
  have hperiod := minimalPeriod_xorshift hstart
  refine ⟨fun first second ↦ ?_, fun state hstate ↦ ?_, fun numerator hnumerator ↦ ?_⟩
  · rw [rngState_afterDraws, rngState_afterDraws]
    conv_lhs => rw [← Function.iterate_mod_minimalPeriod_eq (n := first),
      ← Function.iterate_mod_minimalPeriod_eq (n := second), hperiod]
    have hlt : ∀ draws : ℕ, draws % periodLength < Function.minimalPeriod xorshift
        (new config).rngState := by
      intro draws
      rw [hperiod]
      exact Nat.mod_lt draws hpos
    exact Function.iterate_eq_iterate_iff_of_lt_minimalPeriod (hlt first) (hlt second)
  · obtain ⟨hinjective, himage⟩ := Words.image_orbit (fun _ _ ↦ UInt64.toNat_inj.mp)
      (toNat_iterate_bounds hstart) hperiod
    have hmem : state.toNat ∈ Finset.Ico 1 (2 ^ 64) := by
      refine Finset.mem_Ico.mpr ⟨Nat.pos_of_ne_zero fun hzero ↦ hstate ?_, state.toNat_lt⟩
      exact UInt64.toNat_inj.mp hzero
    obtain ⟨draws, hdraws, heq⟩ := Finset.mem_image.mp (himage.ge hmem)
    refine ⟨draws, ⟨Finset.mem_range.mp hdraws, ?_⟩, ?_⟩
    · rw [rngState_afterDraws]
      exact UInt64.toNat_inj.mp heq
    · rintro other ⟨hother, hsame⟩
      rw [rngState_afterDraws] at hsame
      apply hinjective (Finset.mem_coe.mpr (Finset.mem_range.mpr hother)) hdraws
      exact (congrArg UInt64.toNat hsame).trans heq.symm
  · have hcard := card_draws hseed (· = numerator)
    rw [Finset.filter_eq', if_pos (Finset.mem_range.mpr hnumerator), Finset.card_singleton] at hcard
    split
    · rename_i hzero
      rw [if_pos hzero.symm, Nat.mul_one] at hcard
      exact Nat.eq_sub_of_add_eq hcard
    · rename_i hpositive
      rw [if_neg (Ne.symm hpositive), Nat.add_zero, Nat.mul_one] at hcard
      exact hcard

/-- Seed seven reaches the state one. -/
theorem rngState_full_period_seven : ∃! draws, draws < periodLength ∧
    ((new (warmConfig none)).afterDraws draws).rngState = 1 :=
  (rngState_full_period (by decide)).2.1 1 (by decide)

end States

/-! ## What is sampled over a period -/

section Frequencies

open WeightedChoice

variable {K : Type} [Field K] [LinearOrder K] [IsStrictOrderedRing K] {weight : K → K}
  {config : SamplerConfig (Exact weight)} {logits : LogitRow (Exact weight)}

/-- Zero chooses no entry but the first. -/
theorem not_chooses_zero {masses : List K} (hmasses : ∀ mass ∈ masses, 0 ≤ mass) {rank : ℕ}
    (hlater : rank ≠ 0) : ¬ Chooses masses 0 rank := by
  intro hchosen
  have habove := hchosen.above.resolve_left hlater
  exact absurd (cumulative_mono hmasses (Nat.zero_le rank)) (not_le_of_gt habove)

/-- Over a period the drawn values choose every entry of a row in its share of the weight. -/
theorem card_draws_choosing (hseed : config.seed ≠ 0x9e3779b97f4a7c15) {masses : List K}
    (hmasses : ∀ mass ∈ masses, 0 ≤ mass) (htotal : 0 < masses.sum) {rank : ℕ}
    (hrank : rank < masses.length) (chosen : ℕ → Prop) [DecidablePred chosen]
    (hchosen : ∀ numerator, chosen numerator ↔
      Chooses masses ((numerator : K) / ((2 ^ 53 : ℕ) : K) * masses.sum) rank) :
    |(((Finset.range periodLength).filter fun draws ↦
        chosen ((new config).afterDraws draws).drawNumerator).card : K) -
      2 ^ 64 * (masses[rank] / masses.sum)| ≤ 2 ^ 11 := by
  have hdraws := congrArg (Nat.cast (R := K)) (card_draws hseed chosen)
  obtain ⟨hbelow, habove⟩ := Grid.card_chooses hmasses htotal (Nat.two_pow_pos 53) hrank chosen
    fun numerator _ ↦ hchosen numerator
  have hscale : (2 ^ 64 : K) * (masses[rank] / masses.sum) =
      2 ^ 11 * (masses[rank] * ((2 ^ 53 : ℕ) : K) / masses.sum) := by
    push_cast
    ring
  rw [hscale, abs_le]
  push_cast at hdraws hbelow habove ⊢
  rcases eq_or_ne rank 0 with hfirst | hlater
  · -- The first entry has all it should, and zero is drawn once less.
    have hmissing : (0 : K) ≤ (if chosen 0 then 1 else 0) ∧ (if chosen 0 then 1 else 0) ≤ (1 : K) := by
      split <;> simp
    rw [if_pos hfirst] at hbelow
    constructor <;> linarith
  · have hnot : ¬ chosen 0 := by
      rw [hchosen, Nat.cast_zero, zero_div, zero_mul]
      exact not_chooses_zero hmasses hlater
    rw [if_neg hnot] at hdraws
    rw [if_neg hlater] at hbelow
    constructor <;> linarith

/-- A drawn value samples the candidate that it chooses. -/
theorem sampleIndex_afterDraws_iff (hpos : ∀ exponent, 0 < weight exponent)
    (hmono : Monotone weight) (hne : logits ≠ []) (hwarm : Floats.epsilon < config.temperature)
    {rank : ℕ} (hrank : rank < (kept config logits).length) (draws : ℕ) :
    (((new config).afterDraws draws).sampleIndex logits).1 = (kept config logits)[rank].1 ↔
      Chooses ((kept config logits).map Prod.snd)
        ((((new config).afterDraws draws).drawNumerator : K) / ((2 ^ 53 : ℕ) : K) *
          ((kept config logits).map Prod.snd).sum) rank := by
  have hconfig : ((new config).afterDraws draws).config = config := config_afterDraws _ _
  have hpick := pick_draw_eq_some hmono hpos ((new config).afterDraws draws) hne
    (by rwa [hconfig])
  rw [hconfig] at hpick
  rw [← keptTotal_eq config logits hmono, ← Option.some_inj, ← hpick]
  exact pick_kept_iff hmono hpos hne config _ hrank

/-- Only candidates are sampled. -/
theorem sampleIndex_mem_kept (hpos : ∀ exponent, 0 < weight exponent) (hmono : Monotone weight)
    (hne : logits ≠ []) (hwarm : Floats.epsilon < config.temperature) (draws : ℕ) :
    (((new config).afterDraws draws).sampleIndex logits).1 ∈ (kept config logits).map Prod.fst := by
  have hconfig : ((new config).afterDraws draws).config = config := config_afterDraws _ _
  have hpick := pick_draw_eq_some hmono hpos ((new config).afterDraws draws) hne
    (by rwa [hconfig])
  obtain ⟨rank, hrank, hchosen⟩ := exists_pick_kept hmono hpos hne config
    ((new config).afterDraws draws).draw_lt_one
  rw [hconfig, hchosen, Option.some_inj] at hpick
  rw [← hpick]
  exact List.mem_map_of_mem (List.getElem_mem hrank)

/-- **Over a period every candidate is sampled in its share of the weight.** For every row and every
seed but the one that is stuck, a kept candidate is sampled at `2 ^ 64` times its share of the kept
weight of the `2 ^ 64 - 1` draws of a period, up to `2 ^ 11` draws; nothing else is ever sampled. -/
theorem sampled_frequency (hpos : ∀ exponent, 0 < weight exponent) (hmono : StrictMono weight)
    (hseed : config.seed ≠ 0x9e3779b97f4a7c15) (hne : logits ≠ [])
    (hwarm : Floats.epsilon < config.temperature) :
    (∀ rank, ∀ hrank : rank < (kept config logits).length,
      |(((Finset.range periodLength).filter fun draws ↦
          (((new config).afterDraws draws).sampleIndex logits).1 =
            (kept config logits)[rank].1).card : K) -
        2 ^ 64 * ((kept config logits)[rank].2 / keptTotal config logits)| ≤ 2 ^ 11) ∧
    ∀ draws, (((new config).afterDraws draws).sampleIndex logits).1 ∈
      (kept config logits).map Prod.fst := by
  classical
  have hweight := hmono.monotone
  refine ⟨fun rank hrank ↦ ?_, sampleIndex_mem_kept hpos hweight hne hwarm⟩
  have hmasses : ∀ mass ∈ (kept config logits).map Prod.snd, 0 ≤ mass := by
    intro mass hmem
    obtain ⟨candidate, hcandidate, rfl⟩ := List.mem_map.mp hmem
    exact (kept_pos config hweight hpos hne candidate hcandidate).le
  have htotal : 0 < ((kept config logits).map Prod.snd).sum := by
    rw [← keptTotal_eq config logits hweight]
    exact keptTotal_pos config hweight hpos hne
  have hlength : rank < ((kept config logits).map Prod.snd).length := by
    rwa [List.length_map]
  have hcount := card_draws_choosing hseed hmasses htotal hlength
    (fun numerator ↦ Chooses ((kept config logits).map Prod.snd)
      ((numerator : K) / ((2 ^ 53 : ℕ) : K) * ((kept config logits).map Prod.snd).sum) rank)
    fun _ ↦ Iff.rfl
  rw [List.getElem_map, ← Finset.filter_congr fun draws _ ↦
    sampleIndex_afterDraws_iff hpos hweight hne hwarm hrank draws] at hcount
  rwa [keptTotal_eq config logits hweight]

/-- The best candidate of a row has its share of the draws. -/
theorem sampled_frequency_tiedRow : ∃ hrank : 0 < (kept (warmConfig none) tiedRow).length,
    |(((Finset.range periodLength).filter fun draws ↦
        (((new (warmConfig none)).afterDraws draws).sampleIndex tiedRow).1 =
          (kept (warmConfig none) tiedRow)[0].1).card : ℚ) -
      2 ^ 64 * ((kept (warmConfig none) tiedRow)[0].2 / keptTotal (warmConfig none) tiedRow)| ≤
        2 ^ 11 := by
  have hwarm : (1 / 2 ^ 23 : ℚ) < 1 := by norm_num
  have hne : tiedRow ≠ [] := List.cons_ne_nil _ _
  have hkept := kept_ne_nil (warmConfig none) strictMono_rationalWeight.monotone
    rationalWeight_pos hne
  have hrank := List.length_pos_iff.mpr hkept
  have hseed : (warmConfig none).seed ≠ 0x9e3779b97f4a7c15 := by decide
  exact ⟨hrank, (sampled_frequency rationalWeight_pos strictMono_rationalWeight hseed hne
    hwarm).1 0 hrank⟩

end Frequencies

end HotBatch.Sampler
