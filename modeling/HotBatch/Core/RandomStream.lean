import Mathlib.Logic.Function.Iterate
import HotBatch.Core.Sampler
import HotBatch.Foundation.Exact
import HotBatch.Foundation.Words

/-!
# The random stream

The generator state of a sampler moves by three shift-xor steps, none of which loses information. So
the transition is a permutation of the words that fixes zero, and a drawn value is the upper part of
a state as a fraction of `2 ^ 53`.
-/

namespace HotBatch.Sampler

variable {α : Type}

/-! ## The transition -/

/-- The transition on bits. -/
def xorshiftBits (word : BitVec 64) : BitVec 64 :=
  let word := word ^^^ (word <<< 13)
  let word := word ^^^ (word >>> 7)
  word ^^^ (word <<< 17)

theorem toBitVec_xorshift (word : UInt64) :
    (xorshift word).toBitVec = xorshiftBits word.toBitVec :=
  rfl

theorem xorshiftBits_injective : Function.Injective xorshiftBits := by
  have hfirst : Function.Injective fun word : BitVec 64 ↦ word ^^^ (word <<< 13) :=
    Words.xor_shiftLeft_injective (by decide)
  have hsecond : Function.Injective fun word : BitVec 64 ↦ word ^^^ (word >>> 7) :=
    Words.xor_shiftRight_injective (by decide)
  have hthird : Function.Injective fun word : BitVec 64 ↦ word ^^^ (word <<< 17) :=
    Words.xor_shiftLeft_injective (by decide)
  exact hthird.comp (hsecond.comp hfirst)

theorem linear_xorshiftBits : Words.Linear xorshiftBits := by
  have hfirst : Words.Linear fun word : BitVec 64 ↦ word ^^^ (word <<< 13) :=
    Words.linear_xor_shiftLeft 13
  have hsecond : Words.Linear fun word : BitVec 64 ↦ word ^^^ (word >>> 7) :=
    Words.linear_xor_shiftRight 7
  have hthird : Words.Linear fun word : BitVec 64 ↦ word ^^^ (word <<< 17) :=
    Words.linear_xor_shiftLeft 17
  exact (hfirst.comp hsecond).comp hthird

theorem xorshift_injective : Function.Injective xorshift := by
  intro left right heq
  apply UInt64.toBitVec_inj.mp
  apply xorshiftBits_injective
  rw [← toBitVec_xorshift, ← toBitVec_xorshift, heq]

theorem xorshift_surjective : Function.Surjective xorshift := by
  intro word
  obtain ⟨bits, hbits⟩ := (Words.bijective_of_injective xorshiftBits_injective).surjective
    word.toBitVec
  refine ⟨UInt64.ofBitVec bits, UInt64.toBitVec_inj.mp ?_⟩
  rw [toBitVec_xorshift]
  exact hbits

theorem xorshift_zero : xorshift 0 = 0 := by decide

theorem xorshift_ne_zero {word : UInt64} (hne : word ≠ 0) : xorshift word ≠ 0 := by
  intro hzero
  exact hne (xorshift_injective (hzero.trans xorshift_zero.symm))

/-! ## The highest bit -/

/-- The last words of the table that recovers a state from the highest bits of its orbit. An entry is
the transition of the next one, up to the last entry, where the coefficients of the transition's
characteristic polynomial say so. -/
def recoveryEntries : ℕ → BitVec 64 → List (BitVec 64) → List (BitVec 64)
  | 0, _, table => table
  | turn + 1, entry, table =>
      let lastEntry := 0x40a66c5b08127452
      let coefficients : BitVec 64 := 0x13ed4a358913201
      recoveryEntries turn
        (xorshiftBits entry ^^^ if coefficients.getLsbD turn then lastEntry else 0) (entry :: table)

/-- The table for all states. -/
def recoveryTable : List (BitVec 64) := recoveryEntries 64 0x40a66c5b08127452 []

theorem recover_twoPow : ∀ index < 64,
    Words.recover xorshiftBits 63 recoveryTable (.twoPow 64 index) = .twoPow 64 index := by
  decide +kernel

/-- A state is determined by the highest bits of its orbit. -/
theorem recover_xorshiftBits (word : BitVec 64) :
    Words.recover xorshiftBits 63 recoveryTable word = word :=
  Words.recover_eq_self linear_xorshiftBits recover_twoPow word

/-- The transition moves every word but zero. -/
theorem xorshiftBits_ne_self {word : BitVec 64} (hne : word ≠ 0#64) : xorshiftBits word ≠ word := by
  intro hfixed
  have hword : Words.recover xorshiftBits 63 recoveryTable word = _ :=
    Words.recover_of_fixed hfixed
  rw [recover_xorshiftBits] at hword
  split at hword
  · have hmoves : xorshiftBits (recoveryTable.foldr (· ^^^ ·) 0#64) ≠
        recoveryTable.foldr (· ^^^ ·) 0#64 := by decide +kernel
    exact hmoves (hword ▸ hfixed)
  · exact hne hword

/-- The highest bit is set again and again in the orbit of a word that is not zero. -/
theorem exists_highest_bit {word : BitVec 64} (hne : word ≠ 0#64) :
    ∃ turn < 64, (xorshiftBits^[turn] word).getLsbD 63 = true := by
  by_contra hnone
  have hlength : recoveryTable.length = 64 := by decide +kernel
  apply hne
  rw [← recover_xorshiftBits word]
  apply Words.recover_eq_zero
  intro turn hturn
  rw [← Bool.not_eq_true]
  exact fun hset ↦ hnone ⟨turn, hlength ▸ hturn, hset⟩

/-! ## Draws -/

/-- The mixing of `Sampler::new` keeps seeds apart. -/
theorem rngState_new_injective {left right : SamplerConfig α}
    (heq : (new left).rngState = (new right).rngState) : left.seed = right.seed :=
  (UInt64.xor_left_inj _).mp heq

/-- The numerator of the next drawn value. -/
def drawNumerator (sampler : Sampler α) : ℕ := (xorshift sampler.rngState >>> 11).toNat

theorem drawNumerator_lt (sampler : Sampler α) : sampler.drawNumerator < 2 ^ 53 := by
  have hword := (xorshift sampler.rngState).toNat_lt
  rw [drawNumerator, UInt64.toNat_shiftRight, Nat.shiftRight_eq_div_pow]
  exact Nat.div_lt_of_lt_mul hword

section Draws

variable [Floats α]

/-- A sampler after one draw. -/
def advance (sampler : Sampler α) : Sampler α := sampler.nextF64.2

/-- A sampler after some draws. -/
def afterDraws (draws : ℕ) (sampler : Sampler α) : Sampler α := advance^[draws] sampler

variable (sampler : Sampler α) (draws : ℕ)

theorem afterDraws_succ :
    sampler.afterDraws (draws + 1) = (sampler.afterDraws draws).advance :=
  Function.iterate_succ_apply' _ _ _

theorem rngState_advance : sampler.advance.rngState = xorshift sampler.rngState := rfl

theorem rngState_afterDraws :
    (sampler.afterDraws draws).rngState = xorshift^[draws] sampler.rngState :=
  (Function.Semiconj.iterate_right rngState_advance draws).eq sampler

theorem config_afterDraws : (sampler.afterDraws draws).config = sampler.config := by
  induction draws with
  | zero => rfl
  | succ draws ih => rw [afterDraws_succ, ← ih]; rfl

theorem rngState_afterDraws_ne_zero {sampler : Sampler α} (hne : sampler.rngState ≠ 0) :
    (sampler.afterDraws draws).rngState ≠ 0 := by
  induction draws with
  | zero => exact hne
  | succ draws ih =>
      rw [afterDraws_succ, rngState_advance]
      exact xorshift_ne_zero ih

theorem nextF64_fst : sampler.nextF64.1 =
    (sampler.drawNumerator : Floats.Double α) / ((2 ^ 53 : ℕ) : Floats.Double α) := rfl

end Draws

section ExactDraws

variable {K : Type} [Field K] [LinearOrder K] {weight : K → K}

/-- The drawn value, as an element of the field. -/
def draw (sampler : Sampler (Exact weight)) : K := sampler.nextF64.1

theorem draw_eq (sampler : Sampler (Exact weight)) :
    sampler.draw = (sampler.drawNumerator : K) / ((2 ^ 53 : ℕ) : K) := rfl

variable [IsStrictOrderedRing K]

theorem draw_nonneg (sampler : Sampler (Exact weight)) : 0 ≤ sampler.draw := by
  rw [draw_eq]
  positivity

theorem draw_lt_one (sampler : Sampler (Exact weight)) : sampler.draw < 1 := by
  rw [draw_eq, div_lt_one (by positivity)]
  exact_mod_cast sampler.drawNumerator_lt

end ExactDraws

/-- **The transition of the generator is a permutation.** It fixes zero, so different seeds hold
different states after any number of draws each, and no other state leads to zero. A drawn value is a
fraction of `2 ^ 53` below one. -/
theorem xorshift_permutation [Floats α] :
    Function.Bijective xorshift ∧ xorshift 0 = 0 ∧
    (∀ (left right : SamplerConfig α) (draws : ℕ), left.seed ≠ right.seed →
      ((new left).afterDraws draws).rngState ≠ ((new right).afterDraws draws).rngState) ∧
    (∀ (sampler : Sampler α) (draws : ℕ), sampler.rngState ≠ 0 →
      (sampler.afterDraws draws).rngState ≠ 0) ∧
    (∀ sampler : Sampler α, ∃ numerator : ℕ, numerator < 2 ^ 53 ∧ sampler.nextF64.1 =
      (numerator : Floats.Double α) / ((2 ^ 53 : ℕ) : Floats.Double α)) ∧
    (∀ (K : Type) [Field K] [LinearOrder K] [IsStrictOrderedRing K] (weight : K → K)
      (sampler : Sampler (Exact weight)), 0 ≤ sampler.draw ∧ sampler.draw < 1) := by
  refine ⟨⟨xorshift_injective, xorshift_surjective⟩, xorshift_zero, ?_, ?_, ?_, ?_⟩
  · intro left right draws hseeds hstates
    rw [rngState_afterDraws, rngState_afterDraws] at hstates
    exact hseeds (rngState_new_injective (xorshift_injective.iterate draws hstates))
  · intro sampler draws hne
    exact rngState_afterDraws_ne_zero draws hne
  · intro sampler
    exact ⟨sampler.drawNumerator, sampler.drawNumerator_lt, sampler.nextF64_fst⟩
  · intro K _ _ _ weight sampler
    exact ⟨sampler.draw_nonneg, sampler.draw_lt_one⟩

end HotBatch.Sampler
