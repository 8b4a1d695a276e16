import Mathlib.Algebra.Field.Rat
import Mathlib.Algebra.Order.Ring.Rat
import HotBatch.Core.Model

/-!
# Kernels over the rationals

Exact kernels that can be evaluated, for runs on concrete inputs. They agree with the real ones where
such a run needs them: the exponential at zero, and the layer norm of a row of width one, which is
its learned shift.
-/

namespace HotBatch

instance rationalScalar : Scalar ℚ where
  ofScientific := OfScientific.ofScientific
  le left right := decide (left ≤ right)
  lt left right := decide (left < right)
  totalLe left right := decide (left ≤ right)
  aboveNegInfinity _ := true
  exp x := 1 + x + x * x / 2

instance rationalKernels : Kernels ℚ where
  Double := ℚ
  doubleScalar := rationalScalar
  widen := id
  epsilon := 1 / 2 ^ 23
  layerNorm weight bias eps row :=
    let mean := row.sum / row.length
    let variance := (row.map fun x ↦ (x - mean) * (x - mean)).sum / row.length
    let normed := row.map fun x ↦ (x - mean) / (variance + eps)
    List.zipWith (· + ·) (List.zipWith (· * ·) normed weight) bias
  gelu x := if 0 ≤ x then x else 0
  indexError index size := s!"index {index} is out of range for a table of {size}"
  shapeError left right := s!"shape mismatch: {left} and {right}"

/-- A scripted backend with four tokens that alternates between two of them. -/
def tinyScripted : ScriptedModel where
  vocabSize := 4
  scriptTokens := [1, 2]
  vocab_pos := by decide
  script_ne_nil := by decide

/-- A GPT-2 model of width one whose projections are zero. Its final norm yields one for every
position, so it always prefers the second of its two tokens. -/
def tinyGpt2 : Gpt2Model ℚ :=
  let norm : LayerNorm ℚ := ⟨[1], [1], 0⟩
  let zero (outDim : ℕ) : Conv1D ℚ :=
    ⟨[List.replicate outDim 0], List.replicate outDim 0, .inOut, outDim⟩
  { config := ⟨2, some 8, none, 1, 1, 1⟩
    headDim := 1
    wte := ⟨[[0], [1]]⟩
    wpe := ⟨List.replicate 8 [0]⟩
    blocks := [⟨norm, ⟨zero 3, zero 1, 1, 1, 1⟩, norm, ⟨zero 1, zero 1⟩⟩]
    lnF := norm
    vocab_pos := by decide
    layers_pos := by decide
    positions_pos := by decide
    wte_length := by decide
    wpe_length := by decide
    blocks_length := by decide
    blocks_shape := by decide }

/-- Greedy sampling of at most two tokens. -/
def tinyConfig : SamplerConfig ℚ where
  temperature := 0
  topP := 1
  topK := none
  stopSequences := []
  maxNewTokens := 2
  eosToken := 100
  seed := 7

end HotBatch
