import HotBatch.Core.PassErrors
import HotBatch.Core.PrivateRun

/-!
# Tokens and the vocabulary

A sampled token is always in the vocabulary, so the only token outside of it that a decode pass can
meet is the last one of a prompt, which the prefill does not look at.
-/

namespace HotBatch

variable {α : Type} [Kernels α]

namespace SmallTransformer

variable {model : SmallTransformer α}

/-- The token that the first decode pass of a request consumes is in the vocabulary. -/
def EndsInVocab (model : SmallTransformer α) (promptTokens : List Token) : Prop :=
  ∀ last ∈ promptTokens.getLast?, last.toNat < model.vocabSize

omit [Kernels α] in
theorem vocabSize_pos (model : SmallTransformer α) : 0 < model.vocabSize := by
  cases model with
  | gpt2 model => exact model.vocab_pos
  | scripted model => exact model.vocab_pos

theorem length_decodeRow (model : SmallTransformer α) (store : KvStore α) (input : DecodeInput) :
    (model.decodeRow store input).1.length = model.vocabSize := by
  cases model with
  | gpt2 model => exact (List.length_map _).trans model.wte_length
  | scripted model => exact model.length_logits _ _ _ _

end SmallTransformer

namespace Sequence

variable {seq : Sequence α} {bound : ℕ}

omit [Kernels α] in
/-- The last token is the prompt's until something has been generated. -/
theorem lastToken_lt_iff (hprompt : seq.promptTokens ≠ [])
    (hgenerated : ∀ token ∈ seq.generatedTokens, token.toNat < bound) :
    seq.lastToken.toNat < bound ↔
      (seq.generatedTokens = [] → ∀ last ∈ seq.promptTokens.getLast?, last.toNat < bound) := by
  unfold lastToken
  rw [List.getLast?_eq_some_getLast hprompt]
  by_cases hnone : seq.generatedTokens = []
  · simp [hnone]
  · rw [List.getLast?_eq_some_getLast hnone]
    exact iff_of_true (hgenerated _ (List.getLast_mem hnone)) fun hnil ↦ absurd hnil hnone

end Sequence

namespace PrivateState

variable {model : SmallTransformer α} {req : GenerationRequest α} {handle : KvHandle}

/-- **Generated tokens are in the vocabulary.** -/
theorem generated_lt_vocabSize (turns : ℕ) :
    ∀ token ∈ (after model req handle turns).seq.generatedTokens,
      token.toNat < model.vocabSize := by
  induction turns with
  | zero =>
      intro token htoken
      change token ∈ [] at htoken
      cases htoken
  | succ turns ih =>
      cases hdone : (after model req handle turns).seq.isDone with
      | true =>
          rw [after, turn_of_done hdone]
          exact ih
      | false =>
          obtain ⟨tokens, stepped, hadvance, hafter⟩ := after_succ hdone
          obtain ⟨-, -, -, -, -, -, hgenerated⟩ := Sequence.advance_frame hadvance
          rw [hafter, hgenerated]
          have hlength := model.length_decodeRow (after model req handle turns).store
            (after model req handle turns).seq.decodeInput
          have hne : (model.decodeRow (after model req handle turns).store
              (after model req handle turns).seq.decodeInput).1 ≠ [] := by
            apply List.ne_nil_of_length_pos
            rw [hlength]
            exact model.vocabSize_pos
          intro token htoken
          rcases List.mem_append.mp htoken with hold | hnew
          · exact ih token hold
          · rw [List.mem_singleton.mp hnew, ← hlength]
            exact Sampler.sample_lt _ hne

/-- A row of the run is accepted unless it is the first one and its prompt ends outside of the
vocabulary. -/
theorem lastToken_after_lt_iff (hprompt : req.promptTokens ≠ []) (turns : ℕ) :
    (after model req handle turns).seq.lastToken.toNat < model.vocabSize ↔
      ((after model req handle turns).seq.generatedTokens = [] →
        model.EndsInVocab req.promptTokens) := by
  have hsame : (after model req handle turns).seq.promptTokens = req.promptTokens :=
    (serves_after turns).promptTokens_eq
  rw [Sequence.lastToken_lt_iff (by rwa [hsame]) (generated_lt_vocabSize turns), hsame]
  rfl

end PrivateState

end HotBatch
