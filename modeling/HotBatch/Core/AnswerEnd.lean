import HotBatch.Core.PrivateAnswer
import HotBatch.Core.StopEmission

/-!
# How the private answer ends

The private run feeds its sampled tokens to a sequence, so what `StopEmission` says of fed tokens holds
of it: it ends with the first token that is eos or completes a stop, or else with the last one that
fits, and it releases what is then shown. Without token stops, which is how the HTTP layer asks, the
length of the answer tells why it ended.
-/

namespace HotBatch

namespace Sequence

variable {α : Type} [Floats α] {config : SamplerConfig α} {seen : List Token} {seq : Sequence α}

/-- A generation that has ended, for the reason that its tokens give. -/
structure Accounted (config : SamplerConfig α) (seq : Sequence α) : Prop where
  done : seq.isDone = true
  ends : ∃ reason, seq.finishReason = some reason ∧
    config.FirstEnds seq.generatedTokens seq.generatedTokens reason ∧
    config.ShownAt seq.generatedTokens seq.takenTokens reason

/-- Drawing a sample leaves the generation open. -/
theorem Open.sampled (hopen : Open config seen seq) (row : LogitRow α) :
    Open config seen { seq with sampler := (seq.sampler.sample row).2 } where
  config_eq := (Sampler.sample_config _ _).trans hopen.config_eq
  generated_eq := hopen.generated_eq
  not_done := hopen.not_done
  reason_none := hopen.reason_none
  emitted_eq := by
    have hsafe : ({ seq with sampler := (seq.sampler.sample row).2 } : Sequence α).safeEnd =
        seq.safeEnd := by
      unfold safeEnd pendingStopPrefixLen Sampler.stopSequences
      dsimp only
      rw [Sampler.sample_config]
    exact hopen.emitted_eq.trans hsafe.symm
  not_ended := hopen.not_ended

/-- **A turn leaves a generation open or ends it.** -/
theorem Open.advance (hopen : Open config seen seq) {row : LogitRow α} {tokens : List Token}
    {stepped : Sequence α} (hadvance : seq.advance row = some (tokens, stepped)) :
    Open config (seen ++ [(seq.sampler.sample row).1]) stepped ∨ Accounted config stepped := by
  have hsampled := hopen.sampled row
  by_cases hends : Ends { seq with sampler := (seq.sampler.sample row).2 } (seq.sampler.sample row).1
  · right
    obtain ⟨taken, other, reason, htake, hendsAt, hstate, hreason, hgenerated, hshown⟩ :=
      hsampled.finish hends
    obtain ⟨-, rfl⟩ := Prod.mk.inj (Option.some.inj (hadvance.symm.trans htake))
    refine ⟨?_, reason, hreason, ?_, ?_⟩
    · unfold isDone
      rw [hstate]
    · rw [hgenerated]
      exact hsampled.firstEnds hendsAt []
    · rwa [hgenerated]
  · left
    obtain ⟨taken, other, htake, hstepped⟩ := hsampled.extend hends
    obtain ⟨-, rfl⟩ := Prod.mk.inj (Option.some.inj (hadvance.symm.trans htake))
    exact hstepped

end Sequence

namespace PrivateState

variable {α : Type} [Kernels α] {model : SmallTransformer α} {req : GenerationRequest α}
  {handle : KvHandle}

/-- Every turn leaves the generation open, until one ends it. -/
theorem open_or_accounted_after (hnew : 0 < req.maxNewTokens) (turns : ℕ) :
    (∃ seen, Sequence.Open req.samplerConfig seen (after model req handle turns).seq) ∨
      Sequence.Accounted req.samplerConfig (after model req handle turns).seq := by
  induction turns with
  | zero => exact Or.inl ⟨[], Sequence.open_ofRequest hnew handle⟩
  | succ turns ih =>
      rcases ih with ⟨seen, hopen⟩ | haccounted
      · obtain ⟨tokens, stepped, hadvance, hafter⟩ := after_succ hopen.not_done
        rw [hafter]
        exact (hopen.advance hadvance).imp_left fun hstepped ↦ ⟨_, hstepped⟩
      · rw [after, turn_of_done haccounted.done]
        exact Or.inr haccounted

theorem length_generated_le (turns : ℕ) :
    (after model req handle turns).seq.generatedTokens.length ≤ turns := by
  induction turns with
  | zero => exact Nat.le_refl 0
  | succ turns ih =>
      cases hdone : (after model req handle turns).seq.isDone with
      | true =>
          rw [after, turn_of_done hdone]
          exact ih.trans (Nat.le_succ _)
      | false =>
          obtain ⟨tokens, stepped, hadvance, hafter⟩ := after_succ hdone
          obtain ⟨-, -, -, -, -, -, hgenerated⟩ := Sequence.advance_frame hadvance
          rw [hafter, hgenerated, List.length_append]
          exact Nat.succ_le_succ ih

/-- The private run ends for a reason that its tokens give. -/
theorem accounted_final (model : SmallTransformer α) (hnew : 0 < req.maxNewTokens) :
    Sequence.Accounted req.samplerConfig (final model req) := by
  have hfinal : (∃ seen, Sequence.Open req.samplerConfig seen (final model req)) ∨
      Sequence.Accounted req.samplerConfig (final model req) := open_or_accounted_after hnew req.maxNewTokens
  rcases hfinal with ⟨seen, hopen⟩ | haccounted
  · have hdone := final_isDone model hnew
    rw [hopen.not_done] at hdone
    cases hdone
  · exact haccounted

end PrivateState

/-- Tokens that were released before the limit, or all that fit. -/
def Exhausts (limit : ℕ) (tokens : List Token) : FinishReason → Prop
  | .length => tokens.length = limit
  | .stop => tokens.length < limit

/-- **The length of an answer tells why it ended.** Without token stops the private answer consists of
tokens other than eos: as many as were asked for if it ended at the limit, and fewer if eos came
first. -/
theorem exhausts_privateAnswer {α : Type} [Kernels α] (model : SmallTransformer α)
    {req : GenerationRequest α} (hnew : 0 < req.maxNewTokens)
    (hstops : req.samplerConfig.stopSequences = []) :
    ∃ tokens reason, privateAnswer model req = tokens.map .token ++ [.finished reason] ∧
      req.samplerConfig.eosToken ∉ tokens ∧ Exhausts req.maxNewTokens tokens reason := by
  have hlength : (PrivateState.final model req).generatedTokens.length ≤ req.maxNewTokens :=
    PrivateState.length_generated_le req.maxNewTokens
  obtain ⟨-, reason, hreason, hfirst, hshown⟩ := PrivateState.accounted_final model hnew
  refine ⟨(PrivateState.final model req).takenTokens, reason, ?_, ?_, ?_⟩
  · unfold privateAnswer
    rw [hreason]
    rfl
  · exact (SamplerConfig.clean_of_not_stopsAt (hfirst.clean hshown)).1
  · cases reason with
    | length =>
        have hall : (PrivateState.final model req).takenTokens =
            (PrivateState.final model req).generatedTokens := hshown
        unfold Exhausts
        rw [hall]
        exact Nat.le_antisymm hlength hfirst.ends.2
    | stop =>
        rcases hshown with ⟨stop, hstop, -⟩ | ⟨-, heos⟩
        · rw [hstops] at hstop
          exact absurd hstop List.not_mem_nil
        · rw [heos, List.length_append] at hlength
          exact hlength

end HotBatch
