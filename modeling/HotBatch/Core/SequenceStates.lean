import HotBatch.Core.RationalKernels
import HotBatch.Core.Sequence
import HotBatch.Foundation.Transition

/-!
# The states of a sequence

Whatever is called on a sequence in whatever order, it has a finish reason exactly when it is finished,
and taking tokens never panics. `cancel` and `fail` leave a sequence that is done alone; `append_token`
only looks at the finish reason, so a token that ends a generation also finishes a sequence that has
been cancelled or has failed. Nothing else leads out of a terminal state.
-/

namespace HotBatch

namespace Sequence

variable {α : Type}

/-- A call on a sequence. -/
inductive Call where
  | markRunning
  | appendToken (token : Token)
  | cancel
  | fail
  | takeEmittableTokens
  deriving DecidableEq

/-- The sequence after a call; none where the call panics. -/
def perform : Call → Sequence α → Option (Sequence α)
  | .markRunning, seq => some seq.markRunning
  | .appendToken token, seq => some (seq.appendToken token)
  | .cancel, seq => some seq.cancel
  | .fail, seq => some seq.fail
  | .takeEmittableTokens, seq => seq.takeEmittableTokens.map Prod.snd

/-- With this token the generation ends. -/
def Ends (seq : Sequence α) (token : Token) : Prop :=
  (token = seq.sampler.eosToken ∨ (seq.push token).matchedStopLen.isSome = true) ∨
    seq.sampler.maxNewTokens ≤ seq.generatedTokens.length + 1

instance (seq : Sequence α) (token : Token) : Decidable (seq.Ends token) :=
  inferInstanceAs (Decidable ((_ ∨ _) ∨ _))

/-- No token that ends a generation is appended to a sequence that was cancelled or has failed. -/
def Lawful (seq : Sequence α) : Call → Prop
  | .appendToken token => seq.state = .cancelled ∨ seq.state = .failed → ¬ seq.Ends token
  | .markRunning | .cancel | .fail | .takeEmittableTokens => True

instance (seq : Sequence α) (call : Call) : Decidable (seq.Lawful call) :=
  match call with
  | .appendToken _ => inferInstanceAs (Decidable (_ → _))
  | .markRunning | .cancel | .fail | .takeEmittableTokens => .isTrue trivial

abbrev Reaches (allowed : Sequence α → Call → Prop) (start : Sequence α) : Sequence α → Prop :=
  Transition.Reaches perform allowed start

def Anything : Sequence α → Call → Prop := fun _ _ ↦ True

instance (seq : Sequence α) (call : Call) : Decidable (Anything seq call) := isTrue trivial

/-! ## One call -/

section Call

variable {seq seq' : Sequence α} {token : Token} {call : Call}

theorem appendToken_of_finishReason (hreason : seq.finishReason.isSome = true) :
    seq.appendToken token = seq.push token := by
  have hnone : (seq.push token).finishReason.isNone = false := by
    rw [push_finishReason, ← Option.not_isSome, hreason]
    rfl
  unfold appendToken
  dsimp only
  rw [hnone]
  rfl

theorem appendToken_of_ends (hreason : seq.finishReason = none) (hends : seq.Ends token) :
    (seq.appendToken token).state = .finished ∧ (seq.appendToken token).finishReason.isSome = true := by
  have hnone : (seq.push token).finishReason.isNone = true := by
    rw [push_finishReason, hreason]
    rfl
  unfold appendToken
  dsimp only
  rw [if_pos hnone]
  split_ifs with hstop hlimit
  · exact ⟨rfl, rfl⟩
  · exact ⟨rfl, rfl⟩
  · rcases hends with hends | hends
    · exact absurd hends hstop
    · rw [push_length] at hlimit
      exact absurd hends hlimit

theorem appendToken_of_not_ends (hreason : seq.finishReason = none) (hends : ¬ seq.Ends token) :
    seq.appendToken token = seq.push token := by
  have hnone : (seq.push token).finishReason.isNone = true := by
    rw [push_finishReason, hreason]
    rfl
  unfold appendToken
  dsimp only
  rw [if_pos hnone]
  split_ifs with hstop hlimit
  · exact absurd (Or.inl hstop) hends
  · rw [push_length] at hlimit
    exact absurd (Or.inr hlimit) hends
  · rfl

/-- The invariant of a sequence: it has a finish reason exactly when it is finished, and nothing unsafe
has been taken. -/
structure Consistent (seq : Sequence α) : Prop where
  reason_iff : seq.finishReason.isSome = true ↔ seq.state = .finished
  emitted_le : seq.emittedTokens ≤ seq.safeEnd

theorem consistent_ofRequest (req : GenerationRequest α) (handle : KvHandle) :
    (ofRequest req handle).Consistent where
  reason_iff := by simp [ofRequest]
  emitted_le := Nat.zero_le _

/-- A sequence with another state, which is not and was not finished, is as consistent. -/
theorem Consistent.setState {state : SequenceState} (hconsistent : seq.Consistent)
    (hbefore : seq.state ≠ .finished) (hafter : state ≠ .finished) :
    ({ seq with state := state } : Sequence α).Consistent where
  reason_iff := iff_of_false (fun hsome ↦ hbefore (hconsistent.reason_iff.mp hsome)) hafter
  emitted_le := hconsistent.emitted_le

theorem state_ne_finished_of_not_done (hdone : ¬ seq.isDone = true) : seq.state ≠ .finished := by
  intro hfinished
  unfold isDone at hdone
  rw [hfinished] at hdone
  exact hdone rfl

theorem Consistent.markRunning (hconsistent : seq.Consistent) : seq.markRunning.Consistent := by
  unfold Sequence.markRunning
  split
  · rename_i hstate
    apply hconsistent.setState
    · rw [hstate]
      exact SequenceState.noConfusion
    · exact SequenceState.noConfusion
  · exact hconsistent

theorem Consistent.cancel (hconsistent : seq.Consistent) : seq.cancel.Consistent := by
  unfold Sequence.cancel
  split
  · exact hconsistent
  · rename_i hdone
    exact hconsistent.setState (state_ne_finished_of_not_done hdone) SequenceState.noConfusion

theorem Consistent.fail (hconsistent : seq.Consistent) : seq.fail.Consistent := by
  unfold Sequence.fail
  split
  · exact hconsistent
  · rename_i hdone
    exact hconsistent.setState (state_ne_finished_of_not_done hdone) SequenceState.noConfusion

theorem Consistent.appendToken (hconsistent : seq.Consistent) (token : Token) :
    (seq.appendToken token).Consistent where
  reason_iff := by
    cases hreason : seq.finishReason with
    | some reason =>
        have hsome : seq.finishReason.isSome = true := by
          rw [hreason]
          rfl
        rw [appendToken_of_finishReason hsome]
        exact hconsistent.reason_iff
    | none =>
        by_cases hends : seq.Ends token
        · obtain ⟨hstate, hsome⟩ := appendToken_of_ends hreason hends
          exact iff_of_true hsome hstate
        · rw [appendToken_of_not_ends hreason hends]
          exact hconsistent.reason_iff
  emitted_le := by
    obtain ⟨-, -, -, -, -, hemitted, -⟩ := appendToken_frame token seq
    rw [hemitted]
    exact hconsistent.emitted_le.trans (safeEnd_le_appendToken token seq)

/-- Taking tokens succeeds and is remembered. -/
theorem Consistent.takeEmittableTokens (hconsistent : seq.Consistent) :
    seq.takeEmittableTokens.map Prod.snd = some { seq with emittedTokens := seq.safeEnd } := by
  unfold Sequence.takeEmittableTokens
  dsimp only
  rw [if_pos ⟨hconsistent.emitted_le, seq.safeEnd_le⟩]
  rfl

/-- **No call panics**, and every call keeps a sequence consistent. -/
theorem Consistent.perform (hconsistent : seq.Consistent) (call : Call) :
    ∃ seq', seq.perform call = some seq' ∧ seq'.Consistent := by
  cases call with
  | markRunning => exact ⟨_, rfl, hconsistent.markRunning⟩
  | appendToken token => exact ⟨_, rfl, hconsistent.appendToken token⟩
  | cancel => exact ⟨_, rfl, hconsistent.cancel⟩
  | fail => exact ⟨_, rfl, hconsistent.fail⟩
  | takeEmittableTokens =>
      refine ⟨_, hconsistent.takeEmittableTokens, hconsistent.reason_iff, ?_⟩
      exact Nat.le_refl _

/-- A call leaves the outcome of a sequence alone. -/
def SameOutcome (seq seq' : Sequence α) : Prop :=
  seq'.state = seq.state ∧ seq'.finishReason = seq.finishReason

/-- **What leads out of a terminal state.** -/
theorem sameOutcome_iff_lawful (hconsistent : seq.Consistent) (hdone : seq.isDone = true)
    (hperform : seq.perform call = some seq') : seq.SameOutcome seq' ↔ seq.Lawful call := by
  cases call with
  | markRunning =>
      obtain rfl := Option.some.inj hperform
      refine iff_of_true ?_ trivial
      unfold Sequence.markRunning
      split
      · rename_i hstate
        rw [isDone, hstate] at hdone
        cases hdone
      · exact ⟨rfl, rfl⟩
  | cancel =>
      obtain rfl := Option.some.inj hperform
      refine iff_of_true ?_ trivial
      unfold Sequence.cancel
      rw [if_pos hdone]
      exact ⟨rfl, rfl⟩
  | fail =>
      obtain rfl := Option.some.inj hperform
      refine iff_of_true ?_ trivial
      unfold Sequence.fail
      rw [if_pos hdone]
      exact ⟨rfl, rfl⟩
  | takeEmittableTokens =>
      obtain rfl := Option.some.inj (hperform.symm.trans hconsistent.takeEmittableTokens)
      exact iff_of_true ⟨rfl, rfl⟩ trivial
  | appendToken token =>
      obtain rfl := Option.some.inj hperform
      cases hreason : seq.finishReason with
      | some reason =>
          have hsome : seq.finishReason.isSome = true := by
            rw [hreason]
            rfl
          have hfinished := hconsistent.reason_iff.mp hsome
          refine iff_of_true ?_ ?_
          · rw [appendToken_of_finishReason hsome]
            exact ⟨rfl, rfl⟩
          · intro hother
            rw [hfinished] at hother
            rcases hother with hother | hother <;> cases hother
      | none =>
          have hopen : seq.state = .cancelled ∨ seq.state = .failed := by
            have hfinished : seq.state ≠ .finished := by
              intro hfinished
              rw [← hconsistent.reason_iff, hreason] at hfinished
              cases hfinished
            cases hstate : seq.state with
            | cancelled => exact Or.inl rfl
            | failed => exact Or.inr rfl
            | finished => exact absurd hstate hfinished
            | prefilling | running =>
                rw [isDone, hstate] at hdone
                cases hdone
          by_cases hends : seq.Ends token
          · refine iff_of_false ?_ fun hlawful ↦ hlawful hopen hends
            rintro ⟨-, hsame⟩
            obtain ⟨-, hsome⟩ := appendToken_of_ends hreason hends
            rw [hsame, hreason] at hsome
            cases hsome
          · refine iff_of_true ?_ fun _ ↦ hends
            rw [appendToken_of_not_ends hreason hends]
            exact ⟨rfl, rfl⟩

end Call

/-! ## Any calls -/

theorem consistent_of_reaches {allowed : Sequence α → Call → Prop} {start seq : Sequence α}
    (hstart : start.Consistent) (hreach : Reaches allowed start seq) : seq.Consistent := by
  apply hreach.invariant _ hstart
  intro before after call _ hbefore _ hperform
  obtain ⟨seq', hsame, hafter⟩ := hbefore.perform call
  obtain rfl := Option.some.inj (hperform.symm.trans hsame)
  exact hafter

/-- Lawful calls do not change the outcome of a sequence that is done. -/
theorem sameOutcome_of_reaches {seq later : Sequence α} (hconsistent : seq.Consistent)
    (hdone : seq.isDone = true) (hreach : Reaches Lawful seq later) : seq.SameOutcome later := by
  apply hreach.invariant _ ⟨rfl, rfl⟩
  intro before after call hbefore hsame hlawful hperform
  have hdoneBefore : before.isDone = true := by
    unfold isDone at hdone ⊢
    rwa [hsame.1]
  obtain ⟨hstate, hreason⟩ := (sameOutcome_iff_lawful
    (consistent_of_reaches hconsistent hbefore) hdoneBefore hperform).mpr hlawful
  exact ⟨hstate.trans hsame.1, hreason.trans hsame.2⟩

/-- **Terminal states are absorbing for lawful calls.** After any calls a sequence has a finish reason
exactly when it is finished, and no call panics. As long as no token that ends a generation is appended
to a sequence that was cancelled or has failed, a sequence that is done keeps its state and its finish
reason; any other call keeps them, and such a token never does. -/
theorem terminal_states_absorbing (req : GenerationRequest α) (handle : KvHandle) (seq : Sequence α)
    (hreach : Reaches Anything (ofRequest req handle) seq) :
    (seq.finishReason.isSome = true ↔ seq.state = .finished) ∧
      (∀ call, (seq.perform call).isSome = true) ∧
      (seq.isDone = true →
        (∀ later, Reaches Lawful seq later →
          later.state = seq.state ∧ later.finishReason = seq.finishReason) ∧
        ∀ call seq', seq.perform call = some seq' →
          (seq'.state = seq.state ∧ seq'.finishReason = seq.finishReason ↔ seq.Lawful call)) := by
  have hconsistent := consistent_of_reaches (consistent_ofRequest req handle) hreach
  refine ⟨hconsistent.reason_iff, ?_, fun hdone ↦ ⟨?_, ?_⟩⟩
  · intro call
    obtain ⟨seq', hperform, -⟩ := hconsistent.perform call
    rw [hperform]
    rfl
  · exact fun later hlater ↦ sameOutcome_of_reaches hconsistent hdone hlater
  · exact fun call seq' hperform ↦ sameOutcome_iff_lawful hconsistent hdone hperform

/-- A sequence of `tinyConfig`, whose limit is two tokens. -/
def tinySequence : Sequence ℚ := ofRequest ⟨"a", [1], tinyConfig, 0, 0, 0⟩ ⟨0, 3, 1⟩

/-- It is cancelled after its first token, and a token is appended that ends nothing. -/
def tinyCancelled : Sequence ℚ :=
  (Transition.run perform Lawful [.appendToken 3, .cancel] tinySequence).getD tinySequence

theorem terminal_states_absorbing_tinyCancelled :
    tinyCancelled.state = .cancelled ∧
      ∀ later, Reaches Lawful tinyCancelled later → later.state = .cancelled := by
  have hreach : Reaches Anything tinySequence tinyCancelled :=
    (Transition.reaches_getD_run (by decide +kernel) tinySequence).mono fun _ _ _ ↦ trivial
  have hstate : tinyCancelled.state = .cancelled := by decide +kernel
  refine ⟨hstate, fun later hlater ↦ ?_⟩
  rw [← hstate]
  exact (((terminal_states_absorbing _ _ tinyCancelled hreach).2.2 (by decide +kernel)).1 later
    hlater).1

/-- A cancelled sequence is finished by the eos token. -/
theorem cancelled_then_finished :
    ∃ later, Reaches Anything tinySequence tinySequence.cancel ∧
      Reaches Anything tinySequence.cancel later ∧
      tinySequence.cancel.isDone = true ∧ tinySequence.cancel.state = .cancelled ∧
      later.state = .finished ∧ later.finishReason = some .stop :=
  ⟨tinySequence.cancel.appendToken 100,
    .step .refl trivial (show perform .cancel tinySequence = _ from rfl),
    .step .refl trivial (show perform (.appendToken 100) tinySequence.cancel = _ from rfl),
    by decide +kernel⟩

end Sequence

end HotBatch
