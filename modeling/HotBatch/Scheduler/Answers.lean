import HotBatch.Core.PrivateAnswer
import HotBatch.Scheduler.Following
import HotBatch.Scheduler.Protocol

/-!
# What a channel carries

Every channel of the scheduler carries the private answer to its request as far as it goes, possibly
broken off by an error: the account of a sequence says which of its tokens have gone out, and the
sequence is where its private run says.
-/

namespace HotBatch

namespace Sequence

variable {α : Type}

theorem Interrupts.takenTokens_eq {base seq : Sequence α} (hinterrupts : base.Interrupts seq) :
    seq.takenTokens = base.takenTokens := by
  rcases hinterrupts with rfl | rfl | rfl
  · rfl
  · rw [base.cancel_eq]
    rfl
  · rw [base.fail_eq]
    rfl

theorem Interrupts.finishReason_eq {base seq : Sequence α} (hinterrupts : base.Interrupts seq) :
    seq.finishReason = base.finishReason := by
  rcases hinterrupts with rfl | rfl | rfl
  · rfl
  · rw [base.cancel_eq]
  · rw [base.fail_eq]

/-- An account only needs to know which tokens have been released, and that a finish comes last. -/
theorem Account.begins {seq : Sequence α} {view : View} (haccount : seq.Account view)
    {answer : List StreamItem} (htokens : seq.takenTokens.map .token <+: answer)
    (hfinish : ∀ reason, seq.finishReason = some reason →
      answer = seq.takenTokens.map .token ++ [.finished reason]) : Begins answer view.outgoing := by
  obtain ⟨tokens, ends, houtgoing, hlength, hends, hprefix, hreason⟩ := haccount.outgoing
  have hbegins : tokens.map StreamItem.token <+: answer := by
    have hmapped : tokens.map StreamItem.token <+: seq.takenTokens.map .token := hprefix.map _
    exact hmapped.trans htokens
  rw [houtgoing]
  match ends, hlength with
  | [], _ =>
      rw [List.append_nil]
      exact Or.inl hbegins
  | [.token token], _ => exact absurd List.mem_cons_self (hends token)
  | [.error message], _ => exact Or.inr ⟨tokens, message, hbegins, rfl⟩
  | [.finished reason], _ =>
      obtain ⟨hseqReason, -, rfl⟩ := hreason reason List.mem_cons_self
      rw [hfinish reason hseqReason]
      exact Or.inl List.prefix_rfl

variable [Kernels α] {model : SmallTransformer α} {req : GenerationRequest α} {seq : Sequence α}
  {view : View}

/-- The account of a sequence some turns into its private run. -/
theorem Account.begins_of_turns (haccount : seq.Account view) (hnew : 0 < req.maxNewTokens)
    {handle : KvHandle} {turns : ℕ}
    (hinterrupts : (PrivateState.after model req handle turns).seq.Interrupts seq) :
    Begins (privateAnswer model req) view.outgoing := by
  apply haccount.begins
  · rw [hinterrupts.takenTokens_eq]
    exact taken_prefix_privateAnswer hnew handle turns List.prefix_rfl
  · intro reason hreason
    rw [hinterrupts.finishReason_eq] at hreason
    have hserves : Serves req (PrivateState.after model req handle turns).seq :=
      PrivateState.serves_after turns
    have hdone : (PrivateState.after model req handle turns).seq.isDone = true := by
      rcases hserves.status with ⟨-, hnone⟩ | ⟨hstate, -⟩
      · rw [hnone] at hreason
        cases hreason
      · unfold isDone
        rw [hstate]
    have hfinal := PrivateState.seq_eq_final_of_done hnew hdone
    rw [hinterrupts.takenTokens_eq, hfinal]
    rw [hfinal] at hreason
    have hsame : (PrivateState.final model req).finishReason = some reason := hreason
    unfold privateAnswer
    rw [hsame]
    rfl

omit [Kernels α] in
/-- A sequence that has generated nothing has released nothing. -/
theorem Account.begins_of_new (haccount : seq.Account view) {handle : KvHandle}
    (hinterrupts : (ofRequest req handle).Interrupts seq) (answer : List StreamItem) :
    Begins answer view.outgoing := by
  apply haccount.begins
  · rw [hinterrupts.takenTokens_eq]
    exact List.nil_prefix
  · intro reason hreason
    rw [hinterrupts.finishReason_eq] at hreason
    cases hreason

end Sequence

namespace Scheduler

variable {α : Type} [Kernels α] {scheduler : Scheduler α} {s : State α}

/-- **Every channel carries the private answer as far as it goes**, in every run. -/
theorem begins_reachable {maxSeqs maxSeqLen numLayers nHeads headDim maxDepth : ℕ}
    {capacity : ClientId → ℕ} (hreach : Reaches scheduler Anything
      (init (.new maxSeqs maxSeqLen numLayers nHeads headDim) maxDepth capacity) s)
    {req : GenerationRequest α} (hreq : req ∈ s.history.accepted) :
    Begins (privateAnswer scheduler.model req) (s.view req.client).outgoing := by
  have hbooks := books_reachable hreach
  rcases hbooks.view_cases req.client with ⟨-, herror, -⟩ | ⟨seq, hheld, hclient, haccount⟩
  · rcases herror with hnone | ⟨message, hsome⟩
    · rw [hnone]
      exact .nil _
    · rw [hsome]
      exact .error _ message
  · have htraces : Traces scheduler maxSeqLen s.history.accepted seq := by
      rcases hheld with hrunning | hdropped
      · obtain ⟨index, hindex⟩ := List.mem_iff_getElem?.mp hrunning
        exact ((following_reachable hreach).running index seq hindex).traces
      · exact (following_reachable hreach).dropped seq hdropped
    obtain ⟨origin, horigin, hadmitted, hcases⟩ := htraces
    have hsameClient : origin.client = seq.client := by
      rcases hcases with hinterrupts | ⟨turns, hfollows⟩
      · exact hinterrupts.client_eq.symm
      · exact hfollows.client_eq.symm
    obtain rfl : origin = req :=
      List.inj_on_of_nodup_map hbooks.nodup horigin hreq (hsameClient.trans hclient)
    rcases hcases with hinterrupts | ⟨turns, hfollows⟩
    · exact haccount.begins_of_new hinterrupts _
    · exact haccount.begins_of_turns hadmitted.admissible.maxNew_pos hfollows.interrupts

end Scheduler

end HotBatch
