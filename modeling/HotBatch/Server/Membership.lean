import HotBatch.Scheduler.Following
import HotBatch.Scheduler.Protocol
import HotBatch.Server.NaiveRun

/-!
# The batch has no influence on a sequence

Both engines follow the private run of a request: the scheduler in whatever company, the naive task
alone. So a sequence of the scheduler is never ahead of what an undisturbed task generates, and one
that finishes has generated the same.
-/

namespace HotBatch

namespace PrivateState

variable {α : Type} [Kernels α] {model : SmallTransformer α} {req : GenerationRequest α}
  {handle other : KvHandle}

/-- Two runs of the same request differ in their handles only. -/
theorem seq_after_withHandle (model : SmallTransformer α) (req : GenerationRequest α) (turns : ℕ)
    (handle other : KvHandle) : (after model req other turns).seq =
      (after model req handle turns).seq.withHandle other :=
  congrArg PrivateState.seq (after_withHandle turns other)

/-- Once one of the runs is done, the other has nothing to add. -/
theorem generated_prefix_of_done {turns later : ℕ}
    (hdone : (after model req other later).seq.isDone = true) :
    (after model req handle turns).seq.generatedTokens <+:
      (after model req other later).seq.generatedTokens := by
  have hsame : (after model req handle turns).seq.generatedTokens =
      (after model req other turns).seq.generatedTokens := by
    rw [seq_after_withHandle model req turns other handle]
    rfl
  rw [hsame]
  rcases Nat.le_total turns later with hle | hle
  · exact generated_after_prefix hle
  · rw [after_of_done hle hdone]

/-- Two runs of the same request end in the same way. -/
theorem after_eq_of_done {turns later : ℕ} (hdone : (after model req handle turns).seq.isDone = true)
    (hdone' : (after model req other later).seq.isDone = true) :
    (after model req other later).seq = (after model req handle turns).seq.withHandle other := by
  have hmoved := seq_after_withHandle model req turns handle other
  rw [← hmoved]
  have hother : (after model req other turns).seq.isDone = true := by
    rw [hmoved]
    exact hdone
  rcases Nat.le_total turns later with hle | hle
  · rw [after_of_done hle hother]
  · rw [after_of_done hle hdone']

/-- A run whose rows are all accepted does not get past a row that is rejected. -/
theorem Accepted.turns_le {turns stuck : ℕ} (haccepted : Accepted model req handle turns)
    (hdone : (after model req other stuck).seq.isDone = false)
    (hrejected : ¬ model.AcceptsInput (after model req other stuck).seq.decodeInput) :
    turns ≤ stuck := by
  by_contra hlt
  exact hrejected ((haccepted.withHandle other).rows stuck (Nat.not_le.mp hlt) hdone)

end PrivateState

namespace Scheduler

variable {α : Type} [Kernels α] {scheduler : Scheduler α} {maxSeqLen turns : ℕ}
  {req : GenerationRequest α} {seq : Sequence α}

/-- The sequences that the scheduler has or had, those that are being admitted included. -/
def State.HasSequence (s : State α) (seq : Sequence α) : Prop := s.pc.candidate = some seq ∨ s.Held seq

namespace Follows

/-- A task that got stuck had come at least as far. -/
theorem generated_of_stuck (hfollows : Follows scheduler maxSeqLen req turns seq)
    {other : Sequence α} (hstuck : Naive.Stuck scheduler.model req other) :
    seq.generatedTokens <+: other.generatedTokens ∧ seq.state ≠ .finished := by
  cases hstuck with
  | prompt _ hrejected => exact absurd hfollows.accepted.prompt hrejected
  | @row stuck haccepted hseq hdone hrejected =>
      rw [hseq] at hdone hrejected
      have hle := hfollows.accepted.turns_le hdone hrejected
      have hsame := PrivateState.seq_after_withHandle scheduler.model req stuck other.kvHandle
        seq.kvHandle
      constructor
      · rw [hfollows.interrupts.generatedTokens_eq, hseq]
        have hbegins : (PrivateState.after scheduler.model req seq.kvHandle
            turns).seq.generatedTokens <+:
            (PrivateState.after scheduler.model req seq.kvHandle stuck).seq.generatedTokens :=
          PrivateState.generated_after_prefix hle
        rwa [hsame] at hbegins
      · intro hfinished
        have hbefore := hfollows.interrupts.eq_of_finished hfinished
        have hended : (PrivateState.after scheduler.model req seq.kvHandle turns).seq.isDone =
            true := by
          rw [← hbefore]
          unfold Sequence.isDone
          rw [hfinished]
        have hstands := PrivateState.after_of_done hle hended
        rw [← hstands, hsame] at hended
        exact absurd (hended.symm.trans hdone) (by decide)

/-- A task that has served the request has generated at least as much, and the same if the sequence
is finished. -/
theorem generated_of_served (hfollows : Follows scheduler maxSeqLen req turns seq)
    {other : Sequence α} {view : View} (hserved : Naive.Served scheduler.model req other view) :
    seq.generatedTokens <+: other.generatedTokens ∧
      (seq.state = .finished → other = seq.withHandle other.kvHandle) := by
  obtain ⟨later, -, hseq⟩ := hserved.atTurn
  have hdone := hserved.done
  rw [hseq] at hdone
  constructor
  · rw [hfollows.interrupts.generatedTokens_eq, hseq]
    exact PrivateState.generated_prefix_of_done hdone
  · intro hfinished
    have hbefore := hfollows.interrupts.eq_of_finished hfinished
    have hended : (PrivateState.after scheduler.model req seq.kvHandle turns).seq.isDone = true := by
      rw [← hbefore]
      unfold Sequence.isDone
      rw [hfinished]
    have hsame := PrivateState.after_eq_of_done hended hdone
    rwa [← hseq, ← hbefore] at hsame

end Follows

/-- What the end of a task says about a sequence for the same request. -/
theorem Traces.agrees {accepted : List (GenerationRequest α)} (hunique : (accepted.map
    GenerationRequest.client).Nodup) (hreq : req ∈ accepted) (hclient : seq.client = req.client)
    (htraces : Traces scheduler maxSeqLen accepted seq) :
    Admitted scheduler maxSeqLen req ∧ ∀ view ended, Naive.Outcome scheduler.model req view ended →
      ∃ serving, ended = some serving ∧
        seq.generatedTokens <+: serving.seq.generatedTokens ∧
        (seq.state = .finished → serving.seq = seq.withHandle serving.seq.kvHandle ∧
          serving.seq.Account view) := by
  obtain ⟨origin, horigin, hadmitted, hcases⟩ := htraces
  have hsameClient : origin.client = seq.client := by
    rcases hcases with hinterrupts | ⟨turns, hfollows⟩
    · exact hinterrupts.client_eq.symm
    · exact hfollows.client_eq.symm
  obtain rfl : origin = req :=
    List.inj_on_of_nodup_map hunique horigin hreq (hsameClient.trans hclient)
  refine ⟨hadmitted, fun view ended houtcome ↦ ?_⟩
  obtain ⟨serving, hended, hserving⟩ := houtcome
  refine ⟨serving, hended, ?_⟩
  rcases hcases with hinterrupts | ⟨turns, hfollows⟩
  · constructor
    · rw [hinterrupts.generatedTokens_eq]
      exact List.nil_prefix
    · intro hfinished
      rw [hinterrupts.eq_of_finished hfinished] at hfinished
      cases hfinished
  · rcases hserving with hstuck | hserved
    · obtain ⟨hbegins, hunfinished⟩ := hfollows.generated_of_stuck hstuck
      exact ⟨hbegins, fun hfinished ↦ absurd hfinished hunfinished⟩
    · obtain ⟨hbegins, hsame⟩ := hfollows.generated_of_served hserved
      exact ⟨hbegins, fun hfinished ↦ ⟨hsame hfinished, hserved.account⟩⟩

theorem Following.traces {s : State α} (hfollowing : Following scheduler maxSeqLen s)
    (hseq : s.HasSequence seq) : Traces scheduler maxSeqLen s.history.accepted seq := by
  rcases hseq with hcandidate | hrunning | hdropped
  · have hcases : s.pc.fresh = some seq ∨ s.pc.primed = some seq := by
      cases hpc : s.pc with
      | checkDone site =>
          rw [hpc] at hcandidate
          cases site <;> first | exact Or.inl hcandidate | exact Or.inr hcandidate
      | checkClosed site client =>
          rw [hpc] at hcandidate
          cases site <;> first | exact Or.inl hcandidate | exact Or.inr hcandidate
      | prefill fresh =>
          rw [hpc] at hcandidate
          exact Or.inl hcandidate
      | _ =>
          rw [hpc] at hcandidate
          cases hcandidate
    rcases hcases with hfresh | hprimed
    · exact (hfollowing.fresh seq hfresh).traces_of_interrupts (.refl seq) rfl
    · exact (hfollowing.primed seq hprimed).traces
  · obtain ⟨index, hindex⟩ := List.mem_iff_getElem?.mp hrunning
    exact (hfollowing.running index seq hindex).traces
  · exact hfollowing.dropped seq hdropped

/-- **The batch has no influence on a sequence.** In every run of the scheduler, whoever joins and
leaves, the sequence of a request has generated the beginning of what an undisturbed naive task
generates for the same request on the same model, and a sequence that has finished has generated the
same, for the same reason, and released the same tokens. Such a task exists for every channel that
can hold the new tokens and the finish. -/
theorem batch_membership_independent (scheduler : Scheduler α)
    (maxSeqs maxSeqLen numLayers nHeads headDim maxDepth : ℕ) (capacity : ClientId → ℕ) :
    ∀ s, Reaches scheduler Anything
        (init (.new maxSeqs maxSeqLen numLayers nHeads headDim) maxDepth capacity) s →
      ∀ req ∈ s.history.accepted, ∀ seq, s.HasSequence seq → seq.client = req.client →
        (∀ room, req.maxNewTokens < room → ∃ task,
          Naive.Reaches scheduler.model req Naive.Undisturbed (Naive.init room) task ∧
            task.pc = .returned ∧ ∀ update ∈ task.history.updates, update.delivered = true) ∧
        ∀ room task, Naive.Reaches scheduler.model req Naive.Undisturbed (Naive.init room) task →
          task.pc = .returned → (∀ update ∈ task.history.updates, update.delivered = true) →
          ∃ serving, task.history.ended = some serving ∧
            seq.generatedTokens <+: serving.seq.generatedTokens ∧
            (seq.state = .finished →
              seq.generatedTokens = serving.seq.generatedTokens ∧
                seq.finishReason = serving.seq.finishReason ∧
                (s.history.updates.filter fun update ↦ update.client = seq.client).flatMap
                  Update.tokens = task.history.updates.flatMap Update.tokens) := by
  intro s hreach req hreq seq hseq hclient
  have hbooks := books_reachable hreach
  have htraces := (following_reachable hreach).traces hseq
  obtain ⟨hadmitted, hagrees⟩ := htraces.agrees hbooks.nodup hreq hclient
  constructor
  · intro room hroom
    obtain ⟨task, htask, hreturned⟩ :=
      Naive.exists_returned scheduler.model hadmitted.admissible hroom
    exact ⟨task, htask, hreturned,
      (Naive.roomy_reachable hadmitted.admissible hroom htask).delivered⟩
  · intro room task htask hreturned hdelivered
    obtain ⟨serving, hended, hbegins, hfinish⟩ := hagrees _ _
      (Naive.outcome_of_returned hadmitted.admissible htask hdelivered hreturned)
    refine ⟨serving, hended, hbegins, fun hfinished ↦ ?_⟩
    obtain ⟨hsame, haccount⟩ := hfinish hfinished
    have hheld : s.Held seq := by
      rcases hseq with hcandidate | hheld
      · have hnot := (slots_reachable hreach).candidate_notDone seq hcandidate
        rw [Sequence.isDone, hfinished] at hnot
        cases hnot
      · exact hheld
    refine ⟨?_, ?_, ?_⟩
    · rw [hsame]
      rfl
    · rw [hsame]
      rfl
    · calc (s.history.updates.filter fun update ↦ update.client = seq.client).flatMap Update.tokens
          = seq.takenTokens := (hbooks.account hheld).taken
        _ = serving.seq.takenTokens := by
            rw [hsame]
            rfl
        _ = task.history.updates.flatMap Update.tokens := haccount.taken.symm

/-- The second request is served to its end, always in company: first of the one that leaves, then of
the one that joins. -/
def tinyJoined : State ℚ :=
  (Transition.run (step tinyGpt2Scheduler) Anything (List.replicate 35 (.sched [])) tinyReused).getD
    tinyReused

theorem batch_membership_independent_tinyJoined :
    Reaches tinyGpt2Scheduler Anything tinyReused tinyJoined ∧
      tinyReused.running.map Sequence.client = [1, 2] ∧
      tinyJoined.running.map Sequence.client = [2] ∧
      tinyJoined.history.resolved.map Resolved.client = [0, 1] ∧
      tinyJoined.metrics.sharedDecodeSteps = 4 ∧
      ∃ req ∈ tinyJoined.history.accepted, ∃ seq,
        Resolved.sequence seq ∈ tinyJoined.history.resolved ∧ seq.client = 1 ∧
        seq.generatedTokens = [0, 1, 0, 1] ∧
        ∃ task serving,
          Naive.Reaches tinyGpt2Scheduler.model req Naive.Undisturbed (Naive.init 5) task ∧
          task.history.ended = some serving ∧
          seq.generatedTokens = serving.seq.generatedTokens := by
  have hshared : Reaches tinyGpt2Scheduler Anything tinyReused tinyJoined :=
    Transition.reaches_getD_run (by decide +kernel) tinyReused
  refine ⟨hshared, by decide +kernel, by decide +kernel, by decide +kernel, by decide +kernel, ?_⟩
  have haccepted : (tinyJoined.history.accepted[1]?).map
      (fun req ↦ (req.client, req.maxNewTokens)) = some (1, 4) := by decide +kernel
  have hresolved : (tinyJoined.history.resolved[1]?).map (fun
      | .request _ => (0, .failed, [])
      | .sequence seq => (seq.client, seq.state, seq.generatedTokens)) =
      some (1, .finished, [0, 1, 0, 1]) := by decide +kernel
  obtain ⟨req, hreq, hpair⟩ := Option.map_eq_some_iff.mp haccepted
  obtain ⟨hreqClient, hmaxNew⟩ := Prod.mk.inj hpair
  obtain ⟨entry, hentry, htriple⟩ := Option.map_eq_some_iff.mp hresolved
  cases entry with
  | request _ => cases htriple
  | sequence seq =>
      obtain ⟨hclient, hrest⟩ := Prod.mk.inj htriple
      obtain ⟨hfinished, hgenerated⟩ := Prod.mk.inj hrest
      have hdropped := List.mem_of_getElem? hentry
      obtain ⟨hexists, hagrees⟩ := batch_membership_independent tinyGpt2Scheduler 2 8 1 1 1 4
        (fun _ ↦ 5) tinyJoined (reaches_tinyReused.trans hshared) req (List.mem_of_getElem? hreq) seq
        (Or.inr (Or.inr hdropped)) (hclient.trans hreqClient.symm)
      obtain ⟨task, htask, hreturned, hdelivered⟩ := hexists 5 (by rw [hmaxNew]; decide)
      obtain ⟨serving, hended, -, hsame⟩ := hagrees 5 task htask hreturned hdelivered
      exact ⟨req, List.mem_of_getElem? hreq, seq, hdropped, hclient, hgenerated, task, serving, htask,
        hended, (hsame hfinished).1⟩

end Scheduler

end HotBatch
