import HotBatch.Scheduler.FullAnswers

/-!
# Stopping the scheduler

Once the server is shut down, the scheduler ends the iteration it is in, closes the queue, answers
whoever is still waiting and returns. The rank of `Draining` carries it through the iteration; the
stages after it only go down. Submissions may still come in before the queue is closed, so nothing
is said here about runs in which they do.
-/

namespace HotBatch

namespace Scheduler

variable {α : Type} {s s' : State α}

/-! ## The rank of a shutdown -/

/-- The stages of a shutdown, counted down. -/
def Pc.stage : Pc α → ℕ
  | returned | panicked => 0
  | answerRunning => 1
  | answerQueued _ => 2
  | closeQueue => 3
  | loopHead | idleCheck | parked => 4
  | _ => 5

/-- The steps within a stage: the requests to be answered, or the wakeups to be consumed. -/
def State.waits (s : State α) : ℕ :=
  match s.pc with
  | .answerRunning => s.running.length
  | .answerQueued drained => drained.length
  | .idleCheck => 2 * s.wakeups + 1
  | .loopHead | .parked => 2 * s.wakeups
  | _ => 0

def State.stopRank (s : State α) : ℕ ×ₗ ℕ ×ₗ (ℕ ×ₗ ℕ ×ₗ ℕ ×ₗ ℕ ×ₗ ℕ) :=
  toLex (s.pc.stage, toLex (s.waits, s.rank))

theorem stopRank_lt_of_stage (hstage : s'.pc.stage < s.pc.stage) : s'.stopRank < s.stopRank :=
  Prod.Lex.toLex_lt_toLex.mpr (Or.inl hstage)

theorem stopRank_lt_of_waits (hstage : s'.pc.stage ≤ s.pc.stage) (hwaits : s'.waits < s.waits) :
    s'.stopRank < s.stopRank :=
  Prod.Lex.toLex_lt_toLex'.mpr ⟨hstage, fun _ ↦ Prod.Lex.toLex_lt_toLex.mpr (Or.inl hwaits)⟩

theorem stage_le (pc : Pc α) : pc.stage ≤ 5 := by
  unfold Pc.stage
  split <;> decide

/-- In the middle of an iteration only the rank counts. -/
theorem waits_eq_zero (hstage : s.pc.stage = 5) : s.waits = 0 := by
  unfold State.waits
  split
  case h_6 => rfl
  all_goals
    rename_i hpc
    rw [hpc] at hstage
    cases hstage

theorem stopRank_lt_of_rank (hstage : s.pc.stage = 5) (hrank : s'.rank < s.rank) :
    s'.stopRank < s.stopRank := by
  rcases (hstage ▸ stage_le s'.pc).lt_or_eq with hlt | heq
  · exact stopRank_lt_of_stage hlt
  · refine Prod.Lex.toLex_lt_toLex'.mpr ⟨heq.le, fun _ ↦ Prod.Lex.toLex_lt_toLex'.mpr ⟨?_, ?_⟩⟩
    · rw [waits_eq_zero (heq.trans hstage), waits_eq_zero hstage]
    · exact fun _ ↦ hrank

/-- What the connections do is no setback. -/
theorem stopRank_congr (hpc : s'.pc = s.pc) (hrunning : s'.running = s.running)
    (hqueue : s'.queue = s.queue) (hpermit : s'.permit = s.permit)
    (hpending : s'.pendingNotifies = s.pendingNotifies) : s'.stopRank = s.stopRank := by
  unfold State.stopRank State.waits State.rank State.potential State.wakeups
  rw [hpc, hrunning, hqueue, hpermit, hpending]

/-! ## The way out -/

theorem stopRank_closeQueue (hpc : s.pc = .closeQueue) : (closeQueue s).stopRank < s.stopRank := by
  apply stopRank_lt_of_stage
  rw [hpc]
  exact (by decide : 2 < 3)

theorem stopRank_answerQueued {drained : List (GenerationRequest α)}
    (hpc : s.pc = .answerQueued drained) : (answerQueued drained s).stopRank < s.stopRank := by
  have hwaits : s.waits = drained.length := by unfold State.waits; rw [hpc]
  cases drained with
  | nil =>
      apply stopRank_lt_of_stage
      rw [hpc]
      exact (by decide : 1 < 2)
  | cons req rest =>
      apply stopRank_lt_of_waits
      · rw [hpc]
        exact Nat.le_refl 2
      · rw [hwaits]
        exact Nat.lt_succ_self rest.length

theorem stopRank_answerRunning (hpc : s.pc = .answerRunning) :
    (answerRunning s).stopRank < s.stopRank := by
  have hwaits : s.waits = s.running.length := by unfold State.waits; rw [hpc]
  unfold answerRunning
  split
  · apply stopRank_lt_of_stage
    rw [hpc]
    exact (by decide : 0 < 1)
  · rename_i seq rest hrunning
    apply stopRank_lt_of_waits
    · rw [hpc]
      exact Nat.le_refl 1
    · rw [hwaits, hrunning]
      exact Nat.lt_succ_self rest.length

/-- The scheduler looks into the queue; whatever it finds, it has made a step. -/
theorem stopRank_idleCheck {pc : Pc α} (hpc : s.pc = .idleCheck) (hto : pc = .parked ∨ pc = .loopHead) :
    (s.goto pc).stopRank < s.stopRank := by
  have hwaits : s.waits = 2 * s.wakeups + 1 := by unfold State.waits; rw [hpc]
  apply stopRank_lt_of_waits
  · rw [hpc]
    rcases hto with rfl | rfl <;> exact Nat.le_refl 4
  · rw [hwaits]
    rcases hto with rfl | rfl <;> exact Nat.lt_succ_self _

theorem stopRank_wake (hpc : s.pc = .parked) (hpermit : s.permit = true) :
    ({ s with permit := false, pc := .idleCheck } : State α).stopRank < s.stopRank := by
  have hwaits : s.waits = 2 * s.wakeups := by unfold State.waits; rw [hpc]
  apply stopRank_lt_of_waits
  · rw [hpc]
    exact Nat.le_refl 4
  · rw [hwaits, State.wakeups, hpermit]
    change 2 * (2 * s.pendingNotifies + 0) + 1 < 2 * (2 * s.pendingNotifies + 1)
    omega

variable [Kernels α] {scheduler : Scheduler α} {origin : SlabKvCache (KvTensor α)} {maxSeqLen : ℕ}

/-- **Every step of the scheduler lowers its rank**, except for the one that begins a new iteration:
there is none after a shutdown. -/
theorem stopRank_next {late : List ClientId} (hstops : s.pc = .loopHead → s.shutdown = true)
    (hslots : Slots scheduler origin s.pc s.running s.kvCache)
    (hplaced : Placed s.pc s.running s.queue) (hfollowing : Following scheduler maxSeqLen s)
    (hnext : next scheduler late s = some s') : s'.stopRank < s.stopRank := by
  by_cases hhead : s.pc = .loopHead
  · unfold next at hnext
    rw [hhead, hstops hhead] at hnext
    obtain rfl := Option.some.inj hnext
    apply stopRank_lt_of_stage
    rw [hhead]
    exact (by decide : 3 < 4)
  have hstep := schedStep_of_next hnext
  by_cases hmiddle : s.pc.stage = 5
  · have hworking : s.pc.Working := by
      cases hpc : s.pc with
      | idleCheck | closeQueue | answerQueued _ | answerRunning | returned | panicked =>
          rw [hpc] at hmiddle
          cases hmiddle
      | _ => trivial
    rcases rank_schedStep hworking hslots hplaced hfollowing hstep with hrank | ⟨-, hclose⟩
    · exact stopRank_lt_of_rank hmiddle hrank
    · apply stopRank_lt_of_stage
      rw [hmiddle, hclose]
      exact (by decide : 3 < 5)
  · cases hstep with
    | stop hpc _ | enter hpc => exact absurd hpc hhead
    | park hpc _ => exact stopRank_idleCheck hpc (Or.inl rfl)
    | resume hpc => exact stopRank_idleCheck hpc (Or.inr rfl)
    | wake hpc hpermit => exact stopRank_wake hpc hpermit
    | closeQueue hpc => exact stopRank_closeQueue hpc
    | answerQueued hpc => exact stopRank_answerQueued hpc
    | answerRunning hpc => exact stopRank_answerRunning hpc
    | endLoop hpc _ | responseDone hpc _ _ | responseWanted hpc _ _ | closed hpc _ | stillOpen hpc _
    | full hpc | tryPop hpc _ | admitRequest hpc | prefill hpc | evict hpc | forward hpc
    | failBatch hpc | sampleToken hpc | sendItems hpc =>
        rw [hpc] at hmiddle
        exact absurd rfl hmiddle

omit [Kernels α] in
theorem stopRank_nextShutdown (hnext : nextShutdown s = some s') : s'.stopRank < s.stopRank := by
  unfold nextShutdown at hnext
  split at hnext
  · rename_i hpc
    split at hnext
    · obtain rfl := Option.some.inj hnext
      apply stopRank_lt_of_stage
      rw [hpc]
      exact (by decide : 3 < 4)
    · cases hnext
  · rename_i hpc
    split at hnext
    · obtain rfl := Option.some.inj hnext
      apply stopRank_lt_of_stage
      rw [hpc]
      exact (by decide : 3 < 4)
    · cases hnext
  · cases hnext

/-- **Nothing holds the scheduler up.** After a shutdown it takes no step only if it has returned. -/
theorem returned_of_stuck (hshutdown : s.shutdown = true) (hpanicked : s.pc ≠ .panicked)
    (hstuck : next scheduler [] s = none) (hstuckShutdown : nextShutdown s = none) :
    s.pc = .returned := by
  unfold next at hstuck
  split at hstuck
  case h_2 => split at hstuck <;> cases hstuck
  case h_9 hpc =>
      unfold nextShutdown at hstuckShutdown
      rw [hpc, hshutdown] at hstuckShutdown
      cases hstuckShutdown
  case h_17 hpc => exact hpc
  case h_18 hpc => exact absurd hpc hpanicked
  all_goals cases hstuck

/-! ## What the submitters see -/

/-- The scheduler neither refuses requests nor takes part in the wakeups that are on their way. -/
theorem submitters_schedStep {late : List ClientId} (hstep : SchedStep scheduler late s s') :
    s'.history.refused = s.history.refused ∧ s'.pendingNotifies = s.pendingNotifies := by
  cases hstep with
  | @endLoop site _ _ | @responseDone site _ _ _ _ | @closed site _ _ _ | @stillOpen site _ _ _ =>
      cases site <;> exact ⟨rfl, rfl⟩
  | tryPop _ _ =>
      unfold tryPop
      split <;> exact ⟨rfl, rfl⟩
  | admitRequest _ =>
      unfold admitRequest
      split
      · exact ⟨rfl, rfl⟩
      · split <;> exact ⟨rfl, rfl⟩
  | prefill _ =>
      unfold prefill
      split <;> exact ⟨rfl, rfl⟩
  | evict _ =>
      unfold evictAt
      split
      · exact ⟨rfl, rfl⟩
      · dsimp only
        split <;> exact ⟨rfl, rfl⟩
  | forward _ =>
      unfold forward
      split <;> exact ⟨rfl, rfl⟩
  | failBatch _ =>
      unfold failBatchAt
      split <;> exact ⟨rfl, rfl⟩
  | sampleToken _ =>
      unfold sampleToken
      split
      · exact ⟨rfl, rfl⟩
      · split
        · exact ⟨rfl, rfl⟩
        · split
          · exact ⟨rfl, rfl⟩
          · dsimp only
            split <;> exact ⟨rfl, rfl⟩
  | sendItems _ =>
      unfold sendItems
      split <;> exact ⟨rfl, rfl⟩
  | answerQueued _ =>
      unfold answerQueued
      split <;> exact ⟨rfl, rfl⟩
  | answerRunning _ =>
      unfold answerRunning
      split <;> exact ⟨rfl, rfl⟩
  | _ => exact ⟨rfl, rfl⟩

/-- What a submitter may rely on later when it has seen it once. -/
structure Lasts (s s' : State α) : Prop where
  maxDepth_eq : s'.queue.maxDepth = s.queue.maxDepth
  closed : s.queue.closed = true → s'.queue.closed = true
  shutdown : s.shutdown = true → s'.shutdown = true
  accepted : s.history.accepted ⊆ s'.history.accepted
  returned : s.pc = .returned → s'.pc = .returned

omit [Kernels α] in
theorem Lasts.refl (s : State α) : Lasts s s := ⟨rfl, id, id, List.Subset.refl _, id⟩

omit [Kernels α] in
theorem Lasts.trans {mid : State α} (hfirst : Lasts s mid) (hsecond : Lasts mid s') : Lasts s s' where
  maxDepth_eq := hsecond.maxDepth_eq.trans hfirst.maxDepth_eq
  closed hclosed := hsecond.closed (hfirst.closed hclosed)
  shutdown hshutdown := hsecond.shutdown (hfirst.shutdown hshutdown)
  accepted := List.Subset.trans hfirst.accepted hsecond.accepted
  returned hreturned := hsecond.returned (hfirst.returned hreturned)

theorem lasts_step {action : Action α} (hstep : step scheduler action s = some s') : Lasts s s' := by
  have haccepted := accepted_subset_of_step hstep
  cases step_cases hstep with
  | @sched late _ hsched =>
      have hshutdown : s.shutdown = true → s'.shutdown = true := fun hset ↦
        (shutdown_next hstep).trans hset
      have hreturned : s.pc = .returned → s'.pc = .returned := by
        intro hpc
        change next scheduler late s = some s' at hstep
        unfold next at hstep
        rw [hpc] at hstep
        cases hstep
      rcases frame_schedStep hsched with hframe | ⟨-, rfl⟩ | ⟨-, rfl⟩
      · refine ⟨?_, ?_, hshutdown, haccepted, hreturned⟩ <;> rw [hframe.queue_eq]
        exact id
      · refine ⟨?_, ?_, hshutdown, haccepted, hreturned⟩
        all_goals
          unfold tryPop
          rcases s.queue.tryPop_cases (s.isOpen late) with ⟨hpop, -⟩ | ⟨req, rest, hpop, -⟩
          all_goals
            rw [hpop]
        · rfl
        · rfl
        · exact id
        · exact id
      · exact ⟨rfl, fun _ ↦ rfl, hshutdown, haccepted, hreturned⟩
  | schedShutdown hpc _ =>
      refine ⟨rfl, id, id, haccepted, fun hreturned ↦ ?_⟩
      rcases hpc with hpc | hpc <;> exact absurd (hpc.symm.trans hreturned) nofun
  | refuse _ _ | accept _ _ _ | notify _ | client _ => exact ⟨rfl, id, id, haccepted, id⟩
  | shutdown => exact ⟨rfl, id, fun _ ↦ rfl, haccepted, id⟩

end Scheduler

end HotBatch
