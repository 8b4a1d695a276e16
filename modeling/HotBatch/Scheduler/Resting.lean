import HotBatch.Scheduler.Stopping
import HotBatch.Scheduler.Wakeups

/-!
# The scheduler at rest

Without submissions and without a shutdown the scheduler comes to rest from wherever it stands: the
iteration it is in ends, and from the head of the loop on the load is worked off. It rests only where
it waits, and then it has nothing left: whoever pushed a request has notified it, and it looks
into the queue after every notification.
-/

namespace HotBatch

namespace Scheduler

variable {α : Type} [Kernels α] {scheduler : Scheduler α} {s s' : State α}

/-! ## Idle with empty hands -/

def Pc.Idle : Pc α → Prop
  | idleCheck | parked => True
  | _ => False

/-- The scheduler becomes idle only when it has seen that nothing is running. -/
theorem idle_of_schedStep {late : List ClientId} (hstep : SchedStep scheduler late s s')
    (hidle' : s'.pc.Idle) : s'.running = [] ∨ s.pc.Idle ∧ s'.running = s.running := by
  cases hstep with
  | park hpc _ =>
      rw [hpc]
      exact Or.inr ⟨trivial, rfl⟩
  | wake hpc _ =>
      rw [hpc]
      exact Or.inr ⟨trivial, rfl⟩
  | @endLoop site _ _ | @responseDone site _ _ _ _ | @closed site _ _ _
  | @stillOpen site _ _ _ => cases site <;> exact hidle'.elim
  | tryPop _ _ =>
      unfold tryPop at hidle'
      split at hidle' <;> exact hidle'.elim
  | admitRequest _ =>
      unfold admitRequest at hidle'
      split at hidle'
      · exact hidle'.elim
      · split at hidle' <;> exact hidle'.elim
  | prefill _ =>
      unfold prefill at hidle'
      split at hidle' <;> exact hidle'.elim
  | @evict index _ =>
      cases hseq : s.running[index]? with
      | none =>
          left
          rw [evictAt_end hseq] at hidle' ⊢
          change s.reapDoneSequences.running = []
          by_cases hempty : s.reapDoneSequences.running.isEmpty = true
          · exact List.isEmpty_iff.mp hempty
          · rw [if_neg hempty] at hidle'
            exact hidle'.elim
      | some seq =>
          unfold evictAt at hidle'
          rw [hseq] at hidle'
          exact hidle'.elim
  | forward _ =>
      unfold forward at hidle'
      split at hidle' <;> exact hidle'.elim
  | failBatch _ =>
      unfold failBatchAt at hidle'
      split at hidle' <;> exact hidle'.elim
  | sampleToken _ =>
      unfold sampleToken at hidle'
      split at hidle'
      · exact hidle'.elim
      · split at hidle'
        · exact hidle'.elim
        · split at hidle'
          · exact hidle'.elim
          · dsimp only at hidle'
            split at hidle' <;> exact hidle'.elim
  | sendItems _ =>
      unfold sendItems at hidle'
      split at hidle' <;> exact hidle'.elim
  | @answerQueued drained _ => cases drained <;> exact hidle'.elim
  | answerRunning _ =>
      unfold answerRunning at hidle'
      split at hidle' <;> exact hidle'.elim
  | _ => exact hidle'.elim

/-- An idle scheduler has nothing in `running`; one that waits has nothing in the queue either, or it
is about to be woken. -/
structure Awake (s : State α) : Prop where
  running : s.pc.Idle → s.running = []
  queue : s.pc = .parked →
    s.queue.requests = [] ∨ s.permit = true ∨ s.pendingNotifies ≠ 0

theorem awake_step {action : Action α} (hawake : Awake s)
    (hstep : step scheduler action s = some s') : Awake s' := by
  cases step_cases hstep with
  | sched hsched =>
      refine ⟨fun hidle' ↦ ?_, fun hparked ↦ Or.inl (queue_eq_nil_of_parked hsched hparked)⟩
      rcases idle_of_schedStep hsched hidle' with hnil | ⟨hidle, heq⟩
      · exact hnil
      · rw [heq]
        exact hawake.running hidle
  | schedShutdown _ _ => exact ⟨fun hidle ↦ hidle.elim, fun hpc ↦ nomatch hpc⟩
  | refuse _ _ =>
      refine ⟨hawake.running, fun hparked ↦ (hawake.queue hparked).imp_left fun hempty ↦ ?_⟩
      change s.queue.requests.filter _ = []
      rw [hempty]
      rfl
  | accept _ _ _ => exact ⟨hawake.running, fun _ ↦ Or.inr (Or.inr (Nat.succ_ne_zero _))⟩
  | notify _ => exact ⟨hawake.running, fun _ ↦ Or.inr (Or.inl rfl)⟩
  | client _ | shutdown => exact ⟨hawake.running, hawake.queue⟩

theorem awake_reachable {kvCache : SlabKvCache (KvTensor α)} {maxDepth : ℕ}
    {capacity : ClientId → ℕ} {allowed : State α → Action α → Prop}
    (hreach : Reaches scheduler allowed (init kvCache maxDepth capacity) s) : Awake s := by
  refine hreach.invariant (fun _ _ _ _ hawake _ hnext ↦ awake_step hawake hnext) ?_
  exact ⟨fun _ ↦ rfl, fun _ ↦ Or.inl rfl⟩

variable {maxSeqs maxSeqLen numLayers nHeads headDim maxDepth : ℕ} {capacity : ClientId → ℕ}

/-- **A scheduler that rests has nothing left.** -/
theorem parked_of_rest
    (hreach : Reachable scheduler maxSeqs maxSeqLen numLayers nHeads headDim maxDepth capacity s)
    (hshutdown : s.shutdown = false) (hpending : s.pendingNotifies = 0)
    (hstuck : next scheduler [] s = none) :
    s.pc = .parked ∧ s.queue.requests = [] ∧ s.running = [] := by
  have hopen := (staysOpen_reachable hreach hshutdown).1
  have hawake := awake_reachable hreach
  have hwaits : s.pc = .parked ∧ s.permit = false := by
    unfold next at hstuck
    split at hstuck
    case h_2 => split at hstuck <;> cases hstuck
    case h_9 hpc =>
        refine ⟨hpc, ?_⟩
        cases hpermit : s.permit with
        | false => rfl
        | true =>
            rw [hpermit] at hstuck
            cases hstuck
    case h_17 hpc =>
        have hplaced := placed_reachable hreach
        rw [hpc] at hplaced
        exact absurd (hopen.symm.trans hplaced.1.1) Bool.false_ne_true
    case h_18 hpc => exact absurd hpc (never_panicked hreach)
    all_goals cases hstuck
  obtain ⟨hparked, hpermit⟩ := hwaits
  refine ⟨hparked, ?_, hawake.running (by rw [hparked]; trivial)⟩
  rcases hawake.queue hparked with hempty | hwoken | hnotified
  · exact hempty
  · exact absurd (hpermit.symm.trans hwoken) Bool.false_ne_true
  · exact absurd hpending hnotified

/-! ## The way to rest -/

/-- The connections alone take steps. -/
def Connected (_ : State α) : Action α → Prop
  | .client _ _ => True
  | .sched _ | .schedShutdown | .submit _ _ | .notify | .shutdown => False

/-- The connections leave everything to the scheduler. -/
theorem connected_reaches (hrun : Reaches scheduler Connected s s') :
    s'.pc = s.pc ∧ s'.shutdown = s.shutdown ∧ s'.stopRank = s.stopRank := by
  induction hrun with
  | refl => exact ⟨rfl, rfl, rfl⟩
  | step _ hconnected hnext ih =>
      obtain ⟨hpc, hshutdown, hrank⟩ := ih
      cases step_cases hnext with
      | client _ => exact ⟨hpc, hshutdown, (stopRank_congr rfl rfl rfl rfl rfl).trans hrank⟩
      | sched _ | schedShutdown _ _ | refuse _ _ | accept _ _ _ | notify _ | shutdown =>
          exact hconnected.elim

/-- **From anywhere the scheduler comes to rest**, whatever the connections do meanwhile. -/
theorem rests (hrunning : 1 ≤ scheduler.config.maxRunningSeqs) (hcache : 1 ≤ maxSeqs)
    (hreach : Reachable scheduler maxSeqs maxSeqLen numLayers nHeads headDim maxDepth capacity s)
    (hshutdown : s.shutdown = false) {states : ℕ → State α} (hstart : states 0 = s)
    (hsteps : ∀ i, ∃ mid late, Reaches scheduler Connected (states i) mid ∧
      next scheduler late mid = some (states (i + 1))) : False := by
  have hkept : ∀ i,
      Reachable scheduler maxSeqs maxSeqLen numLayers nHeads headDim maxDepth capacity (states i) ∧
        (states i).shutdown = false := by
    intro i
    induction i with
    | zero => exact hstart ▸ ⟨hreach, hshutdown⟩
    | succ i ih =>
        obtain ⟨mid, late, hrun, hnext⟩ := hsteps i
        have hreachMid := ih.1.trans (hrun.mono fun _ _ _ ↦ (trivial : Anything _ _))
        have hstep : step scheduler (.sched late) mid = some (states (i + 1)) := hnext
        exact ⟨hreachMid.step trivial hstep,
          (shutdown_next hnext).trans ((connected_reaches hrun).2.1.trans ih.2)⟩
  by_cases hhead : ∃ i, (states i).pc = .loopHead
  · obtain ⟨i, hpc⟩ := hhead
    obtain ⟨later, hlater⟩ : ∃ later : ℕ → State α, ∀ j, later j = states (i + j) :=
      ⟨_, fun _ ↦ rfl⟩
    refine not_forever hrunning hcache (hkept i).1 (draining_loopHead scheduler hpc (hkept i).2)
      (hlater 0) fun j ↦ ?_
    obtain ⟨mid, late, hrun, hnext⟩ := hsteps (i + j)
    rw [hlater, hlater]
    refine ⟨mid, late, hrun.mono ?_, hnext⟩
    intro before action hconnected
    cases action with
    | client _ _ => trivial
    | sched _ | schedShutdown | submit _ _ | notify | shutdown => exact hconnected.elim
  · push Not at hhead
    -- Without a head of the loop the iteration would have no end.
    refine not_strictAnti_of_wellFoundedLT (fun i ↦ (states i).stopRank)
      (strictAnti_nat_of_succ_lt fun i ↦ ?_)
    obtain ⟨mid, late, hrun, hnext⟩ := hsteps i
    obtain ⟨hpc, -, hrank⟩ := connected_reaches hrun
    have hreachMid := (hkept i).1.trans (hrun.mono fun _ _ _ ↦ (trivial : Anything _ _))
    rw [← hrank]
    refine stopRank_next (fun hmid ↦ absurd (hpc.symm.trans hmid) (hhead i))
      (slots_reachable hreachMid) (placed_reachable hreachMid) (following_reachable hreachMid) hnext

end Scheduler

end HotBatch
