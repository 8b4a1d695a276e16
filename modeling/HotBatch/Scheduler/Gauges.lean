import HotBatch.Scheduler.Slots

/-!
# Counters and gauges

The metrics are written at scattered places of the loop, and a scrape may come between any two steps.
`Metered` says how the counters bound each other, and `Pc.Gauges` how far the gauge of running sequences
is from the length of `running` at each place.
-/

namespace HotBatch

namespace Scheduler

variable {α : Type}

/-! ## Passes -/

/-- Number of rows that the deliveries of the pass under way have got through. -/
def Site.handled : Site α → ℕ
  | delivering index _ => index
  | removing _ | popped _ | allocated _ | prefilled _ => 0

def Pc.handled : Pc α → ℕ
  | checkDone site | checkClosed site _ => site.handled
  | sampleToken index _ => index
  | sendItems index _ _ => index + 1
  | _ => 0

/-- How the counters bound each other: a pass samples at most one token for each row, a pass of several
rows is shared, and no pass has more rows than the configuration allows. -/
structure Metered (scheduler : Scheduler α) (s : State α) : Prop where
  tokens_eq : s.metrics.tokensGenerated = s.history.updates.length
  shared_le : s.metrics.sharedDecodeSteps ≤ s.metrics.schedulerSteps
  tokens_le : s.metrics.tokensGenerated + s.metrics.sharedDecodeSteps ≤
    s.metrics.schedulerSteps + s.metrics.sharedDecodeSteps * scheduler.config.maxRunningSeqs +
      s.pc.handled
  rows_le : s.pc.handled ≤ s.running.length
  batch_le : s.metrics.batchSize ≤ scheduler.config.maxRunningSeqs

/-- The counters stand still. -/
structure SameCounters (s s' : State α) : Prop where
  tokens_eq : s'.metrics.tokensGenerated = s.metrics.tokensGenerated
  steps_eq : s'.metrics.schedulerSteps = s.metrics.schedulerSteps
  shared_eq : s'.metrics.sharedDecodeSteps = s.metrics.sharedDecodeSteps
  batch_eq : s'.metrics.batchSize = s.metrics.batchSize
  updates_eq : s'.history.updates = s.history.updates

section Counters

variable {scheduler : Scheduler α} {s s' : State α}

theorem Metered.init (kvCache : SlabKvCache (KvTensor α)) (maxDepth : ℕ) (capacity : ClientId → ℕ) :
    Metered scheduler (Scheduler.init kvCache maxDepth capacity) where
  tokens_eq := rfl
  shared_le := Nat.le_refl 0
  tokens_le := Nat.zero_le _
  rows_le := Nat.le_refl 0
  batch_le := Nat.zero_le _

theorem Metered.idle (hmetered : Metered scheduler s) (hsame : SameCounters s s')
    (hrows : s.pc.handled ≤ s'.pc.handled) (hlength : s'.pc.handled ≤ s'.running.length) :
    Metered scheduler s' where
  tokens_eq := by rw [hsame.tokens_eq, hsame.updates_eq, hmetered.tokens_eq]
  shared_le := by
    rw [hsame.shared_eq, hsame.steps_eq]
    exact hmetered.shared_le
  tokens_le := by
    rw [hsame.tokens_eq, hsame.shared_eq, hsame.steps_eq]
    exact hmetered.tokens_le.trans (Nat.add_le_add_left hrows _)
  rows_le := hlength
  batch_le := by
    rw [hsame.batch_eq]
    exact hmetered.batch_le

/-- A step that is no part of a pass. -/
theorem Metered.outside (hmetered : Metered scheduler s) (hsame : SameCounters s s')
    (hrows : s.pc.handled = 0) (hrows' : s'.pc.handled = 0) : Metered scheduler s' :=
  hmetered.idle hsame (hrows ▸ Nat.zero_le _) (hrows' ▸ Nat.zero_le _)

/-- The end of a pass. -/
theorem Metered.endStep (hmetered : Metered scheduler s)
    (hlength : s.running.length ≤ scheduler.config.maxRunningSeqs) :
    Metered scheduler (endStep s) := by
  have htokens := hmetered.tokens_le
  have hrows := hmetered.rows_le
  have hshared := hmetered.shared_le
  refine ⟨hmetered.tokens_eq, ?_, ?_, Nat.zero_le _, hlength⟩
  · change s.metrics.sharedDecodeSteps + (if 1 < s.running.length then 1 else 0) ≤
      s.metrics.schedulerSteps + 1
    split <;> omega
  · change s.metrics.tokensGenerated +
        (s.metrics.sharedDecodeSteps + if 1 < s.running.length then 1 else 0) ≤
      s.metrics.schedulerSteps + 1 +
        (s.metrics.sharedDecodeSteps + if 1 < s.running.length then 1 else 0) *
          scheduler.config.maxRunningSeqs + 0
    split
    · rw [Nat.succ_mul]
      omega
    · rw [Nat.add_zero]
      omega

theorem metered_abandon {site : Site α} (hmetered : Metered scheduler s)
    (hhandled : s.pc.handled = site.handled)
    (hclient : ∃ client, site.client s.running = some client) : Metered scheduler (abandon site s) := by
  obtain ⟨client, hclient⟩ := hclient
  have hwithin := hmetered.rows_le
  cases site with
  | removing index => exact hmetered.outside ⟨rfl, rfl, rfl, rfl, rfl⟩ hhandled rfl
  | popped req => exact hmetered.outside ⟨rfl, rfl, rfl, rfl, rfl⟩ hhandled rfl
  | allocated seq => exact hmetered.outside ⟨rfl, rfl, rfl, rfl, rfl⟩ hhandled rfl
  | prefilled seq => exact hmetered.outside ⟨rfl, rfl, rfl, rfl, rfl⟩ hhandled rfl
  | delivering index logits =>
      obtain ⟨seq, hseq, -⟩ := Option.map_eq_some_iff.mp hclient
      refine hmetered.idle ⟨rfl, rfl, rfl, rfl, rfl⟩ (hhandled ▸ Nat.le_succ index) ?_
      change index + 1 ≤ (s.running.modify index Sequence.cancel).length
      rw [List.length_modify]
      exact (List.getElem?_eq_some_iff.mp hseq).1

theorem metered_proceed {site : Site α} (hmetered : Metered scheduler s)
    (hhandled : s.pc.handled = site.handled) : Metered scheduler (proceed site s) := by
  cases site with
  | removing index => exact hmetered.outside ⟨rfl, rfl, rfl, rfl, rfl⟩ hhandled rfl
  | popped req => exact hmetered.outside ⟨rfl, rfl, rfl, rfl, rfl⟩ hhandled rfl
  | allocated seq => exact hmetered.outside ⟨rfl, rfl, rfl, rfl, rfl⟩ hhandled rfl
  | prefilled seq => exact hmetered.outside ⟨rfl, rfl, rfl, rfl, rfl⟩ hhandled rfl
  | delivering index logits =>
      have hwithin := hmetered.rows_le
      rw [hhandled] at hwithin
      exact hmetered.idle ⟨rfl, rfl, rfl, rfl, rfl⟩ (Nat.le_of_eq hhandled) hwithin

theorem metered_endLoop {site : Site α} (hmetered : Metered scheduler s)
    (hhandled : s.pc.handled = site.handled)
    (hlength : s.running.length ≤ scheduler.config.maxRunningSeqs) :
    Metered scheduler (endLoop site s) := by
  cases site with
  | delivering index logits => exact hmetered.endStep hlength
  | removing index => exact hmetered.outside ⟨rfl, rfl, rfl, rfl, rfl⟩ hhandled rfl
  | popped req => exact hmetered.outside ⟨rfl, rfl, rfl, rfl, rfl⟩ hhandled rfl
  | allocated seq => exact hmetered.outside ⟨rfl, rfl, rfl, rfl, rfl⟩ hhandled rfl
  | prefilled seq => exact hmetered.outside ⟨rfl, rfl, rfl, rfl, rfl⟩ hhandled rfl

/-- A row that is sampled counts one token. -/
theorem metered_sampleToken [Kernels α] {index : ℕ} {logits : List (LogitRow α)}
    (hmetered : Metered scheduler s) (hhandled : s.pc.handled = index)
    (hlength : s.running.length ≤ scheduler.config.maxRunningSeqs)
    (hsteps : (sampleToken index logits s).pc ≠ .panicked) :
    Metered scheduler (sampleToken index logits s) := by
  unfold sampleToken at hsteps ⊢
  cases hseq : s.running[index]? with
  | none => exact hmetered.endStep hlength
  | some seq =>
      have hindex : index < s.running.length := (List.getElem?_eq_some_iff.mp hseq).1
      rw [hseq] at hsteps
      dsimp only at hsteps ⊢
      cases hrow : logitRow logits index with
      | error err =>
          refine hmetered.idle ⟨rfl, rfl, rfl, rfl, rfl⟩ (hhandled ▸ Nat.le_succ index) ?_
          change index + 1 ≤ (s.running.modify index Sequence.fail).length
          rwa [List.length_modify]
      | ok row =>
          rw [hrow] at hsteps
          dsimp only at hsteps ⊢
          cases hadvance : seq.advance row with
          | none =>
              rw [hadvance] at hsteps
              exact absurd rfl hsteps
          | some result =>
              obtain ⟨tokens, stepped⟩ := result
              have htokens := hmetered.tokens_le
              rw [hhandled] at htokens
              dsimp only
              generalize (s.clients seq.client).tryReserveMany
                (updateItems tokens stepped.finishReason).length = delivered
              cases delivered <;>
                refine ⟨?_, hmetered.shared_le, ?_, ?_, hmetered.batch_le⟩
              · change s.metrics.tokensGenerated + 1 = (s.history.updates ++ [_]).length
                rw [List.length_append, hmetered.tokens_eq]
                rfl
              · change s.metrics.tokensGenerated + 1 + s.metrics.sharedDecodeSteps ≤
                  s.metrics.schedulerSteps +
                    s.metrics.sharedDecodeSteps * scheduler.config.maxRunningSeqs + (index + 1)
                omega
              · change index + 1 ≤ (s.running.set index _).length
                rwa [List.length_set]
              · change s.metrics.tokensGenerated + 1 = (s.history.updates ++ [_]).length
                rw [List.length_append, hmetered.tokens_eq]
                rfl
              · change s.metrics.tokensGenerated + 1 + s.metrics.sharedDecodeSteps ≤
                  s.metrics.schedulerSteps +
                    s.metrics.sharedDecodeSteps * scheduler.config.maxRunningSeqs + (index + 1)
                omega
              · change index + 1 ≤ (s.running.set index _).length
                rwa [List.length_set]

theorem metered_tryPop {late : List ClientId} (hmetered : Metered scheduler s)
    (hpc : s.pc = .admission) : Metered scheduler (tryPop late s) := by
  have hhandled : s.pc.handled = 0 := hpc ▸ rfl
  unfold tryPop
  split <;> exact hmetered.outside ⟨rfl, rfl, rfl, rfl, rfl⟩ hhandled rfl

theorem metered_admitRequest {req : GenerationRequest α} (hmetered : Metered scheduler s)
    (hpc : s.pc = .admitRequest req) : Metered scheduler (admitRequest scheduler req s) := by
  have hhandled : s.pc.handled = 0 := hpc ▸ rfl
  unfold admitRequest
  split
  · exact hmetered.outside ⟨rfl, rfl, rfl, rfl, rfl⟩ hhandled rfl
  · split <;> exact hmetered.outside ⟨rfl, rfl, rfl, rfl, rfl⟩ hhandled rfl

theorem metered_evictAt {index : ℕ} (hmetered : Metered scheduler s) (hpc : s.pc = .evict index) :
    Metered scheduler (evictAt scheduler index s) := by
  have hhandled : s.pc.handled = 0 := hpc ▸ rfl
  unfold evictAt
  split
  · refine hmetered.outside ⟨rfl, rfl, rfl, rfl, rfl⟩ hhandled ?_
    change Pc.handled (if _ then _ else _) = 0
    split <;> rfl
  · dsimp only
    split <;> exact hmetered.outside ⟨rfl, rfl, rfl, rfl, rfl⟩ hhandled rfl

variable [Kernels α]

/-- Every step of the scheduler keeps the counters in bounds. -/
theorem metered_schedStep {late : List ClientId} (hmetered : Metered scheduler s)
    (hplaced : Placed s.pc s.running s.queue)
    (hlength : s.running.length ≤ scheduler.config.maxRunningSeqs)
    (hsteps : s'.pc ≠ .panicked) (hstep : SchedStep scheduler late s s') :
    Metered scheduler s' := by
  cases hstep with
  | stop hpc _ | enter hpc | full hpc | park hpc _ | resume hpc | wake hpc _ | closeQueue hpc =>
      exact hmetered.outside ⟨rfl, rfl, rfl, rfl, rfl⟩ (hpc ▸ rfl) rfl
  | endLoop hpc _ => exact metered_endLoop hmetered (hpc ▸ rfl) hlength
  | responseDone hpc hclient _ => exact metered_abandon hmetered (hpc ▸ rfl) ⟨_, hclient⟩
  | @responseWanted site client hpc _ _ =>
      have hhandled : s.pc.handled = site.handled := hpc ▸ rfl
      have hwithin := hmetered.rows_le
      rw [hhandled] at hwithin
      exact hmetered.idle ⟨rfl, rfl, rfl, rfl, rfl⟩ (Nat.le_of_eq hhandled) hwithin
  | @closed site client hpc _ =>
      rw [hpc] at hplaced
      have hrecorded : Metered scheduler (s.recordCancelled [client]) :=
        hmetered.idle ⟨rfl, rfl, rfl, rfl, rfl⟩ (Nat.le_refl _) hmetered.rows_le
      exact metered_abandon hrecorded (hpc ▸ rfl) ⟨client, hplaced⟩
  | stillOpen hpc _ => exact metered_proceed hmetered (hpc ▸ rfl)
  | tryPop hpc _ => exact metered_tryPop hmetered hpc
  | admitRequest hpc => exact metered_admitRequest hmetered hpc
  | prefill hpc =>
      unfold prefill
      split <;> exact hmetered.outside ⟨rfl, rfl, rfl, rfl, rfl⟩ (hpc ▸ rfl) rfl
  | evict hpc => exact metered_evictAt hmetered hpc
  | forward hpc =>
      unfold forward
      split <;> exact hmetered.outside ⟨rfl, rfl, rfl, rfl, rfl⟩ (hpc ▸ rfl) rfl
  | failBatch hpc =>
      unfold failBatchAt
      split
      · exact hmetered.endStep hlength
      · exact hmetered.outside ⟨rfl, rfl, rfl, rfl, rfl⟩ (hpc ▸ rfl) rfl
  | sampleToken hpc => exact metered_sampleToken hmetered (hpc ▸ rfl) hlength hsteps
  | @sendItems index logits items hpc =>
      have hhandled : s.pc.handled = index + 1 := hpc ▸ rfl
      have hwithin := hmetered.rows_le
      rw [hhandled] at hwithin
      unfold sendItems
      split <;> exact hmetered.idle ⟨rfl, rfl, rfl, rfl, rfl⟩ (Nat.le_of_eq hhandled) hwithin
  | answerQueued hpc =>
      unfold answerQueued
      split <;> exact hmetered.outside ⟨rfl, rfl, rfl, rfl, rfl⟩ (hpc ▸ rfl) rfl
  | answerRunning hpc =>
      unfold answerRunning
      split <;> exact hmetered.outside ⟨rfl, rfl, rfl, rfl, rfl⟩ (hpc ▸ rfl) rfl

theorem metered_step {action : Action α} (hmetered : Metered scheduler s)
    (hplaced : Placed s.pc s.running s.queue)
    (hlength : s.running.length ≤ scheduler.config.maxRunningSeqs) (hsteps : s'.pc ≠ .panicked)
    (hstep : step scheduler action s = some s') : Metered scheduler s' := by
  cases step_cases hstep with
  | sched hsched => exact metered_schedStep hmetered hplaced hlength hsteps hsched
  | schedShutdown hpc _ =>
      refine hmetered.outside ⟨rfl, rfl, rfl, rfl, rfl⟩ ?_ rfl
      rcases hpc with hpc | hpc <;> exact hpc ▸ rfl
  | refuse _ _ | accept _ _ _ | notify _ | client _ | shutdown =>
      exact hmetered.idle ⟨rfl, rfl, rfl, rfl, rfl⟩ (Nat.le_refl _) hmetered.rows_le

end Counters

/-! ## The gauge of running sequences -/

def Site.Gauges (gauge running : ℕ) : Site α → Prop
  | removing _ | delivering _ _ => gauge = running
  | popped _ | allocated _ | prefilled _ => gauge ≤ running

/-- What the gauge tells of the number of running sequences: it is exact except while requests are being
admitted, when it is behind, and while the last sequences are being answered, when it is ahead. -/
def Pc.Gauges (gauge running : ℕ) : Pc α → Prop
  | checkDone site | checkClosed site _ => site.Gauges gauge running
  | admission | admitRequest _ | prefill _ => gauge ≤ running
  | answerRunning => running ≤ gauge
  | loopHead | evict _ | idleCheck | parked | forward | failBatch _ _ | sampleToken _ _
  | sendItems _ _ _ | closeQueue | answerQueued _ | returned | panicked => gauge = running

/-- The gauge tells so, and never more than the configuration allows. -/
structure Gauged (scheduler : Scheduler α) (s : State α) : Prop where
  gauges : s.pc.Gauges s.metrics.runningSequences s.running.length
  gauge_le : s.metrics.runningSequences ≤ scheduler.config.maxRunningSeqs

section Gauge

variable {scheduler : Scheduler α} {s s' : State α}

theorem Site.gauges_self (site : Site α) (running : ℕ) : site.Gauges running running := by
  cases site with
  | removing _ | delivering _ _ => rfl
  | popped _ | allocated _ | prefilled _ => exact Nat.le_refl running

/-- An exact gauge is right everywhere. -/
theorem Pc.gauges_self (pc : Pc α) (running : ℕ) : pc.Gauges running running := by
  cases pc with
  | checkDone site | checkClosed site _ => exact site.gauges_self running
  | admission | admitRequest _ | prefill _ | answerRunning => exact Nat.le_refl running
  | _ => rfl

/-- The gauge has just been set. -/
theorem Gauged.set (hset : s'.metrics.runningSequences = s'.running.length)
    (hlength : s'.running.length ≤ scheduler.config.maxRunningSeqs) : Gauged scheduler s' where
  gauges := by
    rw [hset]
    exact s'.pc.gauges_self _
  gauge_le := hset ▸ hlength

/-- The gauge stands still. -/
theorem Gauged.keep (hgauged : Gauged scheduler s)
    (hsame : s'.metrics.runningSequences = s.metrics.runningSequences)
    (hgauges : s'.pc.Gauges s.metrics.runningSequences s'.running.length) :
    Gauged scheduler s' where
  gauges := hsame ▸ hgauges
  gauge_le := hsame ▸ hgauged.gauge_le

theorem gauged_abandon {site : Site α} (hgauged : Gauged scheduler s)
    (hgauges : site.Gauges s.metrics.runningSequences s.running.length) :
    Gauged scheduler (abandon site s) := by
  cases site with
  | removing index =>
      refine hgauged.keep rfl ?_
      change _ = (s.running.modify index Sequence.cancel).length
      rwa [List.length_modify]
  | delivering index logits =>
      refine hgauged.keep rfl ?_
      change _ = (s.running.modify index Sequence.cancel).length
      rwa [List.length_modify]
  | popped _ | allocated _ | prefilled _ => exact hgauged.keep rfl hgauges

theorem gauged_proceed {site : Site α} (hgauged : Gauged scheduler s)
    (hgauges : site.Gauges s.metrics.runningSequences s.running.length) :
    Gauged scheduler (proceed site s) := by
  cases site with
  | prefilled seq =>
      refine hgauged.keep rfl ?_
      change _ ≤ (s.running ++ [seq]).length
      rw [List.length_append]
      exact hgauges.trans (Nat.le_add_right _ _)
  | removing _ | delivering _ _ | popped _ | allocated _ => exact hgauged.keep rfl hgauges

/-- Wherever the done sequences are reaped, the gauge is set. -/
theorem gauged_reap (hlength : s.running.length ≤ scheduler.config.maxRunningSeqs)
    (hset : s'.metrics.runningSequences = s'.running.length)
    (hrunning : s'.running = s.running.filter fun seq ↦ !seq.isDone) : Gauged scheduler s' := by
  apply Gauged.set hset
  rw [hrunning]
  exact (List.length_filter_le _ _).trans hlength

theorem gauged_endLoop (site : Site α) (hlength : s.running.length ≤ scheduler.config.maxRunningSeqs) :
    Gauged scheduler (endLoop site s) := by
  cases site <;> exact gauged_reap hlength rfl rfl

theorem gauged_tryPop {late : List ClientId} (hgauged : Gauged scheduler s) (hpc : s.pc = .admission)
    (hlength : s.running.length ≤ scheduler.config.maxRunningSeqs) :
    Gauged scheduler (tryPop late s) := by
  have hgauges := hgauged.gauges
  rw [hpc] at hgauges
  unfold tryPop
  split
  · exact Gauged.set rfl hlength
  · exact hgauged.keep rfl hgauges

theorem gauged_admitRequest {req : GenerationRequest α} (hgauged : Gauged scheduler s)
    (hpc : s.pc = .admitRequest req) : Gauged scheduler (admitRequest scheduler req s) := by
  have hgauges := hgauged.gauges
  rw [hpc] at hgauges
  unfold admitRequest
  split
  · exact hgauged.keep rfl hgauges
  · split <;> exact hgauged.keep rfl hgauges

theorem gauged_evictAt {index : ℕ} (hgauged : Gauged scheduler s) (hpc : s.pc = .evict index)
    (hlength : s.running.length ≤ scheduler.config.maxRunningSeqs) :
    Gauged scheduler (evictAt scheduler index s) := by
  have hgauges := hgauged.gauges
  rw [hpc] at hgauges
  unfold evictAt
  split
  · exact gauged_reap hlength rfl rfl
  · dsimp only
    split
    · refine hgauged.keep rfl ?_
      change _ = (s.running.modify index Sequence.fail).length
      rwa [List.length_modify]
    · exact hgauged.keep rfl hgauges

theorem gauged_failBatchAt {index : ℕ} {message : String} (hgauged : Gauged scheduler s)
    (hpc : s.pc = .failBatch index message)
    (hlength : s.running.length ≤ scheduler.config.maxRunningSeqs) :
    Gauged scheduler (failBatchAt index message s) := by
  have hgauges := hgauged.gauges
  rw [hpc] at hgauges
  unfold failBatchAt
  split
  · exact gauged_reap hlength rfl rfl
  · refine hgauged.keep rfl ?_
    change _ = (s.running.modify index Sequence.fail).length
    rwa [List.length_modify]

theorem gauged_answerRunning (hgauged : Gauged scheduler s) (hpc : s.pc = .answerRunning) :
    Gauged scheduler (answerRunning s) := by
  have hgauges := hgauged.gauges
  rw [hpc] at hgauges
  unfold answerRunning
  split
  · rename_i hrunning
    apply Gauged.set
    · exact (congrArg List.length hrunning).symm
    · exact (congrArg List.length hrunning).trans_le (Nat.zero_le _)
  · rename_i seq rest hrunning
    refine hgauged.keep rfl ?_
    rw [hrunning] at hgauges
    exact (Nat.le_succ _).trans hgauges

variable [Kernels α]

theorem gauged_sampleToken {index : ℕ} {logits : List (LogitRow α)} (hgauged : Gauged scheduler s)
    (hpc : s.pc = .sampleToken index logits)
    (hlength : s.running.length ≤ scheduler.config.maxRunningSeqs) :
    Gauged scheduler (sampleToken index logits s) := by
  have hgauges := hgauged.gauges
  rw [hpc] at hgauges
  unfold sampleToken
  split
  · exact gauged_reap hlength rfl rfl
  · split
    · refine hgauged.keep rfl ?_
      change _ = (s.running.modify index Sequence.fail).length
      rwa [List.length_modify]
    · split
      · exact hgauged.keep rfl hgauges
      · dsimp only
        split
        · refine hgauged.keep rfl ?_
          change _ = (s.running.set index _).length
          rwa [List.length_set]
        · refine hgauged.keep rfl ?_
          change _ = (s.running.set index _).length
          rwa [List.length_set]

/-- Every step of the scheduler leaves the gauge right. -/
theorem gauged_schedStep {late : List ClientId} (hgauged : Gauged scheduler s)
    (hlength : s.running.length ≤ scheduler.config.maxRunningSeqs)
    (hstep : SchedStep scheduler late s s') : Gauged scheduler s' := by
  have hgauges := hgauged.gauges
  cases hstep with
  | stop hpc _ | enter hpc | park hpc _ | resume hpc | wake hpc _ | closeQueue hpc =>
      rw [hpc] at hgauges
      exact hgauged.keep rfl hgauges
  | endLoop _ _ => exact gauged_endLoop _ hlength
  | responseDone hpc _ _ =>
      rw [hpc] at hgauges
      exact gauged_abandon hgauged hgauges
  | responseWanted hpc _ _ =>
      rw [hpc] at hgauges
      exact hgauged.keep rfl hgauges
  | closed hpc _ =>
      rw [hpc] at hgauges
      exact gauged_abandon ⟨hgauged.gauges, hgauged.gauge_le⟩ hgauges
  | stillOpen hpc _ =>
      rw [hpc] at hgauges
      exact gauged_proceed hgauged hgauges
  | full _ => exact Gauged.set rfl hlength
  | tryPop hpc _ => exact gauged_tryPop hgauged hpc hlength
  | admitRequest hpc => exact gauged_admitRequest hgauged hpc
  | prefill hpc =>
      rw [hpc] at hgauges
      unfold prefill
      split <;> exact hgauged.keep rfl hgauges
  | evict hpc => exact gauged_evictAt hgauged hpc hlength
  | forward hpc =>
      rw [hpc] at hgauges
      unfold forward
      split <;> exact hgauged.keep rfl hgauges
  | failBatch hpc => exact gauged_failBatchAt hgauged hpc hlength
  | sampleToken hpc => exact gauged_sampleToken hgauged hpc hlength
  | sendItems hpc =>
      rw [hpc] at hgauges
      unfold sendItems
      split <;> exact hgauged.keep rfl hgauges
  | answerQueued hpc =>
      rw [hpc] at hgauges
      unfold answerQueued
      split
      · exact hgauged.keep rfl (Nat.le_of_eq hgauges.symm)
      · exact hgauged.keep rfl hgauges
  | answerRunning hpc => exact gauged_answerRunning hgauged hpc

theorem gauged_step {action : Action α} (hgauged : Gauged scheduler s)
    (hlength : s.running.length ≤ scheduler.config.maxRunningSeqs)
    (hstep : step scheduler action s = some s') : Gauged scheduler s' := by
  have hgauges := hgauged.gauges
  cases step_cases hstep with
  | sched hsched => exact gauged_schedStep hgauged hlength hsched
  | schedShutdown hpc _ =>
      rcases hpc with hpc | hpc <;> rw [hpc] at hgauges <;> exact hgauged.keep rfl hgauges
  | refuse _ _ | accept _ _ _ | notify _ | client _ | shutdown => exact hgauged.keep rfl hgauges

end Gauge

end Scheduler

end HotBatch
