import HotBatch.Foundation.Notify
import HotBatch.Scheduler.Slots

/-!
# Wakeups of the idle scheduler

`wait_nonempty` checks the queue and then awaits `notified()`, in separate steps, while `submit` pushes
a request and then calls `notify_one`. Here the await is taken apart as well: the first poll takes a
stored permit or registers the scheduler as waiting, and a waiting scheduler stays where it is until
it has been woken. No interleaving leaves it waiting for a queue that holds a request, with nobody on
the way to wake it.
-/

namespace HotBatch

namespace Scheduler

variable {α : Type}

/-- The scheduler and its place in `notified()`. The stored permit is the one in the state. -/
structure WaitState (α : Type) where
  base : State α
  waiter : Waiter

namespace WaitState

def notify (s : WaitState α) : Notify := ⟨s.base.permit, s.waiter⟩

def withNotify (notify : Notify) (base : State α) : WaitState α :=
  ⟨{ base with permit := notify.permit }, notify.waiter⟩

end WaitState

theorem WaitState.settled_of_absent {s : WaitState α} (habsent : s.waiter = .absent) :
    s.notify.Settled := by
  intro hwaiting
  exact absurd (habsent.symm.trans hwaiting) (by decide)

/-- The start of the scheduler, before it has waited for anything. -/
def initWait (kvCache : SlabKvCache (KvTensor α)) (maxDepth : ℕ) (capacity : ClientId → ℕ) :
    WaitState α := ⟨init kvCache maxDepth capacity, .absent⟩

/-- A poll of the scheduler in `notified()`; none while it waits. -/
def pollNotified (s : WaitState α) : Option (WaitState α) :=
  if s.waiter = .waiting then none
  else
    let (ready, notify) := s.notify.poll
    some (.withNotify notify (if ready then s.base.goto .idleCheck else s.base))

section Steps

variable [Kernels α]

/-- The step of an action. The shutdown branch of the `select!` drops the wait. -/
def waitStep (scheduler : Scheduler α) (action : Action α) (s : WaitState α) :
    Option (WaitState α) :=
  match action with
  | .sched late =>
      match s.base.pc with
      | .parked => pollNotified s
      | _ => (next scheduler late s.base).map fun base ↦ ⟨base, s.waiter⟩
  | .schedShutdown => (nextShutdown s.base).map (.withNotify s.notify.abandon)
  | .notify =>
      if s.base.pendingNotifies = 0 then none
      else some (.withNotify s.notify.notifyOne
        { s.base with pendingNotifies := s.base.pendingNotifies - 1 })
  | action => (step scheduler action s.base).map fun base ↦ ⟨base, s.waiter⟩

end Steps

/-! ## What the other steps leave alone -/

/-- The same state with another permit and other submitters on their way. -/
def State.withSignals (permit : Bool) (pendingNotifies : ℕ) (s : State α) : State α :=
  { s with permit := permit, pendingNotifies := pendingNotifies }

section WithSignals

variable (permit : Bool) (pendingNotifies : ℕ) (s : State α)

theorem abandon_withSignals (site : Site α) :
    abandon site (s.withSignals permit pendingNotifies) =
      (abandon site s).withSignals permit pendingNotifies := by
  cases site <;> rfl

theorem proceed_withSignals (site : Site α) :
    proceed site (s.withSignals permit pendingNotifies) =
      (proceed site s).withSignals permit pendingNotifies := by
  cases site <;> rfl

theorem endLoop_withSignals (site : Site α) :
    endLoop site (s.withSignals permit pendingNotifies) =
      (endLoop site s).withSignals permit pendingNotifies := by
  cases site <;> rfl

theorem tryPop_withSignals (late : List ClientId) :
    tryPop late (s.withSignals permit pendingNotifies) =
      (tryPop late s).withSignals permit pendingNotifies := by
  have hopen : (s.withSignals permit pendingNotifies).isOpen late = s.isOpen late := rfl
  have hqueue : (s.withSignals permit pendingNotifies).queue = s.queue := rfl
  unfold tryPop
  rw [hopen, hqueue]
  split <;> rfl

theorem admitRequest_withSignals (scheduler : Scheduler α) (req : GenerationRequest α) :
    admitRequest scheduler req (s.withSignals permit pendingNotifies) =
      (admitRequest scheduler req s).withSignals permit pendingNotifies := by
  have hcache : (s.withSignals permit pendingNotifies).kvCache = s.kvCache := rfl
  unfold admitRequest
  rw [hcache]
  split
  · rfl
  · split <;> rfl

theorem evictAt_withSignals (scheduler : Scheduler α) (index : ℕ) :
    evictAt scheduler index (s.withSignals permit pendingNotifies) =
      (evictAt scheduler index s).withSignals permit pendingNotifies := by
  have hrunning : (s.withSignals permit pendingNotifies).running = s.running := rfl
  unfold evictAt
  rw [hrunning]
  split
  · rfl
  · dsimp only
    split <;> rfl

theorem failBatchAt_withSignals (index : ℕ) (message : String) :
    failBatchAt index message (s.withSignals permit pendingNotifies) =
      (failBatchAt index message s).withSignals permit pendingNotifies := by
  have hrunning : (s.withSignals permit pendingNotifies).running = s.running := rfl
  unfold failBatchAt
  rw [hrunning]
  split <;> rfl

theorem sendItems_withSignals (index : ℕ) (logits : List (LogitRow α)) (items : List StreamItem) :
    sendItems index logits items (s.withSignals permit pendingNotifies) =
      (sendItems index logits items s).withSignals permit pendingNotifies := by
  have hrunning : (s.withSignals permit pendingNotifies).running = s.running := rfl
  unfold sendItems
  rw [hrunning]
  split <;> rfl

theorem answerQueued_withSignals (drained : List (GenerationRequest α)) :
    answerQueued drained (s.withSignals permit pendingNotifies) =
      (answerQueued drained s).withSignals permit pendingNotifies := by
  cases drained <;> rfl

theorem answerRunning_withSignals :
    answerRunning (s.withSignals permit pendingNotifies) =
      (answerRunning s).withSignals permit pendingNotifies := by
  have hrunning : (s.withSignals permit pendingNotifies).running = s.running := rfl
  unfold answerRunning
  rw [hrunning]
  split <;> rfl

variable [Kernels α]

theorem prefill_withSignals (scheduler : Scheduler α) (seq : Sequence α) :
    prefill scheduler seq (s.withSignals permit pendingNotifies) =
      (prefill scheduler seq s).withSignals permit pendingNotifies := by
  have hcache : (s.withSignals permit pendingNotifies).kvCache = s.kvCache := rfl
  unfold prefill
  rw [hcache]
  split <;> rfl

theorem forward_withSignals (scheduler : Scheduler α) :
    forward scheduler (s.withSignals permit pendingNotifies) =
      (forward scheduler s).withSignals permit pendingNotifies := by
  have hrunning : (s.withSignals permit pendingNotifies).running = s.running := rfl
  have hcache : (s.withSignals permit pendingNotifies).kvCache = s.kvCache := rfl
  unfold forward
  rw [hrunning, hcache]
  split <;> rfl

theorem sampleToken_withSignals (index : ℕ) (logits : List (LogitRow α)) :
    sampleToken index logits (s.withSignals permit pendingNotifies) =
      (sampleToken index logits s).withSignals permit pendingNotifies := by
  have hrunning : (s.withSignals permit pendingNotifies).running = s.running := rfl
  have hclients : (s.withSignals permit pendingNotifies).clients = s.clients := rfl
  unfold sampleToken
  rw [hrunning, hclients]
  split
  · rfl
  · split
    · rfl
    · split
      · rfl
      · dsimp only
        split <;> rfl

/-- Outside of the wait, the scheduler neither reads the notification nor writes to it. -/
theorem next_withSignals (scheduler : Scheduler α) (late : List ClientId) (hpc : s.pc ≠ .parked) :
    next scheduler late (s.withSignals permit pendingNotifies) =
      (next scheduler late s).map (State.withSignals permit pendingNotifies) := by
  have hsame : (s.withSignals permit pendingNotifies).pc = s.pc := rfl
  have hclients : (s.withSignals permit pendingNotifies).clients = s.clients := rfl
  have hrunning : (s.withSignals permit pendingNotifies).running = s.running := rfl
  unfold next
  rw [hsame]
  cases hplace : s.pc with
  | parked => exact absurd hplace hpc
  | checkDone site =>
      dsimp only
      rw [hrunning, hclients]
      split
      · exact congrArg some (endLoop_withSignals permit pendingNotifies s site)
      · split
        · exact congrArg some (abandon_withSignals permit pendingNotifies s site)
        · rfl
  | checkClosed site client =>
      dsimp only
      rw [hclients]
      split
      · exact congrArg some
          (abandon_withSignals permit pendingNotifies (s.recordCancelled [client]) site)
      · exact congrArg some (proceed_withSignals permit pendingNotifies s site)
  | admission =>
      dsimp only
      have hroom : mayAdmit scheduler (s.withSignals permit pendingNotifies) =
        mayAdmit scheduler s := rfl
      rw [hroom]
      split
      · exact congrArg some (tryPop_withSignals permit pendingNotifies s late)
      · rfl
  | admitRequest req =>
      exact congrArg some (admitRequest_withSignals permit pendingNotifies s scheduler req)
  | prefill seq => exact congrArg some (prefill_withSignals permit pendingNotifies s scheduler seq)
  | evict index => exact congrArg some (evictAt_withSignals permit pendingNotifies s scheduler index)
  | forward => exact congrArg some (forward_withSignals permit pendingNotifies s scheduler)
  | failBatch index message =>
      exact congrArg some (failBatchAt_withSignals permit pendingNotifies s index message)
  | sampleToken index logits =>
      exact congrArg some (sampleToken_withSignals permit pendingNotifies s index logits)
  | sendItems index logits items =>
      exact congrArg some (sendItems_withSignals permit pendingNotifies s index logits items)
  | answerQueued drained =>
      exact congrArg some (answerQueued_withSignals permit pendingNotifies s drained)
  | answerRunning => exact congrArg some (answerRunning_withSignals permit pendingNotifies s)
  | _ => rfl

end WithSignals

/-! ## The wait -/

section Wait

variable [Kernels α] {scheduler : Scheduler α} {late : List ClientId} {s s' : State α}

/-- The scheduler only starts to wait after it has seen the queue empty. -/
theorem queue_eq_nil_of_parked (hstep : SchedStep scheduler late s s') (hparked : s'.pc = .parked) :
    s'.queue.requests = [] := by
  cases hstep with
  | park _ hempty => exact hempty
  | @endLoop site _ _ => cases site <;> cases hparked
  | @responseDone site _ _ _ _ => cases site <;> cases hparked
  | @closed site _ _ _ => cases site <;> cases hparked
  | @stillOpen site _ _ _ => cases site <;> cases hparked
  | tryPop _ _ =>
      unfold tryPop at hparked
      split at hparked <;> cases hparked
  | admitRequest _ =>
      unfold admitRequest at hparked
      split at hparked
      · cases hparked
      · split at hparked <;> cases hparked
  | prefill _ =>
      unfold prefill at hparked
      split at hparked <;> cases hparked
  | evict _ =>
      unfold evictAt at hparked
      split at hparked
      · dsimp only [State.goto] at hparked
        split at hparked <;> cases hparked
      · cases hparked
  | forward _ =>
      unfold forward at hparked
      split at hparked <;> cases hparked
  | failBatch _ =>
      unfold failBatchAt at hparked
      split at hparked <;> cases hparked
  | sampleToken _ =>
      unfold sampleToken at hparked
      split at hparked
      · cases hparked
      · split at hparked
        · cases hparked
        · split at hparked
          · cases hparked
          · dsimp only at hparked
            split at hparked <;> cases hparked
  | sendItems _ =>
      unfold sendItems at hparked
      split at hparked <;> cases hparked
  | @answerQueued drained _ => cases drained <;> cases hparked
  | answerRunning _ =>
      unfold answerRunning at hparked
      split at hparked <;> cases hparked
  | _ => cases hparked

end Wait

/-- Everything that a step can be. -/
inductive WaitStep [Kernels α] (scheduler : Scheduler α) (s : WaitState α) :
    Action α → WaitState α → Prop
  | poll {late : List ClientId} (hpc : s.base.pc = .parked) (hwaiting : s.waiter ≠ .waiting) :
      WaitStep scheduler s (.sched late) (.withNotify s.notify.poll.2
        (if s.notify.poll.1 then s.base.goto .idleCheck else s.base))
  | sched {late : List ClientId} {after : State α} (hpc : s.base.pc ≠ .parked)
      (hnext : next scheduler late s.base = some after) :
      WaitStep scheduler s (.sched late) ⟨after, s.waiter⟩
  | schedShutdown (hpc : s.base.pc = .idleCheck ∨ s.base.pc = .parked)
      (hshutdown : s.base.shutdown = true) :
      WaitStep scheduler s .schedShutdown (.withNotify s.notify.abandon (s.base.goto .closeQueue))
  | notify (hpending : s.base.pendingNotifies ≠ 0) :
      WaitStep scheduler s .notify (.withNotify s.notify.notifyOne
        { s.base with pendingNotifies := s.base.pendingNotifies - 1 })
  | submit {req : GenerationRequest α} {late : List ClientId} {after : State α}
      (hsubmit : submit req late s.base = some after) :
      WaitStep scheduler s (.submit req late) ⟨after, s.waiter⟩
  | client {client : ClientId} {action : ClientAction} {after : Client}
      (hact : (s.base.clients client).act action = some after) :
      WaitStep scheduler s (.client client action)
        ⟨{ s.base with clients := Function.update s.base.clients client after }, s.waiter⟩
  | shutdown : WaitStep scheduler s .shutdown ⟨{ s.base with shutdown := true }, s.waiter⟩

section Lost

variable [Kernels α] {scheduler : Scheduler α} {action : Action α} {s s' : WaitState α}

theorem waitStep_cases (hstep : waitStep scheduler action s = some s') :
    WaitStep scheduler s action s' := by
  cases action with
  | sched late =>
      unfold waitStep at hstep
      dsimp only at hstep
      by_cases hpc : s.base.pc = .parked
      · rw [hpc] at hstep
        dsimp only at hstep
        unfold pollNotified at hstep
        split at hstep
        · cases hstep
        · rename_i hwaiting
          obtain rfl := Option.some.inj hstep
          exact .poll hpc hwaiting
      · split at hstep
        · rename_i hparked
          exact absurd hparked hpc
        · obtain ⟨after, hnext, rfl⟩ := Option.map_eq_some_iff.mp hstep
          exact .sched hpc hnext
  | schedShutdown =>
      obtain ⟨after, hnext, rfl⟩ := Option.map_eq_some_iff.mp hstep
      have hbase : step scheduler .schedShutdown s.base = some after := hnext
      cases step_cases hbase with
      | schedShutdown hpc hshutdown => exact .schedShutdown hpc hshutdown
  | submit req late =>
      obtain ⟨after, hsubmit, rfl⟩ := Option.map_eq_some_iff.mp hstep
      exact .submit hsubmit
  | notify =>
      change (if _ then _ else _) = _ at hstep
      split at hstep
      · cases hstep
      · rename_i hpending
        exact Option.some.inj hstep ▸ .notify hpending
  | client client action =>
      obtain ⟨after, hact, rfl⟩ := Option.map_eq_some_iff.mp hstep
      obtain ⟨channel, hchannel, rfl⟩ := Option.map_eq_some_iff.mp hact
      exact .client hchannel
  | shutdown => exact Option.some.inj hstep ▸ .shutdown

/-- What keeps a wakeup from getting lost: a queue that holds a request while the scheduler waits, or
is about to, has been signalled or will be. -/
structure WaitInv (s : WaitState α) : Prop where
  settled : s.notify.Settled
  absent : s.base.pc ≠ .parked → s.waiter = .absent
  signalled : s.base.pc = .parked → s.base.queue.requests ≠ [] →
    s.notify.signalled = true ∨ s.base.pendingNotifies ≠ 0

theorem waitInv_step (hinv : WaitInv s) (hstep : WaitStep scheduler s action s') : WaitInv s' := by
  cases hstep with
  | poll hpc hwaiting =>
      cases hready : s.notify.poll.1 with
      | true =>
          refine ⟨Notify.settled_poll hinv.settled, fun _ ↦ Notify.waiter_poll hready, ?_⟩
          intro hparked
          cases hparked
      | false =>
          refine ⟨Notify.settled_poll hinv.settled, fun hparked ↦ absurd hpc hparked, ?_⟩
          intro _ hqueue
          rw [Notify.fst_poll hinv.settled] at hready
          have hpending := (hinv.signalled hpc hqueue).resolve_left (by rw [hready]; decide)
          exact .inr hpending
  | @sched late after hpc hnext =>
      have habsent := hinv.absent hpc
      refine ⟨WaitState.settled_of_absent habsent, fun _ ↦ habsent, fun hparked hqueue ↦ ?_⟩
      exact absurd (queue_eq_nil_of_parked (schedStep_of_next hnext) hparked) hqueue
  | schedShutdown hpc hshutdown =>
      refine ⟨Notify.settled_abandon, fun _ ↦ Notify.waiter_abandon, ?_⟩
      intro hparked
      cases hparked
  | notify hpending =>
      refine ⟨Notify.settled_notifyOne hinv.settled, fun hparked ↦ ?_, fun _ _ ↦ .inl ?_⟩
      · exact Notify.waiter_notifyOne (hinv.absent hparked)
      · exact Notify.signalled_notifyOne
  | @submit req late after hsubmit =>
      have hbase : step scheduler (.submit req late) s.base = some after := hsubmit
      cases step_cases hbase with
      | refuse _ _ =>
          refine ⟨hinv.settled, hinv.absent, fun hparked hqueue ↦ hinv.signalled hparked ?_⟩
          intro hempty
          exact hqueue (List.subset_nil.mp (hempty ▸ RequestQueue.retainOpen_subset _ _))
      | accept _ _ _ => exact ⟨hinv.settled, hinv.absent, fun _ _ ↦ .inr (Nat.succ_ne_zero _)⟩
  | client _ => exact ⟨hinv.settled, hinv.absent, hinv.signalled⟩
  | shutdown => exact ⟨hinv.settled, hinv.absent, hinv.signalled⟩

/-- The states of all runs from a start that has not waited for anything. -/
abbrev ReachesWait (scheduler : Scheduler α) (start : WaitState α) : WaitState α → Prop :=
  Transition.Reaches (waitStep scheduler) (fun _ _ ↦ True) start

variable {kvCache : SlabKvCache (KvTensor α)} {maxDepth : ℕ} {capacity : ClientId → ℕ}

theorem waitInv_of_reaches
    (hreach : ReachesWait scheduler (initWait kvCache maxDepth capacity) s) : WaitInv s := by
  refine hreach.invariant (fun _ _ _ _ hinv _ hstep ↦ waitInv_step hinv (waitStep_cases hstep)) ?_
  refine ⟨Notify.settled_new, fun _ ↦ rfl, fun hparked ↦ ?_⟩
  cases hparked

/-- **No wakeup is lost.** The scheduler never waits in `notified()` while the queue holds a request,
no permit is stored and no submitter is between its push and its `notify_one`; and if it is only about
to wait for such a queue, its first poll sends it back to the queue. -/
theorem no_lost_wakeup
    (hreach : ReachesWait scheduler (initWait kvCache maxDepth capacity) s) :
    ¬ (s.base.pc = .parked ∧ s.waiter = .waiting ∧ s.base.queue.requests ≠ [] ∧
      s.base.permit = false ∧ s.base.pendingNotifies = 0) ∧
    (s.base.pc = .parked → s.base.queue.requests ≠ [] → s.base.pendingNotifies = 0 →
      ∀ late, ∃ after, waitStep scheduler (.sched late) s = some after ∧
        after.base.pc = .idleCheck ∧ after.base.queue = s.base.queue) := by
  have hinv := waitInv_of_reaches hreach
  constructor
  · rintro ⟨hpc, hwaiting, hqueue, hpermit, hpending⟩
    have hsignalled := (hinv.signalled hpc hqueue).resolve_right (absurd hpending)
    simp [Notify.signalled, WaitState.notify, hwaiting, hpermit] at hsignalled
  · intro hpc hqueue hpending late
    have hsignalled := (hinv.signalled hpc hqueue).resolve_right (absurd hpending)
    have hready := (Notify.fst_poll hinv.settled).trans hsignalled
    have hwaiting : s.waiter ≠ .waiting := by
      intro hwaiting
      have hpermit : s.base.permit = false := hinv.settled hwaiting
      simp [Notify.signalled, WaitState.notify, hwaiting, hpermit] at hsignalled
    refine ⟨.withNotify s.notify.poll.2 (s.base.goto .idleCheck), ?_, rfl, rfl⟩
    unfold waitStep pollNotified
    rw [hpc]
    dsimp only
    rw [if_neg hwaiting, hready]
    rfl

end Lost

/-! ## One bit for the notification -/

/-- The state of the machine that keeps only whether a wakeup is on its way. A permit that is stored
although the scheduler has been woken counts as a submitter that has yet to notify. -/
def WaitState.collapsed (s : WaitState α) : State α :=
  s.base.withSignals s.notify.signalled (s.base.pendingNotifies + s.notify.spare.toNat)

theorem collapsed_of_not_woken {s : WaitState α} (hwoken : s.waiter ≠ .woken) :
    s.collapsed = s.base := by
  simp [WaitState.collapsed, WaitState.notify, Notify.signalled, Notify.spare, State.withSignals,
    hwoken]

theorem collapsed_woken (base : State α) :
    (WaitState.mk base .woken).collapsed =
      base.withSignals true (base.pendingNotifies + base.permit.toNat) := by
  simp [WaitState.collapsed, WaitState.notify, Notify.signalled, Notify.spare]

theorem submit_withSignals (req : GenerationRequest α) (late : List ClientId) (s : State α)
    (permit : Bool) (more : ℕ) :
    submit req late (s.withSignals permit (s.pendingNotifies + more)) =
      (submit req late s).map fun after ↦
        after.withSignals permit (after.pendingNotifies + more) := by
  have hopen : (s.withSignals permit (s.pendingNotifies + more)).isOpen late = s.isOpen late := rfl
  have hqueue : (s.withSignals permit (s.pendingNotifies + more)).queue = s.queue := rfl
  have hhistory : (s.withSignals permit (s.pendingNotifies + more)).history = s.history := rfl
  unfold submit
  rw [hopen, hqueue, hhistory]
  split
  · rfl
  · dsimp only
    split
    · rfl
    · simp [accept, State.withSignals, State.prune, State.resolve, Nat.add_right_comm]

section Collapsed

variable [Kernels α] {scheduler : Scheduler α} {action : Action α} {s s' : WaitState α}

/-- A step, where the machine can take it. -/
theorem reaches_of_step {before after : State α} {action : Action α}
    (hstep : step scheduler action before = some after) :
    Reaches scheduler Anything before after := .step .refl trivial hstep

/-- The scheduler takes its wakeup. -/
theorem reaches_wake {before : State α} (hpc : before.pc = .parked) (hpermit : before.permit = true) :
    Reaches scheduler Anything before { before with permit := false, pc := .idleCheck } := by
  have hnext : step scheduler (.sched []) before =
      some { before with permit := false, pc := .idleCheck } := by
    change next scheduler [] before = _
    unfold next
    rw [hpc]
    exact if_pos hpermit
  exact reaches_of_step hnext

/-- A submitter notifies. -/
theorem reaches_notify {before : State α} (hpending : before.pendingNotifies ≠ 0) :
    Reaches scheduler Anything before
      { before with permit := true, pendingNotifies := before.pendingNotifies - 1 } := by
  have hstep : step scheduler .notify before =
      some { before with permit := true, pendingNotifies := before.pendingNotifies - 1 } :=
    if_neg hpending
  exact reaches_of_step hstep

theorem reaches_schedShutdown {before : State α} (hpc : before.pc = .idleCheck ∨ before.pc = .parked)
    (hshutdown : before.shutdown = true) :
    Reaches scheduler Anything before (before.goto .closeQueue) := by
  have hstep : step scheduler .schedShutdown before = some (before.goto .closeQueue) := by
    change nextShutdown before = _
    unfold nextShutdown
    cases hpc with
    | inl hpc => rw [hpc]; exact if_pos hshutdown
    | inr hpc => rw [hpc]; exact if_pos hshutdown
  exact reaches_of_step hstep

/-- A second notification that was left for later is caught up with. -/
theorem reaches_spare (base : State α) (permit : Bool) :
    Reaches scheduler Anything (base.withSignals true (base.pendingNotifies + permit.toNat))
      (base.withSignals true base.pendingNotifies) := by
  cases permit with
  | false => exact .refl
  | true => exact reaches_notify (Nat.succ_ne_zero _)

theorem collapsed_poll (hpc : s.base.pc = .parked) (hwaiting : s.waiter ≠ .waiting) :
    Reaches scheduler Anything s.collapsed (WaitState.withNotify s.notify.poll.2
      (if s.notify.poll.1 then s.base.goto .idleCheck else s.base)).collapsed := by
  obtain ⟨base, waiter⟩ := s
  cases waiter with
  | waiting => exact absurd rfl hwaiting
  | absent =>
      rw [collapsed_of_not_woken (by rintro ⟨⟩)]
      cases hpermit : base.permit with
      | true =>
          have hpoll : (WaitState.mk base .absent).notify.poll = (true, ⟨false, .absent⟩) := by
            rw [WaitState.notify, hpermit]
            rfl
          rw [hpoll, collapsed_of_not_woken (by rintro ⟨⟩)]
          exact reaches_wake hpc hpermit
      | false =>
          have hpoll : (WaitState.mk base .absent).notify.poll = (false, ⟨false, .waiting⟩) := by
            rw [WaitState.notify, hpermit]
            rfl
          have hsame : { base with permit := false } = base := by rw [← hpermit]
          rw [hpoll, collapsed_of_not_woken (by rintro ⟨⟩)]
          exact hsame.symm ▸ .refl
  | woken =>
      rw [collapsed_woken]
      have hwake : Reaches scheduler Anything
          (base.withSignals true (base.pendingNotifies + base.permit.toNat))
          ((base.goto .idleCheck).withSignals false (base.pendingNotifies + base.permit.toNat)) :=
        reaches_wake hpc rfl
      refine hwake.trans ?_
      cases hpermit : base.permit with
      | true =>
          have hpoll : (WaitState.mk base .woken).notify.poll = (true, ⟨true, .absent⟩) := by
            rw [WaitState.notify, hpermit]
            rfl
          rw [hpoll, collapsed_of_not_woken (by rintro ⟨⟩)]
          exact reaches_notify (Nat.succ_ne_zero _)
      | false =>
          have hpoll : (WaitState.mk base .woken).notify.poll = (true, ⟨false, .absent⟩) := by
            rw [WaitState.notify, hpermit]
            rfl
          rw [hpoll, collapsed_of_not_woken (by rintro ⟨⟩)]
          exact .refl

theorem collapsed_notify (hsettled : s.notify.Settled) (hpending : s.base.pendingNotifies ≠ 0) :
    Reaches scheduler Anything s.collapsed (WaitState.withNotify s.notify.notifyOne
      { s.base with pendingNotifies := s.base.pendingNotifies - 1 }).collapsed := by
  obtain ⟨base, waiter⟩ := s
  cases waiter with
  | absent =>
      have hnotified : (WaitState.mk base .absent).notify.notifyOne = ⟨true, .absent⟩ := rfl
      rw [hnotified, collapsed_of_not_woken (by rintro ⟨⟩),
        collapsed_of_not_woken (by rintro ⟨⟩)]
      exact reaches_notify hpending
  | waiting =>
      have hpermit : base.permit = false := hsettled rfl
      have hnotified : (WaitState.mk base .waiting).notify.notifyOne = ⟨false, .woken⟩ := by
        rw [WaitState.notify, hpermit]
        rfl
      rw [hnotified, collapsed_of_not_woken (by rintro ⟨⟩)]
      exact reaches_notify hpending
  | woken =>
      have hnotified : (WaitState.mk base .woken).notify.notifyOne = ⟨true, .woken⟩ := rfl
      have hkept : base.pendingNotifies - 1 + 1 = base.pendingNotifies := Nat.sub_one_add_one hpending
      have hlater : (WaitState.withNotify ⟨true, .woken⟩
          { base with pendingNotifies := base.pendingNotifies - 1 }).collapsed =
          base.withSignals true base.pendingNotifies := by
        rw [WaitState.withNotify, collapsed_woken]
        exact congrArg (base.withSignals true) hkept
      rw [hnotified, hlater, collapsed_woken]
      exact reaches_spare base base.permit

theorem collapsed_schedShutdown (hpc : s.base.pc = .idleCheck ∨ s.base.pc = .parked)
    (hshutdown : s.base.shutdown = true) :
    Reaches scheduler Anything s.collapsed
      (WaitState.withNotify s.notify.abandon (s.base.goto .closeQueue)).collapsed := by
  have hwoken : s.notify.abandon.waiter ≠ .woken := by
    rw [s.notify.waiter_abandon]
    decide
  have hafter : (WaitState.withNotify s.notify.abandon (s.base.goto .closeQueue)).collapsed =
      { s.base.goto .closeQueue with permit := s.notify.abandon.permit } :=
    collapsed_of_not_woken hwoken
  rw [hafter]
  obtain ⟨base, waiter⟩ := s
  cases waiter with
  | absent =>
      rw [collapsed_of_not_woken (by rintro ⟨⟩)]
      exact reaches_schedShutdown hpc hshutdown
  | waiting =>
      rw [collapsed_of_not_woken (by rintro ⟨⟩)]
      exact reaches_schedShutdown hpc hshutdown
  | woken =>
      rw [collapsed_woken]
      have hcaughtUp : Reaches scheduler Anything _ _ := reaches_spare base base.permit
      exact hcaughtUp.trans (reaches_schedShutdown hpc hshutdown)

/-- The machine can follow every step: it takes the same one, or it leaves the second of two
notifications for later, or it catches up with it. -/
theorem collapsed_step (hinv : WaitInv s) (hstep : WaitStep scheduler s action s') :
    Reaches scheduler Anything s.collapsed s'.collapsed := by
  cases hstep with
  | poll hpc hwaiting => exact collapsed_poll hpc hwaiting
  | @sched late after hpc hnext =>
      have hwoken : s.waiter ≠ .woken := by
        rw [hinv.absent hpc]
        decide
      have hafter : (WaitState.mk after s.waiter).collapsed = after := collapsed_of_not_woken hwoken
      have hbase : step scheduler (.sched late) s.base = some after := hnext
      rw [collapsed_of_not_woken hwoken, hafter]
      exact reaches_of_step hbase
  | schedShutdown hpc hshutdown => exact collapsed_schedShutdown hpc hshutdown
  | notify hpending => exact collapsed_notify hinv.settled hpending
  | @submit req late after hsubmit =>
      have hpermit : after.permit = s.base.permit := by
        have hself := submit_withSignals req late s.base s.base.permit 0
        have hsame : submit req late (s.base.withSignals s.base.permit (s.base.pendingNotifies + 0)) =
          some after := hsubmit
        rw [hsame, hsubmit] at hself
        rw [Option.some.inj hself]
        rfl
      have hnotify : (WaitState.mk after s.waiter).notify = s.notify :=
        congrArg (Notify.mk · s.waiter) hpermit
      have hcommutes := submit_withSignals req late s.base s.notify.signalled s.notify.spare.toNat
      rw [hsubmit] at hcommutes
      have hmove : step scheduler (.submit req late) s.collapsed =
          some (WaitState.mk after s.waiter).collapsed := by
        unfold WaitState.collapsed
        rw [hnotify]
        exact hcommutes
      exact reaches_of_step hmove
  | @client client action after hact =>
      have hmove : step scheduler (.client client action) s.collapsed =
          some ({ s.collapsed with clients := Function.update s.base.clients client after }) := by
        change ((s.base.clients client).act action).map _ = _
        rw [hact]
        rfl
      exact reaches_of_step hmove
  | shutdown =>
      have hmove : step scheduler .shutdown s.collapsed = some { s.collapsed with shutdown := true } :=
        rfl
      exact reaches_of_step hmove

/-- **One bit is enough for the notification.** Every run with the detailed wait is followed by a run
of the machine. -/
theorem reaches_collapsed {kvCache : SlabKvCache (KvTensor α)} {maxDepth : ℕ}
    {capacity : ClientId → ℕ}
    (hreach : ReachesWait scheduler (initWait kvCache maxDepth capacity) s) :
    Reaches scheduler Anything (init kvCache maxDepth capacity) s.collapsed := by
  induction hreach with
  | refl => exact .refl
  | step hbefore _ hnext ih =>
      exact ih.trans (collapsed_step (waitInv_of_reaches hbefore) (waitStep_cases hnext))

end Collapsed

def tinyWait : WaitState ℚ := ⟨tinyStart, .absent⟩

/-- The scheduler waits, a request is pushed, and its submitter notifies. -/
def tinyWoken : WaitState ℚ :=
  (Transition.run (waitStep tinyScheduler) (fun _ _ ↦ True)
    (List.replicate 6 (.sched []) ++ [.submit ⟨"a", [1], tinyConfig, 0, 0, 0⟩ [], .notify])
    tinyWait).getD tinyWait

theorem no_lost_wakeup_tinyWoken :
    tinyWoken.waiter = .woken ∧ tinyWoken.base.queue.requests.length = 1 ∧
      ¬ (tinyWoken.waiter = .waiting ∧ tinyWoken.base.permit = false ∧
        tinyWoken.base.pendingNotifies = 0) ∧
      ∃ after, waitStep tinyScheduler (.sched []) tinyWoken = some after ∧
        after.base.queue.requests.length = 1 := by
  have hreach : ReachesWait tinyScheduler (initWait (.new 2 8 12 12 64) 4 fun _ ↦ 5) tinyWoken :=
    Transition.reaches_getD_run (by decide +kernel) tinyWait
  have hpc : tinyWoken.base.pc = .parked := by
    have hparked : (match tinyWoken.base.pc with
      | .parked => true
      | _ => false) = true := by decide +kernel
    split at hparked
    · rename_i hpc
      exact hpc
    · cases hparked
  have hlength : tinyWoken.base.queue.requests.length = 1 := by decide +kernel
  have hqueue : tinyWoken.base.queue.requests ≠ [] := by
    rw [← List.length_pos_iff, hlength]
    decide
  obtain ⟨hnever, hpoll⟩ := no_lost_wakeup hreach
  obtain ⟨after, hafter, -, hsame⟩ := hpoll hpc hqueue (by decide +kernel) []
  refine ⟨by decide +kernel, hlength, fun hlost ↦ ?_, after, hafter, hsame ▸ hlength⟩
  exact hnever ⟨hpc, hlost.1, hqueue, hlost.2.1, hlost.2.2⟩

end Scheduler

end HotBatch
