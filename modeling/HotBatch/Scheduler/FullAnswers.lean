import HotBatch.Scheduler.Answers
import HotBatch.Scheduler.Draining
import HotBatch.Scheduler.FaultIsolation
import HotBatch.Scheduler.Settlement

/-!
# Everybody gets the whole answer

A scheduler that is left alone with its requests comes to rest, and then every request that it could
serve has its whole private answer on its channel. No error has gone out, because nobody's prompt
was at fault and the queue was never closed; the terminal item has gone out, because the scheduler is
done with the channel; and what is on the channel begins the private answer.
-/

namespace HotBatch

/-- A channel that carries a terminal item and no error carries the whole answer. -/
theorem Begins.eq_of_terminal {tokens : List Token} {last : FinishReason} {items : List StreamItem}
    (hbegins : Begins (tokens.map .token ++ [.finished last]) items)
    (hterminal : items.countP StreamItem.isTerminal = 1)
    (herrors : ∀ message, .error message ∉ items) :
    items = tokens.map .token ++ [.finished last] := by
  obtain ⟨item, hitem, hlast⟩ : ∃ item ∈ items, item.isTerminal = true := by
    apply List.countP_pos_iff.mp
    omega
  cases item with
  | token _ => cases hlast
  | finished reason => exact hbegins.eq_of_finished hitem
  | error message => exact absurd hitem (herrors message)

namespace Scheduler

variable {α : Type} [Kernels α] {scheduler : Scheduler α} {s s' : State α}

/-! ## The queue is open until the shutdown -/

/-- The scheduler only leaves for good when it has seen the token. -/
theorem shutdown_of_closeQueue {late : List ClientId} (hstep : SchedStep scheduler late s s')
    (hpc' : s'.pc = .closeQueue) : s.shutdown = true := by
  cases hstep with
  | stop _ hshutdown => exact hshutdown
  | @endLoop site _ _ => cases site <;> cases hpc'
  | @responseDone site _ _ _ _ => cases site <;> cases hpc'
  | @closed site _ _ _ => cases site <;> cases hpc'
  | @stillOpen site _ _ _ => cases site <;> cases hpc'
  | tryPop _ _ =>
      unfold tryPop at hpc'
      split at hpc' <;> cases hpc'
  | admitRequest _ =>
      unfold admitRequest at hpc'
      split at hpc'
      · cases hpc'
      · split at hpc' <;> cases hpc'
  | prefill _ =>
      unfold prefill at hpc'
      split at hpc' <;> cases hpc'
  | evict _ =>
      unfold evictAt at hpc'
      split at hpc'
      · change (if _ then Pc.idleCheck else Pc.forward) = _ at hpc'
        split at hpc' <;> cases hpc'
      · cases hpc'
  | forward _ =>
      unfold forward at hpc'
      split at hpc' <;> cases hpc'
  | failBatch _ =>
      unfold failBatchAt at hpc'
      split at hpc' <;> cases hpc'
  | sampleToken _ =>
      unfold sampleToken at hpc'
      split at hpc'
      · cases hpc'
      · split at hpc'
        · cases hpc'
        · split at hpc'
          · cases hpc'
          · dsimp only at hpc'
            split at hpc' <;> cases hpc'
  | sendItems _ =>
      unfold sendItems at hpc'
      split at hpc' <;> cases hpc'
  | answerQueued _ =>
      unfold answerQueued at hpc'
      split at hpc' <;> cases hpc'
  | answerRunning _ =>
      unfold answerRunning at hpc'
      split at hpc' <;> cases hpc'
  | enter _ | responseWanted _ _ _ | full _ | park _ _ | resume _ | wake _ _ | closeQueue _ =>
      cases hpc'

/-- As long as the server is not shut down, the queue is open and stays so. -/
def State.StaysOpen (s : State α) : Prop :=
  s.shutdown = false → s.queue.closed = false ∧ s.pc ≠ .closeQueue

theorem staysOpen_step {action : Action α} (hopen : s.StaysOpen)
    (hstep : step scheduler action s = some s') : s'.StaysOpen := by
  intro hshutdown'
  cases step_cases hstep with
  | @sched late _ hsched =>
      have hshutdown : s.shutdown = false := (shutdown_next hstep).symm.trans hshutdown'
      obtain ⟨hclosed, hpc⟩ := hopen hshutdown
      refine ⟨?_, fun hpc' ↦ ?_⟩
      · rcases frame_schedStep hsched with hframe | ⟨-, rfl⟩ | ⟨hpc', -⟩
        · rw [hframe.queue_eq]
          exact hclosed
        · unfold tryPop
          rcases s.queue.tryPop_cases (s.isOpen late) with ⟨hpop, -⟩ | ⟨req, rest, hpop, -⟩
          · rw [hpop]
            exact hclosed
          · rw [hpop]
            exact hclosed
        · exact absurd hpc' hpc
      · rw [shutdown_of_closeQueue hsched hpc'] at hshutdown
        cases hshutdown
  | schedShutdown _ hshutdown =>
      exact absurd (hshutdown.symm.trans hshutdown') (by decide)
  | refuse _ _ | notify _ | client _ => exact hopen hshutdown'
  | accept _ _ _ => exact hopen hshutdown'
  | shutdown => cases hshutdown'

theorem staysOpen_reachable {kvCache : SlabKvCache (KvTensor α)} {maxDepth : ℕ}
    {capacity : ClientId → ℕ} {allowed : State α → Action α → Prop}
    (hreach : Reaches scheduler allowed (init kvCache maxDepth capacity) s) : s.StaysOpen := by
  refine hreach.invariant (fun _ _ _ _ hbefore _ hnext ↦ staysOpen_step hbefore hnext) ?_
  exact fun _ ↦ ⟨rfl, nofun⟩

/-! ## Every request is discharged -/

theorem accepted_subset_of_step {action : Action α} (hstep : step scheduler action s = some s') :
    s.history.accepted ⊆ s'.history.accepted := by
  cases step_cases hstep with
  | sched hsched =>
      rw [(effect_schedStep hsched).accepted_eq]
      exact List.Subset.refl _
  | accept _ _ _ => exact List.subset_append_left _ _
  | schedShutdown _ _ | refuse _ _ | notify _ | client _ | shutdown => exact List.Subset.refl _

/-- **An accepted request is discharged**, since no other request comes with its channel. -/
theorem discharged_of_owns {maxSeqs maxSeqLen numLayers nHeads headDim maxDepth : ℕ}
    {capacity : ClientId → ℕ} {req : GenerationRequest α}
    (hreach : Reaches scheduler Anything
      (init (.new maxSeqs maxSeqLen numLayers nHeads headDim) maxDepth capacity) s)
    (howns : Owns req s) : Discharged req s := by
  induction hreach with
  | refl =>
      rintro (⟨entry, hentry, -⟩ | ⟨seq, hseq, -⟩)
      · exact absurd hentry List.not_mem_nil
      · exact absurd hseq List.not_mem_nil
  | step hbefore _ hnext ih =>
      have hownsBefore : Owns req _ := fun other hother ↦
        howns other (accepted_subset_of_step hnext hother)
      exact discharged_step (books_reachable hbefore) (slots_reachable hbefore)
        (placed_reachable hbefore) (following_reachable hbefore) hownsBefore (ih hownsBefore) hnext

omit [Kernels α] in
/-- A scheduler that has nothing left has dropped the sender of every request. -/
theorem resolved_of_idle (hbooks : Books s) (hpc : s.pc = .parked ∨ s.pc = .returned)
    (hempty : s.queue.requests = [] ∧ s.running = []) {req : GenerationRequest α}
    (hreq : req ∈ s.history.accepted) : ∃ entry ∈ s.history.resolved, entry.client = req.client := by
  have hplaces : s.places = s.history.resolved.map Resolved.client := by
    unfold State.places
    rw [hempty.1, hempty.2]
    rcases hpc with hpc | hpc <;> rw [hpc] <;> rfl
  have hmem : req.client ∈ s.places :=
    hbooks.places_perm.mem_iff.mpr (List.mem_map_of_mem hreq)
  rw [hplaces] at hmem
  exact List.mem_map.mp hmem

/-- **Who has waited gets an answer.** A request that the scheduler is done with has exactly one
terminal item on its channel, and what comes before it begins its private answer. -/
theorem answered_of_resolved {maxSeqs maxSeqLen numLayers nHeads headDim maxDepth : ℕ}
    {capacity : ClientId → ℕ}
    (hreach : Reaches scheduler Anything
      (init (.new maxSeqs maxSeqLen numLayers nHeads headDim) maxDepth capacity) s)
    {req : GenerationRequest α} (hreq : req ∈ s.history.accepted) {entry : Resolved α}
    (hentry : entry ∈ s.history.resolved) (hclient : entry.client = req.client)
    (hample : (s.clients req.client).Ample req.maxNewTokens)
    (hwanted : (s.clients req.client).responseDone = false) :
    (s.clients req.client).sent.countP StreamItem.isTerminal = 1 ∧
      Begins (privateAnswer scheduler.model req) (s.clients req.client).sent := by
  have hbooks := books_reachable hreach
  have howns : Owns req s := fun other hother hsame ↦
    List.inj_on_of_nodup_map hbooks.nodup hother hreq hsame
  have hended := discharged_of_owns hreach howns (Or.inl ⟨entry, hentry, hclient⟩)
  have houtgoing : (s.view req.client).outgoing = (s.clients req.client).sent := by
    unfold State.view
    rw [← hclient, hbooks.inFlight_of_resolved hentry, List.append_nil]
  have hterminal := (hended.terminal hample).resolve_left (by simp [hwanted])
  have hbegins := begins_reachable hreach hreq
  rw [houtgoing] at hterminal hbegins
  exact ⟨hterminal, hbegins⟩

/-- What is known of a request that the scheduler is done with, without an error on its channel. -/
theorem sent_eq_privateAnswer {maxSeqs maxSeqLen numLayers nHeads headDim maxDepth : ℕ}
    {capacity : ClientId → ℕ}
    (hreach : Reaches scheduler Anything
      (init (.new maxSeqs maxSeqLen numLayers nHeads headDim) maxDepth capacity) s)
    {req : GenerationRequest α} (hreq : req ∈ s.history.accepted) {entry : Resolved α}
    (hentry : entry ∈ s.history.resolved) (hclient : entry.client = req.client)
    (hample : (s.clients req.client).Ample req.maxNewTokens)
    (hwanted : (s.clients req.client).responseDone = false)
    (herrors : ∀ message, .error message ∉ (s.clients req.client).sent) :
    (s.clients req.client).sent = privateAnswer scheduler.model req := by
  obtain ⟨hterminal, hbegins⟩ := answered_of_resolved hreach hreq hentry hclient hample hwanted
  obtain ⟨reason, -, hanswer⟩ := exists_privateAnswer_eq scheduler.model hample.limit_pos
  rw [hanswer] at hbegins ⊢
  exact hbegins.eq_of_terminal hterminal herrors

/-! ## The scheduler comes to rest -/

/-- The scheduler alone takes steps. -/
def Alone : State α → Action α → Prop := fun _ action ↦ action = .sched []

variable {maxSeqs maxSeqLen numLayers nHeads headDim maxDepth : ℕ} {capacity : ClientId → ℕ}

theorem exists_parked (hrunning : 1 ≤ scheduler.config.maxRunningSeqs) (hcache : 1 ≤ maxSeqs)
    (hreach : Reachable scheduler maxSeqs maxSeqLen numLayers nHeads headDim maxDepth capacity s)
    (hdraining : Draining scheduler s) : ∃ s', Reaches scheduler Alone s s' ∧ s'.pc = .parked := by
  refine Transition.exists_reaches_final (wellFounded_lt (α := _)) State.rank ?_
  intro mid hmid hnotParked
  have hundisturbed : Reaches scheduler Undisturbed s mid := by
    apply hmid.mono
    rintro _ _ rfl
    trivial
  obtain ⟨hreachMid, hdrainingMid, -⟩ :=
    draining_reaches hrunning hcache hreach hdraining hundisturbed
  cases hnext : next scheduler [] mid with
  | none => exact absurd (parked_of_stuck hdrainingMid hnext) hnotParked
  | some after =>
      obtain ⟨-, hlt⟩ := draining_sched hrunning hcache hreachMid hdrainingMid hnext
      exact ⟨.sched [], after, rfl, hnext, hlt⟩

/-- **Everybody gets the whole answer.** From the head of the loop in any state without a shutdown,
reached by submissions that all end within the vocabulary: the scheduler alone comes to rest, and
whenever it rests without having been disturbed, every accepted request that fits the limits and whose
prompt the model accepts has its private answer on its channel, the whole of it and nothing else, if
the channel has room for the limit and one more, the receiver is open and `response_done` is not
set. -/
theorem drained_requests_answered (scheduler : Scheduler α) (maxSeqs maxSeqLen maxDepth : ℕ)
    (capacity : ClientId → ℕ) (hrunning : 1 ≤ scheduler.config.maxRunningSeqs)
    (hcache : 1 ≤ maxSeqs) :
    ∀ s, Reaches scheduler (EndsAccepted scheduler) (init (.new maxSeqs maxSeqLen
        scheduler.model.kvShape.1 scheduler.model.kvShape.2.1 scheduler.model.kvShape.2.2) maxDepth
          capacity) s →
      s.pc = .loopHead → s.shutdown = false →
      (∃ s', Reaches scheduler Alone s s' ∧ s'.pc = .parked) ∧
      ∀ s', Reaches scheduler Undisturbed s s' → s'.pc = .parked →
        ∀ req ∈ s'.history.accepted, Admitted scheduler maxSeqLen req →
          scheduler.model.AcceptsPrompt req.promptTokens →
          req.maxNewTokens < capacity req.client →
          (s'.clients req.client).receiverOpen = true →
          (s'.clients req.client).responseDone = false →
          (s'.clients req.client).sent = privateAnswer scheduler.model req := by
  intro s hreach hpc hshutdown
  have hanything := hreach.mono fun _ _ _ ↦ (trivial : Anything _ _)
  have hdraining := draining_loopHead scheduler hpc hshutdown
  refine ⟨exists_parked hrunning hcache hanything hdraining, ?_⟩
  intro s' hrun hparked req hreq hadmitted haccepts hroom hreceiver hwanted
  have hquiet : Reaches scheduler (EndsAccepted scheduler) s s' := by
    apply hrun.mono
    intro before action hundisturbed
    cases action with
    | submit _ _ => exact hundisturbed.elim
    | sched _ | schedShutdown | notify | client _ _ | shutdown => trivial
  have hends := hreach.trans hquiet
  obtain ⟨hreach', hdraining', -⟩ := draining_reaches hrunning hcache hanything hdraining hrun
  have hempty : s'.queue.requests = [] ∧ s'.running = [] := by
    have hsettled := hdraining'.settled
    rw [hparked] at hsettled
    exact hsettled
  have hbooks := books_reachable hreach'
  obtain ⟨entry, hentry, hclient⟩ := resolved_of_idle hbooks (Or.inl hparked) hempty hreq
  have hample : (s'.clients req.client).Ample req.maxNewTokens := by
    refine ⟨hadmitted.admissible.maxNew_pos, ?_, hreceiver⟩
    rwa [capacity_reachable hreach']
  apply sent_eq_privateAnswer hreach' hreq hentry hclient hample hwanted
  intro message hmem
  obtain ⟨hopen, -⟩ := staysOpen_reachable hreach' hdraining'.noShutdown
  rcases (isolated_reachable hends).errors _ _ hmem with ⟨-, hclosed⟩ | ⟨other, hother, hsame, hfault⟩
  · exact absurd (hopen.symm.trans hclosed) (by decide)
  · obtain rfl : other = req := List.inj_on_of_nodup_map hbooks.nodup hother hreq hsame
    exact hfault.elim (fun hrefused ↦ hrefused hadmitted) fun hrejected ↦ hrejected haccepts

/-- Three requests have been submitted, of which the last one asks for more than the limit. -/
def tinyAsked : State ℚ :=
  (Transition.run (step tinyGpt2Scheduler) (EndsKnown tinyGpt2Scheduler)
    [.submit ⟨"a", [1], shareConfig 8 2, 0, 0, 0⟩ [],
      .submit ⟨"b", [0, 1], shareConfig 7 4, 1, 0, 0⟩ [],
      .submit ⟨"c", [1, 1], shareConfig 9 9, 2, 0, 0⟩ []] tinyGpt2Start).getD tinyGpt2Start

/-- The scheduler has come to rest. -/
def tinyRested : State ℚ :=
  (Transition.run (step tinyGpt2Scheduler) Undisturbed (List.replicate 97 (.sched []))
    tinyAsked).getD tinyAsked

theorem drained_requests_answered_tinyRested :
    tinyRested.history.accepted.map GenerationRequest.client = [0, 1, 2] ∧
      tinyRested.metrics.sharedDecodeSteps = 2 ∧
      (∀ req ∈ tinyRested.history.accepted, req.client ∈ [0, 1] →
        (tinyRested.clients req.client).sent = privateAnswer (.gpt2 tinyGpt2) req) ∧
      (tinyRested.clients 0).sent = [.token 0, .token 0, .finished .length] ∧
      (tinyRested.clients 1).sent =
        [.token 0, .token 1, .token 0, .token 1, .finished .length] := by
  have hsubmitted : Reaches tinyGpt2Scheduler (EndsAccepted tinyGpt2Scheduler) tinyGpt2Start
      tinyAsked := by
    apply (Transition.reaches_getD_run (by decide +kernel) tinyGpt2Start).mono
    intro s action hends
    cases action with
    | submit req late => exact fun _ _ ↦ hends
    | _ => trivial
  have hrun : Reaches tinyGpt2Scheduler Undisturbed tinyAsked tinyRested :=
    Transition.reaches_getD_run (by decide +kernel) tinyAsked
  have hparked : tinyRested.pc = .parked := by
    have hstuck : next tinyGpt2Scheduler [] tinyRested = none :=
      Option.isNone_iff_eq_none.mp (by decide +kernel)
    have hanything := hsubmitted.mono fun _ _ _ ↦ (trivial : Anything _ _)
    obtain ⟨-, hdraining, -⟩ := draining_reaches (by decide) (by decide) hanything
      (draining_loopHead tinyGpt2Scheduler rfl rfl) hrun
    exact parked_of_stuck hdraining hstuck
  have hfits : ∀ req ∈ tinyRested.history.accepted, req.client ∈ [0, 1] →
      validateRequest tinyGpt2Scheduler tinyRested.kvCache req = .ok () ∧
        (req.promptTokens = [1] ∨ req.promptTokens = [0, 1]) ∧ req.maxNewTokens < 5 ∧
        (tinyRested.clients req.client).receiverOpen = true ∧
        (tinyRested.clients req.client).responseDone = false := by decide +kernel
  have hmaxLen : tinyRested.kvCache.maxSeqLen = 8 := by decide +kernel
  refine ⟨by decide +kernel, by decide +kernel, ?_, by decide +kernel, by decide +kernel⟩
  intro req hreq hclient
  obtain ⟨hvalid, hprompt, hroom, hreceiver, hwanted⟩ := hfits req hreq hclient
  have hadmitted : Admitted tinyGpt2Scheduler 8 req :=
    hmaxLen ▸ validateRequest_eq_ok.mp hvalid
  have haccepts : tinyGpt2Scheduler.model.AcceptsPrompt req.promptTokens := by
    rcases hprompt with hprompt | hprompt
    · rw [hprompt]
      exact ⟨by decide, Or.inl rfl⟩
    · rw [hprompt]
      exact ⟨by decide, Or.inr ⟨_, rfl⟩⟩
  exact (drained_requests_answered tinyGpt2Scheduler 2 8 4 (fun _ ↦ 5) (by decide) (by decide)
    tinyAsked hsubmitted rfl rfl).2 tinyRested hrun hparked req hreq hadmitted haccepts hroom
      hreceiver hwanted

end Scheduler

end HotBatch
