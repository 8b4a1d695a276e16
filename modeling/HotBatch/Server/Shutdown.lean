import HotBatch.Server.Service

/-!
# Shutting the service down

After the operator has asked for it, and as long as no new call comes in, every step of a handler, of
the scheduler and of the task around it brings the service closer to its end; what the connections do
in between is no setback. When nothing of the service can move, it is down: the flag is taken back,
the scheduler has returned with all its slots free, every handler has failed or handed its request
over, and who was handed over has been answered.
-/

namespace HotBatch.Service

variable {α : Type}

/-! ## The rank of the service -/

def Stage.left : Stage α → ℕ
  | received => 5
  | checking _ _ => 4
  | rechecking _ _ => 3
  | enqueuing _ _ => 2
  | notifying _ _ | classifying => 1
  | failed _ | serving _ _ => 0

/-- The steps that the handlers have still to take. -/
def left (calls : List (Call α)) : ℕ := (calls.map fun call ↦ call.stage.left).sum

def State.rank (s : State α) : ℕ ×ₗ (ℕ ×ₗ ℕ ×ₗ (ℕ ×ₗ ℕ ×ₗ ℕ ×ₗ ℕ ×ₗ ℕ)) ×ₗ ℕ :=
  toLex (left s.calls, toLex (s.engine.stopRank, if s.alive then 1 else 0))

theorem left_set_lt {calls : List (Call α)} {client : ClientId} {call call' : Call α}
    (hcall : calls[client]? = some call) (hless : call'.stage.left < call.stage.left) :
    left (calls.set client call') < left calls := by
  induction calls generalizing client with
  | nil => cases List.getElem?_nil.symm.trans hcall
  | cons first rest ih =>
      cases client with
      | zero =>
          obtain rfl : first = call := Option.some.inj hcall
          exact Nat.add_lt_add_right hless _
      | succ client => exact Nat.add_lt_add_left (ih hcall) _

variable [Kernels α] [FiniteCheck α]

section Steps

variable {scheduler : Scheduler α} {app : AppState α} {s s' : State α}

theorem left_handled {client : ClientId} {alive : Bool} {engine engine' : Scheduler.State α}
    {call call' : Call α} (hhandled : Handled scheduler app client alive engine call call' engine') :
    call'.stage.left < call.stage.left := by
  cases hhandled with
  | dead hstage _ =>
      rcases hstage with ⟨_, _, hstage⟩ | ⟨_, _, hstage⟩ <;> rw [hstage]
      · exact (by decide : 0 < 4)
      · exact (by decide : 0 < 3)
  | invalid hstage _ =>
      rw [hstage]
      exact (by decide : 0 < 5)
  | valid hstage _ =>
      rw [hstage]
      exact (by decide : 4 < 5)
  | unbuilt hstage _ =>
      rw [hstage]
      exact (by decide : 0 < 4)
  | built hstage _ =>
      rw [hstage]
      exact (by decide : 3 < 4)
  | alive hstage _ =>
      rw [hstage]
      exact (by decide : 2 < 3)
  | accepted hstage _ _ _ _ | refused hstage _ _ _ =>
      rw [hstage]
      exact (by decide : 1 < 2)
  | notified hstage _ | classified hstage =>
      rw [hstage]
      exact (by decide : 0 < 1)

/-- The steps of the service itself. -/
def Own : Action α → Prop
  | .handler _ _ | .engine _ | .engineShutdown | .engineEnded => True
  | .call _ _ | .connection _ _ | .shutdown => False

/-- No new call comes in. -/
def NoCalls (_ : State α) : Action α → Prop
  | .call _ _ => False
  | .handler _ _ | .engine _ | .engineShutdown | .engineEnded | .connection _ _ | .shutdown => True

/-- The steps of the others alone. -/
def Meanwhile (_ : State α) : Action α → Prop
  | .connection _ _ | .shutdown => True
  | .call _ _ | .handler _ _ | .engine _ | .engineShutdown | .engineEnded => False

variable {maxSeqs maxSeqLen numLayers nHeads headDim maxDepth : ℕ} {capacity : ClientId → ℕ}

/-- **After the request to shut down every step of the service lowers its rank.** -/
theorem rank_own {action : Action α}
    (hreach : Reachable scheduler app maxSeqs maxSeqLen numLayers nHeads headDim maxDepth capacity s)
    (hshutdown : s.engine.shutdown = true) (hown : Own action)
    (hstep : step scheduler app action s = some s') : s'.rank < s.rank := by
  have hengine := engine_reachable hreach
  cases step_cases hstep with
  | call _ => exact hown.elim
  | handler hcall hhandled =>
      exact Prod.Lex.toLex_lt_toLex.mpr (Or.inl (left_set_lt hcall (left_handled hhandled)))
  | @engine _ inner engine' hinner hinnerStep =>
      have hfalls : engine'.stopRank < s.engine.stopRank := by
        cases action with
        | engine late =>
            obtain rfl := Option.some.inj hinner
            exact Scheduler.stopRank_next (fun _ ↦ hshutdown) (Scheduler.slots_reachable hengine)
              (Scheduler.placed_reachable hengine) (Scheduler.following_reachable hengine) hinnerStep
        | engineShutdown =>
            obtain rfl := Option.some.inj hinner
            exact Scheduler.stopRank_nextShutdown hinnerStep
        | handler _ _ | engineEnded => cases hinner
        | call _ _ | connection _ _ | shutdown => exact hown.elim
      exact Prod.Lex.toLex_lt_toLex'.mpr ⟨Nat.le_refl _, fun _ ↦
        Prod.Lex.toLex_lt_toLex.mpr (Or.inl hfalls)⟩
  | ended _ halive =>
      refine Prod.Lex.toLex_lt_toLex'.mpr ⟨Nat.le_refl _, fun _ ↦
        Prod.Lex.toLex_lt_toLex'.mpr ⟨le_refl _, fun _ ↦ ?_⟩⟩
      change 0 < if s.alive = true then 1 else 0
      rw [halive]
      exact Nat.one_pos

/-- What the others do is no setback. -/
theorem rank_meanwhile {action : Action α} (hmeanwhile : Meanwhile s action)
    (hstep : step scheduler app action s = some s') : s'.rank = s.rank := by
  have hsame : ∀ {engine' : Scheduler.State α}, engine'.stopRank = s.engine.stopRank →
      ({ s with engine := engine' } : State α).rank = s.rank := by
    intro engine' heq
    unfold State.rank
    rw [heq]
  cases step_cases hstep with
  | call _ | handler _ _ | ended _ _ => exact hmeanwhile.elim
  | @engine _ inner engine' hinner hinnerStep =>
      apply hsame
      cases action with
      | connection client action =>
          obtain rfl := Option.some.inj hinner
          cases Scheduler.step_cases hinnerStep with
          | client _ => exact Scheduler.stopRank_congr rfl rfl rfl rfl rfl
      | shutdown =>
          obtain rfl := Option.some.inj hinner
          cases Scheduler.step_cases hinnerStep with
          | shutdown => exact Scheduler.stopRank_congr rfl rfl rfl rfl rfl
      | call _ _ | handler _ _ | engine _ | engineShutdown | engineEnded => exact hmeanwhile.elim

theorem meanwhile_reaches
    (hreach : Reachable scheduler app maxSeqs maxSeqLen numLayers nHeads headDim maxDepth capacity s)
    (hshutdown : s.engine.shutdown = true) (hrun : Reaches scheduler app Meanwhile s s') :
    Reachable scheduler app maxSeqs maxSeqLen numLayers nHeads headDim maxDepth capacity s' ∧
      s'.engine.shutdown = true ∧ s'.rank = s.rank := by
  induction hrun with
  | refl => exact ⟨hreach, hshutdown, rfl⟩
  | step _ hmeanwhile hnext ih =>
      obtain ⟨hbefore, hset, heq⟩ := ih
      exact ⟨hbefore.step trivial hnext, (step_cases hnext).lasts.shutdown hset,
        (rank_meanwhile hmeanwhile hnext).trans heq⟩

/-- **A shutdown does not go on for ever.** -/
theorem shutdown_ends
    (hreach : Reachable scheduler app maxSeqs maxSeqLen numLayers nHeads headDim maxDepth capacity s)
    (hshutdown : s.engine.shutdown = true) {states : ℕ → State α} (hstart : states 0 = s)
    (hsteps : ∀ i, ∃ mid action, Reaches scheduler app Meanwhile (states i) mid ∧ Own action ∧
      step scheduler app action mid = some (states (i + 1))) : False := by
  have hfalls : ∀ i,
      Reachable scheduler app maxSeqs maxSeqLen numLayers nHeads headDim maxDepth capacity (states i) →
      (states i).engine.shutdown = true →
      Reachable scheduler app maxSeqs maxSeqLen numLayers nHeads headDim maxDepth capacity
          (states (i + 1)) ∧
        (states (i + 1)).engine.shutdown = true ∧ (states (i + 1)).rank < (states i).rank := by
    intro i hreach hshutdown
    obtain ⟨mid, action, hrun, hown, hstep⟩ := hsteps i
    obtain ⟨hreachMid, hshutdownMid, heq⟩ := meanwhile_reaches hreach hshutdown hrun
    refine ⟨hreachMid.step trivial hstep, (step_cases hstep).lasts.shutdown hshutdownMid, ?_⟩
    rw [← heq]
    exact rank_own hreachMid hshutdownMid hown hstep
  have hkept : ∀ i,
      Reachable scheduler app maxSeqs maxSeqLen numLayers nHeads headDim maxDepth capacity (states i) ∧
        (states i).engine.shutdown = true := by
    intro i
    induction i with
    | zero => exact hstart ▸ ⟨hreach, hshutdown⟩
    | succ i ih =>
        obtain ⟨hreachNext, hshutdownNext, -⟩ := hfalls i ih.1 ih.2
        exact ⟨hreachNext, hshutdownNext⟩
  exact not_strictAnti_of_wellFoundedLT (fun i ↦ (states i).rank)
    (strictAnti_nat_of_succ_lt fun i ↦ (hfalls i (hkept i).1 (hkept i).2).2.2)

end Steps

/-! ## Where the service comes to rest -/

section Rest

variable {scheduler : Scheduler α} {app : AppState α} {s : State α}
  {maxSeqs maxSeqLen numLayers nHeads headDim maxDepth : ℕ} {capacity : ClientId → ℕ}

/-- A call that has come to its end, as far as `submit_prompt` is concerned. -/
def Call.Settled (call : Call α) : Prop :=
  (∃ err, call.stage = .failed err) ∨ ∃ params submission, call.stage = .serving params submission

omit [Kernels α] [FiniteCheck α] in
theorem exists_submit {req : GenerationRequest α} {engine : Scheduler.State α} (late : List ClientId)
    (hfresh : req.client ∉ engine.history.refused ∧
      req.client ∉ engine.history.accepted.map GenerationRequest.client) :
    ∃ after, Scheduler.submit req late engine = some after := by
  unfold Scheduler.submit
  rw [if_neg (not_or.mpr hfresh)]
  dsimp only
  rcases RequestQueue.submit_cases (engine.isOpen late) req engine.queue with ⟨hqueue, -⟩ | ⟨hqueue, -⟩
  · rw [hqueue]
    exact ⟨_, rfl⟩
  · rw [hqueue]
    exact ⟨_, rfl⟩

/-- **A handler never waits for anybody.** -/
theorem exists_handle (scheduler : Scheduler α) (hlinked : Linked app maxDepth s) {client : ClientId} {call : Call α}
    (hcall : s.calls[client]? = some call) (hsettled : ¬ call.Settled) :
    ∃ after, handle scheduler app client [] s.alive s.engine call = some after := by
  unfold handle
  cases hstage : call.stage with
  | received =>
      dsimp only
      split <;> exact ⟨_, rfl⟩
  | checking prompt params =>
      dsimp only
      split
      · split <;> exact ⟨_, rfl⟩
      · exact ⟨_, rfl⟩
  | rechecking params submission =>
      dsimp only
      split <;> exact ⟨_, rfl⟩
  | enqueuing params submission =>
      obtain ⟨after, hsubmit⟩ := exists_submit [] (hlinked.fresh hcall hstage)
      dsimp only
      rw [hsubmit]
      exact ⟨_, rfl⟩
  | notifying params submission =>
      have hpending : s.engine.pendingNotifies ≠ 0 := by
        rw [hlinked.notifies]
        apply Nat.ne_of_gt
        exact List.countP_pos_iff.mpr
          ⟨call, List.mem_of_getElem? hcall, isNotifying_of_stage hstage⟩
      have hnotify : Scheduler.step scheduler .notify s.engine = some
          { s.engine with permit := true, pendingNotifies := s.engine.pendingNotifies - 1 } :=
        if_neg hpending
      dsimp only
      rw [hnotify]
      exact ⟨_, rfl⟩
  | classifying => exact ⟨_, rfl⟩
  | failed err => exact absurd (Or.inl ⟨err, hstage⟩) hsettled
  | serving params submission => exact absurd (Or.inr ⟨params, submission, hstage⟩) hsettled

/-- What a client that was served finds on its channel. -/
structure Answered (scheduler : Scheduler α) (s : State α) (req : GenerationRequest α) : Prop where
  resolved : req.client ∈ s.engine.history.resolved.map Resolved.client
  terminal : req.maxNewTokens ≤ 31 → (s.engine.clients req.client).receiverOpen = true →
    (s.engine.clients req.client).responseDone = false →
    (s.engine.clients req.client).sent.countP StreamItem.isTerminal = 1 ∧
      Begins (privateAnswer scheduler.model req) (s.engine.clients req.client).sent

/-- The service is down. -/
structure Stopped (scheduler : Scheduler α) (s : State α) : Prop where
  alive : s.alive = false
  returned : s.engine.pc = .returned
  running : s.engine.running = []
  slots : s.engine.kvCache.allocatedSlots = 0
  queue : s.engine.queue.closed = true ∧ s.engine.queue.requests = []
  calls : ∀ (client : ClientId) (call : Call α), s.calls[client]? = some call →
    (∃ err, call.stage = .failed err) ∨ ∃ params submission,
      call.stage = .serving params submission ∧ submission.request.client = client ∧
        Answered scheduler s submission.request

theorem returned_of_rest
    (hreach : Reachable scheduler app maxSeqs maxSeqLen numLayers nHeads headDim maxDepth capacity s)
    (hshutdown : s.engine.shutdown = true)
    (hrest : ∀ action, Own action → step scheduler app action s = none) :
    s.engine.pc = .returned := by
  have hstuck := Option.map_eq_none_iff.mp (hrest (.engine []) trivial)
  have hstuckShutdown := Option.map_eq_none_iff.mp (hrest .engineShutdown trivial)
  exact Scheduler.returned_of_stuck hshutdown (Scheduler.never_panicked (engine_reachable hreach))
    hstuck hstuckShutdown

omit [Kernels α] [FiniteCheck α] in
theorem settled_of_left {call : Call α} (hleft : call.stage.left = 0) : call.Settled := by
  cases hstage : call.stage with
  | failed err => exact Or.inl ⟨err, hstage⟩
  | serving params submission => exact Or.inr ⟨params, submission, hstage⟩
  | received | checking _ _ | rechecking _ _ | enqueuing _ _ | notifying _ _ | classifying =>
      rw [hstage] at hleft
      cases hleft

omit [Kernels α] [FiniteCheck α] in
theorem returned_of_stage {pc : Scheduler.Pc α} (hstage : pc.stage = 0) (hpc : pc ≠ .panicked) :
    pc = .returned := by
  cases pc with
  | returned => rfl
  | panicked => exact absurd rfl hpc
  | _ => cases hstage

/-- When the handlers have done their part, only the scheduler and its task could move. -/
theorem rest_of_settled (hnext : ∀ late, Scheduler.next scheduler late s.engine = none)
    (hnextShutdown : Scheduler.nextShutdown s.engine = none)
    (hended : s.engine.pc = .returned → s.alive = false)
    (hcalls : ∀ (client : ClientId) (call : Call α), s.calls[client]? = some call → call.Settled)
    (action : Action α) (hown : Own action) : step scheduler app action s = none := by
  cases action with
  | handler client late =>
      unfold step
      dsimp only
      cases hcall : s.calls[client]? with
      | none => rfl
      | some call =>
          dsimp only
          unfold handle
          rcases hcalls client call hcall with ⟨err, hstage⟩ | ⟨params, submission, hstage⟩ <;>
            rw [hstage] <;> rfl
  | engine late => exact Option.map_eq_none_iff.mpr (hnext late)
  | engineShutdown => exact Option.map_eq_none_iff.mpr hnextShutdown
  | engineEnded =>
      unfold step
      dsimp only
      split
      · rename_i hreturned
        rw [hended hreturned]
        rfl
      · rfl
  | call _ _ | connection _ _ | shutdown => exact hown.elim

theorem alive_of_rest (hpc : s.engine.pc = .returned)
    (hrest : ∀ action, Own action → step scheduler app action s = none) : s.alive = false := by
  have hended := hrest .engineEnded trivial
  unfold step at hended
  dsimp only at hended
  rw [hpc] at hended
  dsimp only at hended
  split at hended
  · cases hended
  · rename_i halive
    exact Bool.not_eq_true _ ▸ halive

theorem settled_of_rest (hlinked : Linked app maxDepth s)
    (hrest : ∀ action, Own action → step scheduler app action s = none) {client : ClientId}
    {call : Call α} (hcall : s.calls[client]? = some call) : call.Settled := by
  by_contra hsettled
  obtain ⟨after, hhandle⟩ := exists_handle scheduler hlinked hcall hsettled
  have hstuck := hrest (.handler client []) trivial
  unfold step at hstuck
  dsimp only at hstuck
  rw [hcall] at hstuck
  dsimp only at hstuck
  rw [hhandle] at hstuck
  cases hstuck

/-- The channel of a call has the size that its request asks for. -/
theorem fits_reachable
    (hreach : Reachable scheduler app maxSeqs maxSeqLen numLayers nHeads headDim maxDepth capacity s) :
    ∀ (client : ClientId) (call : Call α), s.calls[client]? = some call →
      fits app call.request (capacity client) = true := by
  induction hreach with
  | refl =>
      intro client call hcall
      cases List.getElem?_nil.symm.trans hcall
  | @step before after action hbefore _ hnext ih =>
      cases step_cases hnext with
      | @call id request hfits =>
          intro client call hcall
          rw [List.getElem?_append] at hcall
          split at hcall
          · exact ih client call hcall
          · rename_i hlength
            have hnew := (List.getElem?_eq_some_iff.mp hcall).1
            rw [List.length_singleton, Nat.lt_one_iff] at hnew
            obtain rfl := List.mem_singleton.mp (List.mem_of_getElem? hcall)
            obtain rfl : client = before.calls.length :=
              Nat.le_antisymm (Nat.sub_eq_zero_iff_le.mp hnew) (Nat.not_lt.mp hlength)
            rwa [Scheduler.capacity_reachable (engine_reachable hbefore)] at hfits
      | handler hcalled hhandled =>
          intro client call hcall
          rw [getElem?_calls_set _ _ hcalled] at hcall
          split at hcall
          · rename_i heq
            obtain rfl := Option.some.inj hcall
            rw [hhandled.request_eq, heq]
            exact ih _ _ hcalled
          · exact ih client call hcall
      | engine _ _ | ended _ _ => exact ih

/-- A request of at most 31 tokens has room for its whole answer. -/
theorem room_of_made {client : ClientId} {call : Call α} {params : SubmitParams α}
    {submission : Submission α} (hfits : fits app call.request (capacity client) = true)
    (hmade : call.Made app client params submission) (hshort : submission.request.maxNewTokens ≤ 31) :
    0 < submission.request.maxNewTokens ∧ submission.request.maxNewTokens < capacity client := by
  obtain ⟨prompt, hinput, hbuild⟩ := hmade
  obtain ⟨options, hvalid⟩ := validated_of_input hinput
  have hlimit := (built_of_buildRequest hbuild).maxNewTokens_eq
  have hpos := (maxTokens_of_validateOptions hvalid).1
  unfold fits at hfits
  rw [hinput] at hfits
  have hcapacity : capacity client = max 2 (min (params.maxTokens + 1) responseChannelCapacity) :=
    beq_iff_eq.mp hfits
  unfold responseChannelCapacity at hcapacity
  omega

end Rest

/-- **A shutdown completes.** Take any state that the service can be in when the operator has asked it
to shut down. From there the service does not take steps for ever, whatever connections do meanwhile,
and when no new call comes in and nothing of it can move, it is down: every handler has failed or
handed its request over, the scheduler has returned with no slot allocated and its queue closed and
empty, and every request that was handed over has lost its sender; if it asked for at most 31 tokens,
its receiver is open and `response_done` is not set, its channel has exactly one terminal item and
begins the private answer of the request. -/
theorem graceful_shutdown (scheduler : Scheduler α) (app : AppState α)
    (maxSeqs maxSeqLen numLayers nHeads headDim maxDepth : ℕ) (capacity : ClientId → ℕ) :
    ∀ s, Reachable scheduler app maxSeqs maxSeqLen numLayers nHeads headDim maxDepth capacity s →
      s.engine.shutdown = true →
      (¬ ∃ states : ℕ → State α, states 0 = s ∧ ∀ i, ∃ mid action,
        Reaches scheduler app Meanwhile (states i) mid ∧ Own action ∧
          step scheduler app action mid = some (states (i + 1))) ∧
      ∀ s', Reaches scheduler app NoCalls s s' →
        (∀ action, Own action → step scheduler app action s' = none) → Stopped scheduler s' := by
  intro s hreach hshutdown
  refine ⟨fun ⟨states, hstart, hsteps⟩ ↦ shutdown_ends hreach hshutdown hstart hsteps, ?_⟩
  intro s' hrun hrest
  have hreach' : Reachable scheduler app maxSeqs maxSeqLen numLayers nHeads headDim maxDepth capacity
      s' := hreach.trans (hrun.mono fun _ _ _ ↦ trivial)
  have hshutdown' : s'.engine.shutdown = true := (lasts_reaches hrun).shutdown hshutdown
  have hlinked := linked_reachable hreach'
  have hengine := engine_reachable hreach'
  have hreturned := returned_of_rest hreach' hshutdown' hrest
  have hplaced := Scheduler.placed_reachable hengine
  rw [hreturned] at hplaced
  obtain ⟨hqueue, hrunning⟩ := hplaced
  refine ⟨alive_of_rest hreturned hrest, hreturned, hrunning, ?_, hqueue, ?_⟩
  · have hallocated := Scheduler.allocatedSlots_eq (Scheduler.slots_reachable hengine)
      (by rw [hreturned]; rfl)
    rw [hallocated, hrunning]
    rfl
  · intro client call hcall
    refine (settled_of_rest hlinked hrest hcall).imp_right ?_
    rintro ⟨params, submission, hstage⟩
    obtain ⟨hmade, hclient, haccepted⟩ :=
      (hlinked.calls client call hcall).handedOver (Or.inr hstage)
    obtain ⟨entry, hentry, hsame⟩ := Scheduler.resolved_of_idle (Scheduler.books_reachable hengine)
      (Or.inr hreturned) ⟨hqueue.2, hrunning⟩ haccepted
    refine ⟨params, submission, hstage, hclient, List.mem_map.mpr ⟨entry, hentry, hsame⟩, ?_⟩
    intro hshort hopen hwanted
    obtain ⟨hpos, hroom⟩ := room_of_made (fits_reachable hreach' client call hcall) hmade hshort
    refine Scheduler.answered_of_resolved hengine haccepted hentry hsame ⟨hpos, ?_, hopen⟩ hwanted
    rw [Scheduler.capacity_reachable hengine, hclient]
    exact hroom

/-! One call is being served when the operator asks for the shutdown. -/

instance (s : State α) (action : Action α) : Decidable (NoCalls s action) :=
  match action with
  | .call _ _ => isFalse id
  | .handler _ _ | .engine _ | .engineShutdown | .engineEnded | .connection _ _ | .shutdown =>
      isTrue trivial

def tinyAsked : State ℚ :=
  (Transition.run (step tinyScheduler (tinyApp .continuous)) Anything
    (.call "a" tinyRequest :: List.replicate 5 (.handler 0 []) ++ List.replicate 30 (.engine []) ++
      [.shutdown]) tinyStart).getD tinyStart

def tinyDown : State ℚ :=
  (Transition.run (step tinyScheduler (tinyApp .continuous)) NoCalls
    (List.replicate 10 (.engine []) ++ [.engineEnded]) tinyAsked).getD tinyAsked

theorem reaches_tinyAsked :
    Reaches tinyScheduler (tinyApp .continuous) Anything tinyStart tinyAsked :=
  Transition.reaches_getD_run (by decide +kernel) tinyStart

theorem reaches_tinyDown :
    Reaches tinyScheduler (tinyApp .continuous) NoCalls tinyAsked tinyDown :=
  Transition.reaches_getD_run (by decide +kernel) tinyAsked

/-- The answer was cut off after two tokens. -/
theorem graceful_shutdown_tinyDown :
    Stopped tinyScheduler tinyDown ∧ (tinyDown.engine.clients 0).sent =
      [.token 1, .token 1, .error Scheduler.shutdownMessage] := by
  have hreach : Reachable tinyScheduler (tinyApp .continuous) 2 8 1 1 1 4 (fun _ ↦ 4)
      tinyDown := reaches_tinyAsked.trans (reaches_tinyDown.mono fun _ _ _ ↦ trivial)
  have hreturned : tinyDown.engine.pc = .returned :=
    returned_of_stage (by decide +kernel) (Scheduler.never_panicked (engine_reachable hreach))
  have hleft : ∀ call ∈ tinyDown.calls, call.stage.left = 0 := by decide +kernel
  refine ⟨?_, by decide +kernel⟩
  refine (graceful_shutdown tinyScheduler (tinyApp .continuous) 2 8 1 1 1 4 (fun _ ↦ 4)
    tinyAsked reaches_tinyAsked (by decide +kernel)).2 tinyDown reaches_tinyDown ?_
  have hnext : ∀ late, Scheduler.next tinyScheduler late tinyDown.engine = none := by
    intro late
    unfold Scheduler.next
    rw [hreturned]
  have hnextShutdown : Scheduler.nextShutdown tinyDown.engine = none := by
    unfold Scheduler.nextShutdown
    rw [hreturned]
  have halive : tinyDown.alive = false := by decide +kernel
  refine rest_of_settled hnext hnextShutdown (fun _ ↦ halive) fun client call hcall ↦ ?_
  exact settled_of_left (hleft call (List.mem_of_getElem? hcall))

end HotBatch.Service
