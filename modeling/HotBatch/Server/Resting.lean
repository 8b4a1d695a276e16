import HotBatch.Core.IncrementalDecoding
import HotBatch.Scheduler.Resting
import HotBatch.Server.Shutdown

/-!
# The service at rest

A server that `build_app` has made with a tokenizer for its model, and that nobody shuts down, has an
answer for every call: left to itself it comes to rest, and then every call has failed for a reason
of its own or because the queue was full, or its channel carries the answer that it would get alone.
-/

namespace HotBatch

/-! ## A tokenizer and its model -/

section Tokenizer

variable {α : Type}

theorem encode_of_buildRequest {state : AppState α} {id : String} {client : ClientId} {prompt : Str}
    {params : SubmitParams α} {submission : Submission α}
    (hbuild : buildRequest state id client prompt params = .ok submission) :
    state.tokenizer.encode prompt = .ok submission.request.promptTokens := by
  unfold buildRequest at hbuild
  split at hbuild
  · cases hbuild
  · rename_i hencode
    split_ifs at hbuild
    split at hbuild
    · cases hbuild
    · obtain rfl := Except.ok.inj hbuild
      exact hencode

variable [Kernels α] {model : SmallTransformer α} {promptTokens : List Token}

omit [Kernels α] in
theorem endsInVocab_of_vocab (hvocab : ∀ token ∈ promptTokens, token.toNat < model.vocabSize) :
    model.EndsInVocab promptTokens :=
  fun last hlast ↦ hvocab last (List.mem_of_getLast? hlast)

/-- A prompt in the vocabulary that is not too long can be prefilled. -/
theorem acceptsPrompt_of_vocab (hvocab : ∀ token ∈ promptTokens, token.toNat < model.vocabSize)
    (hlength : promptTokens.length ≤ model.maxPositions) (hids : promptTokens.length < 2 ^ 32) :
    model.AcceptsPrompt promptTokens := by
  refine ⟨hlength, ?_⟩
  cases model with
  | gpt2 model =>
      right
      have htext : (promptTokens.take (promptTokens.length - 1)).length = promptTokens.length - 1 := by
        rw [List.length_take]
        omega
      refine ⟨[model.textRows (promptTokens.take (promptTokens.length - 1))], ?_⟩
      unfold Gpt2Model.promptRows
      nth_rewrite 2 [← htext]
      apply Gpt2Model.embed_text
      · exact fun token htoken ↦ hvocab token (List.mem_of_mem_take htoken)
      · rw [htext]
        exact (Nat.sub_le _ _).trans hlength
      · rw [htext]
        exact (Nat.sub_le _ _).trans_lt hids
  | scripted _ => trivial

end Tokenizer

namespace Service

variable {α : Type} [Kernels α] [FiniteCheck α]

/-! ## What is submitted -/

section Submitted

variable {args : ServeArgs} {loaded : Loaded α} {app : AppState α} {client : ClientId} {call : Call α}
  {params : SubmitParams α} {submission : Submission α}

theorem withinLimits_of_made (hwired : Wired args loaded app)
    (hmade : call.Made app client params submission) : WithinLimits args submission.request := by
  obtain ⟨prompt, hinput, hbuild⟩ := hmade
  obtain ⟨options, hvalid⟩ := validated_of_input hinput
  exact withinLimits_of_built hwired (maxTokens_of_validateOptions hvalid)
    (built_of_buildRequest hbuild)

theorem vocab_of_made (hwired : Wired args loaded app)
    (hspeaks : loaded.tokenizer.Speaks loaded.model)
    (hmade : call.Made app client params submission) :
    ∀ token ∈ submission.request.promptTokens, token.toNat < loaded.model.vocabSize := by
  obtain ⟨prompt, -, hbuild⟩ := hmade
  have hencode := encode_of_buildRequest hbuild
  rw [hwired.tokenizer_eq] at hencode
  exact hspeaks _ _ hencode

theorem acceptsPrompt_of_made (hwired : Wired args loaded app)
    (hspeaks : loaded.tokenizer.Speaks loaded.model)
    (hmade : call.Made app client params submission) :
    loaded.model.AcceptsPrompt submission.request.promptTokens := by
  have hwithin := withinLimits_of_made hwired hmade
  have hlength := (hwithin.fitsModel hwired.seqLen_le_positions).prompt_le
  apply acceptsPrompt_of_vocab (vocab_of_made hwired hspeaks hmade) hlength
  calc submission.request.promptTokens.length
      ≤ submission.request.promptLen + submission.request.maxNewTokens := Nat.le_add_right _ _
    _ ≤ args.maxSeqLen := hwithin.total_le
    _ ≤ 1024 := hwired.valid.seqLen_le
    _ < 2 ^ 32 := by decide

/-- The reachable states of the service that `build_app` makes. -/
abbrev BuiltReachable (args : ServeArgs) (loaded : Loaded α) (app : AppState α)
    (capacity : ClientId → ℕ) (s : State α) : Prop :=
  Reachable (builtScheduler args loaded.model) app args.maxRunningSeqs args.maxSeqLen
    loaded.model.kvShape.1 loaded.model.kvShape.2.1 loaded.model.kvShape.2.2 args.maxQueueDepth
    capacity s

variable {capacity : ClientId → ℕ} {s s' : State α}

/-- Whatever the handlers submit ends in the vocabulary. -/
theorem ends_reachable (hwired : Wired args loaded app)
    (hspeaks : loaded.tokenizer.Speaks loaded.model)
    (hreach : BuiltReachable args loaded app capacity s) :
    Scheduler.Reaches (builtScheduler args loaded.model)
      (Scheduler.EndsAccepted (builtScheduler args loaded.model))
      (Scheduler.init (.new args.maxRunningSeqs args.maxSeqLen loaded.model.kvShape.1
        loaded.model.kvShape.2.1 loaded.model.kvShape.2.2) args.maxQueueDepth capacity) s.engine := by
  induction hreach with
  | refl => exact .refl
  | step hbefore _ hnext ih =>
      rcases (step_cases hnext).engine_step with heq | ⟨inner, hsubmits, hinner⟩
      · rw [heq]
        exact ih
      · refine ih.step ?_ hinner
        cases inner with
        | submit req late =>
            obtain ⟨client, call, hcall, params, submission, hstage, rfl⟩ := hsubmits
            have hsound := (linked_reachable hbefore).calls client call hcall
            unfold Call.Sound at hsound
            rw [hstage] at hsound
            exact fun _ _ ↦ endsInVocab_of_vocab (vocab_of_made hwired hspeaks hsound.1)
        | sched _ | schedShutdown | notify | client _ _ | shutdown => trivial

end Submitted

/-! ## The way to rest -/

section Rests

variable {scheduler : Scheduler α} {app : AppState α} {s s' : State α}
  {maxSeqs maxSeqLen numLayers nHeads headDim maxDepth : ℕ} {capacity : ClientId → ℕ}

/-- Nobody calls or shuts the server down. -/
def Quiet (_ : State α) : Action α → Prop
  | .call _ _ | .shutdown => False
  | .handler _ _ | .engine _ | .engineShutdown | .engineEnded | .connection _ _ => True

/-- The connections alone take steps. -/
def Connected (_ : State α) : Action α → Prop
  | .connection _ _ => True
  | .call _ _ | .handler _ _ | .engine _ | .engineShutdown | .engineEnded | .shutdown => False

theorem quiet_step {action : Action α} (hquiet : Quiet s action)
    (hshutdown : s.engine.shutdown = false) (hstep : step scheduler app action s = some s') :
    s'.engine.shutdown = false := by
  cases step_cases hstep with
  | call _ => exact hquiet.elim
  | handler _ hhandled => cases hhandled <;> exact hshutdown
  | ended _ _ => exact hshutdown
  | @engine _ inner _ hinner hengine =>
      cases Scheduler.step_cases hengine with
      | sched hsched => exact (Scheduler.shutdown_next hengine).trans hshutdown
      | schedShutdown _ _ | client _ | notify _ => exact hshutdown
      | refuse _ _ | accept _ _ _ => exact hshutdown
      | shutdown => cases action <;> first | exact hquiet.elim | cases hinner

theorem quiet_reaches (hrun : Reaches scheduler app Quiet s s')
    (hshutdown : s.engine.shutdown = false) : s'.engine.shutdown = false := by
  induction hrun with
  | refl => exact hshutdown
  | step _ hquiet hnext ih => exact quiet_step hquiet ih hnext

/-- What the connections do is between them and the scheduler. -/
theorem connected_reaches (hrun : Reaches scheduler app Connected s s') :
    s'.calls = s.calls ∧ Scheduler.Reaches scheduler Scheduler.Connected s.engine s'.engine := by
  induction hrun with
  | refl => exact ⟨rfl, .refl⟩
  | @step _ _ action _ hconnected hnext ih =>
      obtain ⟨hcalls, hreach⟩ := ih
      cases step_cases hnext with
      | call _ | handler _ _ | ended _ _ => exact hconnected.elim
      | @engine _ inner _ hinner hengine =>
          refine ⟨hcalls, hreach.step ?_ hengine⟩
          cases action with
          | connection client action =>
              obtain rfl := Option.some.inj hinner
              trivial
          | call _ _ | handler _ _ | engine _ | engineShutdown | engineEnded | shutdown =>
              exact hconnected.elim

/-- A step of the service is one of a handler, or the scheduler takes one. -/
theorem own_step {action : Action α}
    (hreach : Reachable scheduler app maxSeqs maxSeqLen numLayers nHeads headDim maxDepth capacity s)
    (hshutdown : s.engine.shutdown = false) (hown : Own action)
    (hstep : step scheduler app action s = some s') :
    left s'.calls < left s.calls ∨ s'.calls = s.calls ∧ ∃ late,
      Scheduler.next scheduler late s.engine = some s'.engine := by
  cases step_cases hstep with
  | call _ => exact hown.elim
  | handler hcall hhandled => exact Or.inl (left_set_lt hcall (left_handled hhandled))
  | @engine _ inner engine' hinner hengine =>
      cases action with
      | engine late =>
          obtain rfl := Option.some.inj hinner
          exact Or.inr ⟨rfl, late, hengine⟩
      | engineShutdown =>
          obtain rfl := Option.some.inj hinner
          cases Scheduler.step_cases hengine with
          | schedShutdown _ hset => exact absurd (hshutdown.symm.trans hset) Bool.false_ne_true
      | handler _ _ | engineEnded => cases hinner
      | call _ _ | connection _ _ | shutdown => exact hown.elim
  | ended hpc _ =>
      have hengine := engine_reachable hreach
      have hplaced := Scheduler.placed_reachable hengine
      rw [hpc] at hplaced
      have hopen := (Scheduler.staysOpen_reachable hengine hshutdown).1
      exact absurd (hopen.symm.trans hplaced.1.1) Bool.false_ne_true

/-- **Without a shutdown the service comes to rest**, whatever the connections do meanwhile. -/
theorem comes_to_rest (hrunning : 1 ≤ scheduler.config.maxRunningSeqs) (hcache : 1 ≤ maxSeqs)
    (hreach : Reachable scheduler app maxSeqs maxSeqLen numLayers nHeads headDim maxDepth capacity s)
    (hshutdown : s.engine.shutdown = false) {states : ℕ → State α} (hstart : states 0 = s)
    (hsteps : ∀ i, ∃ mid action, Reaches scheduler app Connected (states i) mid ∧ Own action ∧
      step scheduler app action mid = some (states (i + 1))) : False := by
  have hnexts : ∀ i,
      Reachable scheduler app maxSeqs maxSeqLen numLayers nHeads headDim maxDepth capacity (states i) →
      (states i).engine.shutdown = false →
      (Reachable scheduler app maxSeqs maxSeqLen numLayers nHeads headDim maxDepth capacity
          (states (i + 1)) ∧ (states (i + 1)).engine.shutdown = false) ∧
        (left (states (i + 1)).calls < left (states i).calls ∨
          left (states (i + 1)).calls = left (states i).calls ∧ ∃ mid late,
            Scheduler.Reaches scheduler Scheduler.Connected (states i).engine mid ∧
              Scheduler.next scheduler late mid = some (states (i + 1)).engine) := by
    intro i hreach hshutdown
    obtain ⟨mid, action, hrun, hown, hstep⟩ := hsteps i
    obtain ⟨hcalls, hrunEngine⟩ := connected_reaches hrun
    have hreachMid := hreach.trans (hrun.mono fun _ _ _ ↦ (trivial : Anything _ _))
    have hshutdownMid : mid.engine.shutdown = false :=
      (Scheduler.connected_reaches hrunEngine).2.1.trans hshutdown
    have hquiet : Quiet mid action := by
      cases action with
      | handler _ _ | engine _ | engineShutdown | engineEnded => trivial
      | call _ _ | connection _ _ | shutdown => exact hown.elim
    refine ⟨⟨hreachMid.step trivial hstep, quiet_step hquiet hshutdownMid hstep⟩, ?_⟩
    rw [← hcalls]
    refine (own_step hreachMid hshutdownMid hown hstep).imp_right ?_
    rintro ⟨heq, late, hnext⟩
    exact ⟨congrArg left heq, mid.engine, late, hrunEngine, hnext⟩
  have hkept : ∀ i,
      Reachable scheduler app maxSeqs maxSeqLen numLayers nHeads headDim maxDepth capacity (states i) ∧
        (states i).engine.shutdown = false := by
    intro i
    induction i with
    | zero => exact hstart ▸ ⟨hreach, hshutdown⟩
    | succ i ih => exact (hnexts i ih.1 ih.2).1
  -- From the state on in which the handlers have least to do, they do nothing.
  obtain ⟨first, hfirst⟩ : ∃ first, ∀ i, left (states first).calls ≤ left (states i).calls :=
    ⟨Function.argmin fun i ↦ left (states i).calls,
      fun i ↦ Function.argmin_le (fun i ↦ left (states i).calls) i⟩
  have hrested : ∀ j, left (states (first + j)).calls = left (states first).calls := by
    intro j
    induction j with
    | zero => rfl
    | succ j ih =>
        rcases (hnexts (first + j) (hkept _).1 (hkept _).2).2 with hless | ⟨heq, -⟩
        · exact absurd (ih ▸ hless) (Nat.not_lt.mpr (hfirst _))
        · exact heq.trans ih
  obtain ⟨later, hlater⟩ : ∃ later : ℕ → Scheduler.State α, ∀ j, later j = (states (first + j)).engine :=
    ⟨_, fun _ ↦ rfl⟩
  refine Scheduler.rests hrunning hcache (engine_reachable (hkept first).1) (hkept first).2 (hlater 0)
    fun j ↦ ?_
  rw [hlater, hlater]
  rcases (hnexts (first + j) (hkept _).1 (hkept _).2).2 with hless | ⟨-, hmid⟩
  · exact absurd (hrested j ▸ hless) (Nat.not_lt.mpr (hfirst _))
  · exact hmid

end Rests

/-! ## What everybody has got -/

section Served

variable {args : ServeArgs} {loaded : Loaded α} {app : AppState α} {capacity : ClientId → ℕ}
  {s : State α}

/-- A call that has failed while the server was up: its own request was at fault, or the queue was
full. -/
structure TurnedAway (app : AppState α) (maxDepth : ℕ) (s : State α) (client : ClientId)
    (call : Call α) (err : ApiError) : Prop where
  status : err.status ∈ [400, 404, 413, 415, 429]
  told : Told app maxDepth s client call err

/-- The service is up and has nothing left to do. -/
structure Rested (model : SmallTransformer α) (app : AppState α) (maxDepth : ℕ) (s : State α) :
    Prop where
  alive : s.alive = true
  parked : s.engine.pc = .parked
  running : s.engine.running = []
  slots : s.engine.kvCache.allocatedSlots = 0
  queue : s.engine.queue.closed = false ∧ s.engine.queue.requests = []
  calls : ∀ (client : ClientId) (call : Call α), s.calls[client]? = some call →
    (∃ err, call.stage = .failed err ∧ TurnedAway app maxDepth s client call err) ∨
      ∃ params submission, call.stage = .serving params submission ∧
        submission.request.client = client ∧
        (submission.request.maxNewTokens ≤ 31 → (s.engine.clients client).receiverOpen = true →
          (s.engine.clients client).responseDone = false →
          (s.engine.clients client).sent = privateAnswer model submission.request)

theorem turnedAway_of_explains (hwired : Wired args loaded app) {client : ClientId} {call : Call α}
    {err : ApiError} (hshutdown : s.engine.shutdown = false)
    (hexplains : call.Explains app args.maxQueueDepth client s.engine err) :
    TurnedAway app args.maxQueueDepth s client call err := by
  refine ⟨?_, hexplains.told⟩
  cases hexplains with
  | invalid herror =>
      have hsubset : [400, 404, 413, 415] ⊆ [400, 404, 413, 415, 429] := by decide
      exact hsubset (status_of_input herror)
  | unbuilt hinput herror =>
      rcases status_of_buildRequest herror with hstatus | ⟨-, hoverflow⟩
      · rw [hstatus]
        decide
      · obtain ⟨options, hvalid⟩ := validated_of_input hinput
        have hlimit := (maxTokens_of_validateOptions hvalid).2
        have hword : 1024 < Usize.maxValue := by decide
        have hnew := hwired.valid.newTokens_lt
        have hlen := hwired.valid.seqLen_le
        rw [hwired.maxNewTokens_eq] at hlimit
        omega
  | unavailable hset => exact absurd (hshutdown.symm.trans hset) Bool.false_ne_true
  | queueFull _ _ => exact (by decide : ApiError.queueFull.status ∈ [400, 404, 413, 415, 429])

/-- A served call whose channel the scheduler is done with has got everything. -/
theorem sent_of_served (hwired : Wired args loaded app)
    (hspeaks : loaded.tokenizer.Speaks loaded.model)
    (hreach : BuiltReachable args loaded app capacity s) (hshutdown : s.engine.shutdown = false)
    {client : ClientId} {call : Call α} (hcall : s.calls[client]? = some call)
    {params : SubmitParams α} {submission : Submission α}
    (hmade : call.Made app client params submission)
    (haccepted : submission.request ∈ s.engine.history.accepted)
    {entry : Resolved α} (hentry : entry ∈ s.engine.history.resolved)
    (hsame : entry.client = submission.request.client)
    (hshort : submission.request.maxNewTokens ≤ 31)
    (hreceiver : (s.engine.clients submission.request.client).receiverOpen = true)
    (hwanted : (s.engine.clients submission.request.client).responseDone = false) :
    (s.engine.clients submission.request.client).sent =
      privateAnswer loaded.model submission.request := by
  have hengine := engine_reachable hreach
  have hclient : submission.request.client = client := by
    obtain ⟨prompt, -, hbuild⟩ := hmade
    exact (channel_of_buildRequest hbuild).1
  have hroom := room_of_made (fits_reachable hreach client call hcall) hmade hshort
  have hample : (s.engine.clients submission.request.client).Ample
      submission.request.maxNewTokens := by
    refine ⟨hroom.1, ?_, hreceiver⟩
    rw [Scheduler.capacity_reachable hengine, hclient]
    exact hroom.2
  apply Scheduler.sent_eq_privateAnswer hengine haccepted hentry hsame hample hwanted
  intro message hmem
  have hopen := (Scheduler.staysOpen_reachable hengine hshutdown).1
  have hisolated := Scheduler.isolated_reachable (ends_reachable hwired hspeaks hreach)
  rcases hisolated.errors _ _ hmem with ⟨-, hclosed⟩ | ⟨other, hother, hsameClient, hfault⟩
  · exact absurd (hopen.symm.trans hclosed) Bool.false_ne_true
  · obtain rfl : other = submission.request := List.inj_on_of_nodup_map
      (Scheduler.books_reachable hengine).nodup hother haccepted hsameClient
    rcases hfault with hrefused | hrejected
    · exact hrefused ((withinLimits_of_made hwired hmade).admitted hwired.seqLen_le_positions)
    · exact hrejected (acceptsPrompt_of_made hwired hspeaks hmade)

theorem rested_of_rest (hwired : Wired args loaded app)
    (hspeaks : loaded.tokenizer.Speaks loaded.model)
    (hreach : BuiltReachable args loaded app capacity s) (hshutdown : s.engine.shutdown = false)
    (hrest : ∀ action, Own action →
      step (builtScheduler args loaded.model) app action s = none) :
    Rested loaded.model app args.maxQueueDepth s := by
  have hlinked := linked_reachable hreach
  have hengine := engine_reachable hreach
  have hpending : s.engine.pendingNotifies = 0 := by
    rw [hlinked.notifies, List.countP_eq_zero]
    intro call hmem hnotifying
    obtain ⟨client, hcall⟩ := List.mem_iff_getElem?.mp hmem
    unfold Call.isNotifying at hnotifying
    rcases settled_of_rest hlinked hrest hcall with ⟨err, hstage⟩ | ⟨params, submission, hstage⟩
    all_goals
      rw [hstage] at hnotifying
      cases hnotifying
  have hstuck := Option.map_eq_none_iff.mp (hrest (.engine []) trivial)
  obtain ⟨hparked, hqueue, hrunning⟩ :=
    Scheduler.parked_of_rest hengine hshutdown hpending hstuck
  refine ⟨?_, hparked, hrunning, ?_, ⟨(Scheduler.staysOpen_reachable hengine hshutdown).1, hqueue⟩, ?_⟩
  · cases halive : s.alive with
    | true => rfl
    | false =>
        have hreturned := hlinked.alive halive
        rw [hparked] at hreturned
        cases hreturned
  · rw [Scheduler.allocatedSlots_eq (Scheduler.slots_reachable hengine) (by rw [hparked]; rfl),
      hrunning]
    rfl
  · intro client call hcall
    have hsound := hlinked.calls client call hcall
    rcases settled_of_rest hlinked hrest hcall with ⟨err, hstage⟩ | ⟨params, submission, hstage⟩
    · unfold Call.Sound at hsound
      rw [hstage] at hsound
      exact Or.inl ⟨err, hstage, turnedAway_of_explains hwired hshutdown hsound⟩
    · obtain ⟨hmade, hclient, haccepted⟩ := hsound.handedOver (Or.inr hstage)
      obtain ⟨entry, hentry, hsame⟩ := Scheduler.resolved_of_idle
        (Scheduler.books_reachable hengine) (Or.inl hparked) ⟨hqueue, hrunning⟩ haccepted
      refine Or.inr ⟨params, submission, hstage, hclient, fun hshort hreceiver hwanted ↦ ?_⟩
      rw [← hclient] at hreceiver hwanted ⊢
      exact sent_of_served hwired hspeaks hreach hshutdown hcall hmade haccepted hentry hsame hshort
        hreceiver hwanted

end Served

/-- **Everybody is served.** Take the continuous server that `build_app` makes of a command line, with
a tokenizer for its model, in any state that calls, handlers, scheduler and connections can bring it
to without a shutdown. From there it does not take steps for ever, whatever the connections do
meanwhile; and whenever it is left without new calls until nothing of it can move, it is up and empty,
every failed call was told that its own request was at fault or that the queue was full, and every
other call that asked for at most 31 tokens, with an open receiver and `response_done` not set, has
exactly the answer on its channel that it would get alone. -/
theorem everybody_served {load : String → String → Except String (Loaded α)} {args : ServeArgs}
    {app : AppState α} (hbuild : buildApp load args = .ok app) {scheduler : Scheduler α}
    {kvCache : SlabKvCache (KvTensor α)} {maxDepth : ℕ}
    (hengine : app.engine = .continuous scheduler kvCache maxDepth)
    (hspeaks : app.tokenizer.Speaks scheduler.model) {capacity : ClientId → ℕ} {s : State α}
    (hreach : Reaches scheduler app Anything (init kvCache maxDepth capacity) s)
    (hshutdown : s.engine.shutdown = false) :
    (¬ ∃ states : ℕ → State α, states 0 = s ∧ ∀ i, ∃ mid action,
      Reaches scheduler app Connected (states i) mid ∧ Own action ∧
        step scheduler app action mid = some (states (i + 1))) ∧
    ∀ s', Reaches scheduler app Quiet s s' →
      (∀ action, Own action → step scheduler app action s' = none) →
        Rested scheduler.model app maxDepth s' := by
  obtain ⟨loaded, -, hwired⟩ := wired_of_buildApp hbuild
  rw [hwired.engine_eq] at hengine
  unfold buildEngine at hengine
  cases hmode : args.mode with
  | naive =>
      rw [hmode] at hengine
      cases hengine
  | continuous =>
      rw [hmode] at hengine
      obtain ⟨rfl, rfl, rfl⟩ := Engine.continuous.inj hengine
      rw [hwired.tokenizer_eq] at hspeaks
      refine ⟨?_, fun s' hrun hrest ↦ ?_⟩
      · rintro ⟨states, hstart, hsteps⟩
        have hrunning : 1 ≤ (builtScheduler args loaded.model).config.maxRunningSeqs :=
          hwired.valid.running_pos
        exact comes_to_rest hrunning hrunning hreach hshutdown hstart hsteps
      · exact rested_of_rest hwired hspeaks (hreach.trans (hrun.mono fun _ _ _ ↦ trivial))
          (quiet_reaches hrun hshutdown) hrest

/-! Two calls are made and served together, and one between them is turned away. -/

instance (s : State α) (action : Action α) : Decidable (Quiet s action) :=
  match action with
  | .call _ _ | .shutdown => isFalse id
  | .handler _ _ | .engine _ | .engineShutdown | .engineEnded | .connection _ _ => isTrue trivial

def tinyCalled : State ℚ :=
  (Transition.run (step tinyScheduler (tinyApp .continuous)) Anything
    [.call "a" tinyRequest, .call "b" tinyUntyped, .call "c" tinyRequest] tinyStart).getD tinyStart

def tinyServed : State ℚ :=
  (Transition.run (step tinyScheduler (tinyApp .continuous)) Quiet
    (List.replicate 5 (.handler 0 []) ++ [.handler 1 []] ++ List.replicate 5 (.handler 2 []) ++
      List.replicate 89 (.engine [])) tinyCalled).getD tinyCalled

theorem reaches_tinyCalled :
    Reaches tinyScheduler (tinyApp .continuous) Anything tinyStart tinyCalled :=
  Transition.reaches_getD_run (by decide +kernel) tinyStart

theorem reaches_tinyServed :
    Reaches tinyScheduler (tinyApp .continuous) Quiet tinyCalled tinyServed :=
  Transition.reaches_getD_run (by decide +kernel) tinyCalled

theorem rest_tinyServed (action : Action ℚ) (hown : Own action) :
    step tinyScheduler (tinyApp .continuous) action tinyServed = none := by
  have hreach : Reachable tinyScheduler (tinyApp .continuous) 2 8 1 1 1 4 (fun _ ↦ 4) tinyServed :=
    reaches_tinyCalled.trans (reaches_tinyServed.mono fun _ _ _ ↦ trivial)
  have hleft : ∀ call ∈ tinyServed.calls, call.stage.left = 0 := by decide +kernel
  have hstuck : (Scheduler.next tinyScheduler [] tinyServed.engine).isNone = true := by
    decide +kernel
  have hparked := (Scheduler.parked_of_rest (engine_reachable hreach) (by decide +kernel)
    (by decide +kernel) (Option.isNone_iff_eq_none.mp hstuck)).1
  have hpermit : tinyServed.engine.permit = false := by decide +kernel
  have hshutdown : tinyServed.engine.shutdown = false := by decide +kernel
  refine rest_of_settled (fun late ↦ ?_) ?_ (fun hreturned ↦ ?_) (fun client call hcall ↦ ?_)
    action hown
  · unfold Scheduler.next
    rw [hparked, hpermit]
    rfl
  · unfold Scheduler.nextShutdown
    rw [hparked, hshutdown]
    rfl
  · rw [hparked] at hreturned
    cases hreturned
  · exact settled_of_left (hleft call (List.mem_of_getElem? hcall))

theorem everybody_served_tinyServed :
    Rested (.gpt2 tinyGpt2) (tinyApp .continuous) 4 tinyServed ∧
      (tinyServed.calls.map fun call ↦ call.stage.failure.map ApiError.status) =
        [none, some 415, none] ∧
      tinyServed.engine.metrics.sharedDecodeSteps = 3 ∧
      (∀ client ∈ [0, 2], (tinyServed.engine.clients client).sent =
        [.token 1, .token 1, .token 1, .finished .length]) := by
  have hbuild : buildApp (fun _ _ ↦ .ok ⟨.gpt2 tinyGpt2, tinyTokenizer⟩) (tinyArgs .continuous) =
      .ok (tinyApp .continuous) := by
    have hvalidate : (tinyArgs .continuous).validate = .ok () := by decide +kernel
    unfold buildApp
    rw [hvalidate]
    rfl
  have hspeaks : tinyTokenizer.Speaks (.gpt2 tinyGpt2) := by
    intro text tokens hencode token htoken
    obtain rfl := Except.ok.inj hencode
    obtain ⟨c, -, rfl⟩ := List.mem_map.mp htoken
    rw [UInt32.toNat_ofNat']
    change c.toNat % 2 % 2 ^ 32 < 2
    omega
  have hengine : (tinyApp .continuous).engine = .continuous tinyScheduler (.new 2 8 1 1 1) 4 := rfl
  have hserved := everybody_served hbuild hengine hspeaks reaches_tinyCalled (by decide +kernel)
  exact ⟨hserved.2 tinyServed reaches_tinyServed rest_tinyServed, by decide +kernel,
    by decide +kernel, by decide +kernel⟩

end Service

end HotBatch
