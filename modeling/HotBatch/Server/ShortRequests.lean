import HotBatch.Scheduler.Settlement
import HotBatch.Server.Limits
import HotBatch.Server.NaiveLedger

/-!
# Short requests

The channel of a request has a place for each of its tokens and one more, up to the limit of
`RESPONSE_CHANNEL_CAPACITY`. Below it nothing that an engine sends can find the channel full, even if
nobody ever reads, so such a request gets its terminal item and is never counted as cancelled.
-/

namespace HotBatch

variable {α : Type}

/-- What a client with this channel may count on while its receiver is open. -/
structure Scheduler.ServedInFull [Kernels α] (scheduler : Scheduler α) (client : ClientId)
    (limit capacity : ℕ) (s : State α) : Prop where
  sent_le : (s.clients client).sent.length ≤ limit + 1
  sent_le_capacity : (s.clients client).sent.length ≤ capacity
  /-- `try_send_tokens` has never failed. -/
  delivered : ∀ update ∈ s.history.updates, update.client = client → update.delivered = true
  /-- No error is lost. -/
  answered : s.answering scheduler = some client → ∀ late s', next scheduler late s = some s' →
    ∃ message, s'.clients client = (s.clients client).send (.error message)
  uncounted : client ∉ s.metrics.cancelledSequences
  unpanicked : s.pc ≠ .panicked
  /-- The sender has been dropped. -/
  terminal : client ∈ s.history.resolved.map Resolved.client →
    (s.clients client).responseDone = true ∨
      (s.clients client).sent.countP StreamItem.isTerminal = 1

/-- The same for the task of the client. -/
structure Naive.ServedInFull [Kernels α] (model : SmallTransformer α) (req : GenerationRequest α)
    (limit capacity : ℕ) (s : State α) : Prop where
  sent_le : s.client.sent.length ≤ limit + 1
  sent_le_capacity : s.client.sent.length ≤ capacity
  delivered : ∀ update ∈ s.history.updates, update.delivered = true
  answered : ∀ text, s.pc = .answer text → ∀ s', next model req s = some s' →
    s'.client = s.client.send (.error text)
  uncounted : req.client ∉ s.metrics.cancelledSequences
  unpanicked : s.pc ≠ .panicked
  terminal : s.pc = .returned →
    s.client.responseDone = true ∨ s.client.sent.countP StreamItem.isTerminal = 1

section Engines

variable [Kernels α] {req : GenerationRequest α}

theorem Scheduler.servedInFull {scheduler : Scheduler α}
    {maxSeqs maxSeqLen numLayers nHeads headDim maxDepth : ℕ} {capacity : ClientId → ℕ} {s : State α}
    (hreach : Reaches scheduler (SubmitsOnly req)
      (init (.new maxSeqs maxSeqLen numLayers nHeads headDim) maxDepth capacity) s)
    (hpos : 0 < req.maxNewTokens) (hroom : req.maxNewTokens < capacity req.client)
    (hopen : (s.clients req.client).receiverOpen = true) :
    ServedInFull scheduler req.client req.maxNewTokens (capacity req.client) s := by
  have hbooks := books_reachable hreach
  have hfollowing := following_reachable hreach
  have howns := owns_reachable hreach
  have hdischarged := discharged_reachable hreach
  have hample : (s.clients req.client).Ample req.maxNewTokens := by
    refine ⟨hpos, ?_, hopen⟩
    rwa [capacity_reachable hreach]
  have hstands : Unanswered req (s.view req.client) ∨
      Ended req (s.clients req.client) (s.view req.client) := by
    by_cases hover : s.Over req.client
    · exact Or.inr (hdischarged hover)
    · exact Or.inl (unanswered_of_not_over hbooks hfollowing howns hover)
  obtain ⟨hlength, hdelivered, hcancelled⟩ := bounds_of_ample hstands hample
  have hsent : (s.clients req.client).sent.length ≤ req.maxNewTokens + 1 := by
    refine le_trans ?_ hlength
    exact (List.prefix_append _ _).length_le
  constructor
  case sent_le => exact hsent
  case sent_le_capacity => exact hsent.trans hroom
  case delivered =>
    intro update hupdate hclient
    apply hdelivered
    exact List.mem_filter.mpr ⟨hupdate, decide_eq_true hclient⟩
  case answered =>
    intro hanswering late s' hnext
    obtain ⟨hidle, holding, hholding, hclient, hgoesOn⟩ :=
      goesOn_of_answering (slots_reachable hreach) hanswering
    have hunanswered := unanswered_of_goesOn hbooks hfollowing howns hholding hclient hgoesOn
    have houtgoing : (s.clients req.client).sent = (s.view req.client).outgoing := by
      unfold State.view
      rw [inFlight_of_idle hidle, List.append_nil]
    cases (effect_schedStep (schedStep_of_next hnext)).writes with
    | nothing _ hnone | item _ hnone => cases hanswering.symm.trans hnone
    | @answer client message hclients hsame =>
        obtain rfl := Option.some.inj (hanswering.symm.trans hsame)
        refine ⟨message, ?_⟩
        rw [hclients]
        exact (clients_updateClient_self req.client _).trans
          (hunanswered.trySendError_eq houtgoing hample message)
  case uncounted => exact List.count_eq_zero.mp hcancelled
  case unpanicked => exact never_panicked hreach
  case terminal =>
    intro hresolved
    obtain ⟨entry, hentry, hclient⟩ := List.mem_map.mp hresolved
    have hended := hdischarged (Or.inl ⟨entry, hentry, hclient⟩)
    have houtgoing : (s.view req.client).outgoing = (s.clients req.client).sent := by
      unfold State.view
      rw [← hclient, hbooks.inFlight_of_resolved hentry, List.append_nil]
    rw [← houtgoing]
    exact hended.terminal hample

theorem Naive.servedInFull {model : SmallTransformer α} {capacity : ℕ} {s : State α}
    (hreach : Reaches model req Anything (init capacity) s) (hpos : 0 < req.maxNewTokens)
    (hroom : req.maxNewTokens < capacity) (hopen : s.client.receiverOpen = true) :
    ServedInFull model req req.maxNewTokens capacity s := by
  have hagrees := agrees_reachable hreach
  have hample : s.client.Ample req.maxNewTokens := by
    refine ⟨hpos, ?_, hopen⟩
    rwa [capacity_reachable hreach]
  obtain ⟨hlength, hdelivered, hcancelled⟩ := bounds_of_ample hagrees.stands hample
  have hsent : s.client.sent.length ≤ req.maxNewTokens + 1 := by
    refine le_trans ?_ hlength
    exact (List.prefix_append _ _).length_le
  constructor
  case sent_le => exact hsent
  case sent_le_capacity => exact hsent.trans hroom
  case delivered => exact hdelivered
  case answered =>
    intro text hpc s' hnext
    have hitems : s.pc.items = [] := by rw [hpc]; rfl
    have hunanswered : Unanswered req (s.view req) := by
      unfold State.Agrees at hagrees
      rw [hpc] at hagrees
      exact hagrees
    unfold next at hnext
    rw [hpc] at hnext
    obtain rfl := Option.some.inj hnext
    exact hunanswered.trySendError_eq (view_outgoing_of_idle hitems).symm hample text
  case uncounted => exact List.count_eq_zero.mp hcancelled
  case unpanicked =>
    intro hpc
    unfold State.Agrees at hagrees
    rw [hpc] at hagrees
    exact hagrees
  case terminal =>
    intro hpc
    have hitems : s.pc.items = [] := by rw [hpc]; rfl
    have hended : Ended req s.client (s.view req) := by
      unfold State.Agrees at hagrees
      rw [hpc] at hagrees
      exact hagrees
    have hterminal := hended.terminal hample
    rwa [view_outgoing_of_idle hitems] at hterminal

end Engines

/-- **Short requests are never evicted for a slow reader.** Let `validate_options` and `submit_prompt`
have made a request of at most 31 tokens. Whatever the engine, in every run in which its channel is
its own and as long as its receiver is open, read or not: no more has been sent than `max_tokens`
items and one more, which is within the capacity; every update has found room, and so does every
error that is sent; the request is not counted as cancelled; and once the sender has been dropped,
exactly one terminal item has been sent, unless `response_done` was set. -/
theorem short_requests_served_in_full [Kernels α] [FiniteCheck α] {app : AppState α}
    {options : RequestOptions α} {params : SubmitParams α}
    (hoptions : validateOptions app options = .ok params) (hshort : params.maxTokens ≤ 31)
    {id : String} {client : ClientId} {prompt : Str} {submission : Submission α}
    (hbuild : buildRequest app id client prompt params = .ok submission) :
    (∀ (scheduler : Scheduler α) (maxSeqs maxSeqLen numLayers nHeads headDim maxDepth : ℕ)
      (capacity : ClientId → ℕ), capacity client = submission.channelCapacity →
      ∀ s, Scheduler.Reaches scheduler (Scheduler.SubmitsOnly submission.request)
          (Scheduler.init (.new maxSeqs maxSeqLen numLayers nHeads headDim) maxDepth capacity) s →
        (s.clients client).receiverOpen = true →
        Scheduler.ServedInFull scheduler client params.maxTokens submission.channelCapacity s) ∧
      ∀ (model : SmallTransformer α) (s : Naive.State α),
        Naive.Reaches model submission.request Naive.Anything
          (Naive.init submission.channelCapacity) s →
        s.client.receiverOpen = true →
        Naive.ServedInFull model submission.request params.maxTokens submission.channelCapacity s := by
  obtain ⟨hclient, hchannel⟩ := channel_of_buildRequest hbuild
  have hlimit := (built_of_buildRequest hbuild).maxNewTokens_eq
  have hpos : 0 < submission.request.maxNewTokens :=
    hlimit ▸ (maxTokens_of_validateOptions hoptions).1
  have hroom : submission.request.maxNewTokens < submission.channelCapacity := by
    rw [hlimit, hchannel]
    unfold responseChannelCapacity
    omega
  rw [← hlimit]
  constructor
  · intro scheduler maxSeqs maxSeqLen numLayers nHeads headDim maxDepth capacity hcapacity s hreach
      hopen
    subst hclient
    rw [← hcapacity] at hroom ⊢
    exact Scheduler.servedInFull hreach hpos hroom hopen
  · exact fun model s hreach hopen ↦ Naive.servedInFull hreach hpos hroom hopen

/-- A request of three tokens. -/
def tinySubmission : Submission ℚ where
  request := ⟨"a", [0, 1, 0, 0, 1], ⟨0, 1, none, [], 3, 100, 0⟩, 0, 5, hashTokens [0, 1, 0, 0, 1]⟩
  channelCapacity := 4

namespace Scheduler

def tinyServer : Scheduler ℚ := builtScheduler (tinyArgs .continuous) (.gpt2 tinyGpt2)

def tinyIdle : State ℚ := init (.new 2 8 1 1 1) 4 fun _ ↦ 4

def tinySubmitted : State ℚ :=
  (step tinyServer (.submit tinySubmission.request []) tinyIdle).getD tinyIdle

/-- The scheduler has dropped the sender, and nobody has read anything. -/
def tinyUnread : State ℚ :=
  (Transition.run (step tinyServer) Undisturbed (List.replicate 50 (.sched [])) tinySubmitted).getD
    tinySubmitted

theorem reaches_tinyUnread :
    Reaches tinyServer (SubmitsOnly tinySubmission.request) tinyIdle tinyUnread := by
  have hsubmit : step tinyServer (.submit tinySubmission.request []) tinyIdle =
      some tinySubmitted := rfl
  have honly : SubmitsOnly tinySubmission.request tinyIdle (.submit tinySubmission.request []) :=
    fun _ ↦ rfl
  have hrun : Reaches tinyServer Undisturbed tinySubmitted tinyUnread :=
    Transition.reaches_getD_run (by decide +kernel) tinySubmitted
  refine Transition.Reaches.trans (.step .refl honly hsubmit) (hrun.mono ?_)
  intro s action hundisturbed
  cases action with
  | submit _ _ => exact hundisturbed.elim
  | sched _ | schedShutdown | notify | client _ _ | shutdown => trivial

end Scheduler

theorem short_requests_served_in_full_tinySubmission :
    ((Scheduler.tinyUnread.clients 0).received = 0 ∧
      (Scheduler.tinyUnread.clients 0).sent.countP StreamItem.isTerminal = 1) ∧
    ∃ s, Naive.Reaches (.gpt2 tinyGpt2) tinySubmission.request Naive.Undisturbed (Naive.init 4) s ∧
      s.client.sent.countP StreamItem.isTerminal = 1 := by
  have hbuild : buildRequest (tinyApp .continuous) "a" 0 "hello".toList tinyParams =
      .ok tinySubmission := rfl
  have hoptions : validateOptions (tinyApp .continuous) tinyOptions = .ok tinyParams := by
    decide +kernel
  obtain ⟨hscheduler, hnaive⟩ := short_requests_served_in_full hoptions (by decide) hbuild
  constructor
  · have hserved := hscheduler Scheduler.tinyServer 2 8 1 1 1 4 (fun _ ↦ 4) rfl Scheduler.tinyUnread
      Scheduler.reaches_tinyUnread (by decide +kernel)
    refine ⟨by decide +kernel, ?_⟩
    have hwanted : (Scheduler.tinyUnread.clients 0).responseDone = false := by decide +kernel
    refine (hserved.terminal (by decide +kernel)).resolve_left ?_
    rw [hwanted]
    exact Bool.false_ne_true
  · have hadmissible : tinySubmission.request.Admissible := ⟨by decide, by decide, by decide⟩
    obtain ⟨s, hreach, hpc⟩ := Naive.exists_returned (.gpt2 tinyGpt2) hadmissible
      (show tinySubmission.request.maxNewTokens < 4 by decide)
    obtain ⟨hcalm, -⟩ := Naive.undisturbed_reachable hadmissible hreach
    have hserved := hnaive (.gpt2 tinyGpt2) s (hreach.mono fun _ _ _ ↦ trivial) hcalm.receiverOpen
    refine ⟨s, hreach, (hserved.terminal hpc).resolve_left ?_⟩
    rw [hcalm.responseDone]
    exact Bool.false_ne_true

end HotBatch
