import HotBatch.Server.Responses
import HotBatch.Server.Startup

/-!
# The front door

`validate_options` and `submit_prompt`: the checks a request passes in the HTTP layer before one of
the engines sees it, with the errors they answer. What a request finds of the shared state at its
reads, the `alive` flag, the queue and the admission counter, is a `Moment`.
-/

namespace HotBatch

namespace ApiError

def invalid (param message code : String) : ApiError :=
  ⟨400, message, "invalid_request_error", some param, code⟩

def modelNotFound (model : String) : ApiError :=
  ⟨404, s!"The model '{model}' does not exist or is not loaded", "invalid_request_error",
    some "model", "model_not_found"⟩

def queueFull : ApiError :=
  ⟨429, "request queue is full; retry later", "rate_limit_error", none, "queue_full"⟩

def unavailable : ApiError :=
  ⟨503, "generation scheduler is unavailable", "server_error", none, "scheduler_unavailable"⟩

def internal (message : String) : ApiError :=
  ⟨500, message, "server_error", none, "internal_error"⟩

end ApiError

/-! ## The options -/

inductive StopField where
  | string (stop : Str)
  | strings (stops : List Str)

def StopField.intoVec : StopField → List Str
  | string stop => [stop]
  | strings stops => stops

/-- The options of a completion or chat request. -/
structure RequestOptions (α : Type) where
  model : Option String
  maxTokens : Option ℕ
  temperature : Option α
  topP : Option α
  topK : Option ℕ
  stop : Option StopField
  seed : Option UInt64
  priority : Option UInt8

structure SubmitParams (α : Type) where
  maxTokens : ℕ
  temperature : α
  topP : α
  topK : Option ℕ
  stops : List Str
  seed : UInt64
  priority : UInt8
  deriving DecidableEq

def defaultMaxTokens : ℕ := 16

def maxStopSequences : ℕ := 4

def responseChannelCapacity : ℕ := 32

/-- `text.trim().is_empty()`. -/
def Str.isBlank (text : Str) : Bool := text.all isWhitespace

/-- `f32::is_finite`. -/
class FiniteCheck (α : Type) where
  isFinite : α → Bool

section Options

variable {α : Type} [Scalar α] [FiniteCheck α]

/-- The sampling options and the stops, in the order of their checks. -/
def validateSampling (maxTokens : ℕ) (options : RequestOptions α) :
    Except ApiError (SubmitParams α) :=
  let temperature := options.temperature.getD 0.0
  let topP := options.topP.getD 1.0
  if !FiniteCheck.isFinite temperature ||
      !(Scalar.le 0.0 temperature && Scalar.le temperature 2.0) then
    .error (.invalid "temperature" "temperature must be finite and between 0 and 2"
      "invalid_temperature")
  else if !(FiniteCheck.isFinite topP && Scalar.lt 0.0 topP && Scalar.le topP 1.0) then
    .error (.invalid "top_p" "top_p must be finite, greater than 0, and at most 1" "invalid_top_p")
  else if options.topK = some 0 then
    .error (.invalid "top_k" "top_k must be greater than zero" "invalid_top_k")
  else if (options.stop.map fun stop ↦ stop.intoVec.isEmpty) = some true then
    .error (.invalid "stop" "stop must contain at least one sequence when provided" "invalid_stop")
  else
    let stops := (options.stop.map StopField.intoVec).getD []
    if maxStopSequences < stops.length then
      .error (.invalid "stop" s!"stop supports at most {maxStopSequences} sequences"
        "too_many_stop_sequences")
    else if stops.any Str.isBlank then
      .error (.invalid "stop" "stop sequences must be nonblank strings" "invalid_stop")
    else .ok
      { maxTokens := maxTokens
        temperature := temperature
        topP := topP
        topK := options.topK
        stops := stops
        seed := options.seed.getD 0
        priority := options.priority.getD 5 }

def validateOptions (state : AppState α) (options : RequestOptions α) :
    Except ApiError (SubmitParams α) :=
  match options.model.filter fun model ↦
      (normalizeModelName model).toOption ≠ some state.modelName with
  | some model => .error (.modelNotFound model)
  | none =>
      let maxTokens := options.maxTokens.getD (min defaultMaxTokens state.maxNewTokens)
      if maxTokens = 0 then
        .error (.invalid "max_tokens" "max_tokens must be greater than zero" "invalid_max_tokens")
      else if state.maxNewTokens < maxTokens then
        .error (.invalid "max_tokens"
          s!"max_tokens cannot exceed the configured limit of {state.maxNewTokens}"
          "max_tokens_exceeded")
      else validateSampling maxTokens options

theorem maxTokens_of_validateSampling {maxTokens : ℕ} {options : RequestOptions α}
    {params : SubmitParams α} (hparams : validateSampling maxTokens options = .ok params) :
    params.maxTokens = maxTokens := by
  unfold validateSampling at hparams
  dsimp only at hparams
  split_ifs at hparams
  exact (congrArg SubmitParams.maxTokens (Except.ok.inj hparams)).symm

/-- What passes has a token to generate, and no more than the command line allows. -/
theorem maxTokens_of_validateOptions {state : AppState α} {options : RequestOptions α}
    {params : SubmitParams α} (hparams : validateOptions state options = .ok params) :
    0 < params.maxTokens ∧ params.maxTokens ≤ state.maxNewTokens := by
  unfold validateOptions at hparams
  split at hparams
  · cases hparams
  · dsimp only at hparams
    split_ifs at hparams with hzero hlimit
    rw [maxTokens_of_validateSampling hparams]
    exact ⟨Nat.pos_of_ne_zero hzero, Nat.not_lt.mp hlimit⟩

end Options

/-! ## The request -/

/-- `hash_tokens`. -/
def hashTokens (tokens : List Token) : UInt64 :=
  tokens.foldl (fun hash token ↦ (hash ^^^ token.toUInt64) * 0x100000001b3) 0xcbf29ce484222325

/-- A request with the capacity of its channel. -/
structure Submission (α : Type) where
  request : GenerationRequest α
  channelCapacity : ℕ

section Submit

variable {α : Type}

/-- The part of `submit_prompt` that makes the request. The sender is known by its client. -/
def buildRequest (state : AppState α) (id : String) (client : ClientId) (prompt : Str)
    (params : SubmitParams α) : Except ApiError (Submission α) :=
  match state.tokenizer.encode prompt with
  | .error err =>
      .error (.invalid "prompt" s!"prompt could not be tokenized: {err}" "invalid_prompt")
  | .ok promptTokens =>
      if promptTokens.isEmpty then
        .error (.invalid "prompt" "prompt must produce at least one token" "invalid_prompt")
      else if state.maxSeqLen < Usize.saturatingAdd promptTokens.length params.maxTokens then
        .error (.invalid "max_tokens"
          s!"prompt has {promptTokens.length} tokens and max_tokens is {params.maxTokens}; their sum exceeds the {state.maxSeqLen}-token sequence limit"
          "context_length_exceeded")
      else
        match Usize.checkedAdd params.maxTokens 1 with
        | none => .error (.internal "response channel capacity overflow")
        | some outputCapacity => .ok
            { request :=
                { id := id
                  promptTokens := promptTokens
                  samplerConfig :=
                    { temperature := params.temperature
                      topP := params.topP
                      topK := params.topK
                      stopSequences := []
                      maxNewTokens := params.maxTokens
                      eosToken := state.tokenizer.eosToken
                      seed := params.seed }
                  client := client
                  priority := params.priority
                  promptHash := hashTokens promptTokens }
              channelCapacity := max 2 (min outputCapacity responseChannelCapacity) }

/-- What one call of `submit_prompt` reads of the shared state, in the order of its reads. -/
structure Moment (α : Type) where
  alive : Bool
  stillAlive : Bool
  queue : RequestQueue α
  isOpen : ClientId → Bool
  queueClosed : Bool
  shutdown : Bool
  accepted : ℕ
  stillShutdown : Bool

/-- `AdmissionControl::try_acquire`: the number of permits after it. -/
def tryAcquire (maxQueueDepth accepted : ℕ) : Option ℕ :=
  if maxQueueDepth < accepted then none else Usize.checkedAdd accepted 1

/-- The hand-over to the engine. -/
def enqueue (engine : Engine α) (moment : Moment α) (req : GenerationRequest α) :
    Except ApiError Unit :=
  match engine with
  | .continuous _ _ _ =>
      if (moment.queue.submit moment.isOpen req).1 then .ok ()
      else if moment.queueClosed then .error .unavailable
      else .error .queueFull
  | .naive _ maxQueueDepth =>
      if moment.shutdown then .error .unavailable
      else if (tryAcquire maxQueueDepth moment.accepted).isNone then .error .queueFull
      else if moment.stillShutdown then .error .unavailable
      else .ok ()

/-- `submit_prompt`: the request, the number of prompt tokens and the stops for the response. -/
def submitPrompt (state : AppState α) (moment : Moment α) (id : String) (client : ClientId)
    (prompt : Str) (params : SubmitParams α) : Except ApiError (Submission α × ℕ × List Str) :=
  if !moment.alive then .error .unavailable
  else
    match buildRequest state id client prompt params with
    | .error err => .error err
    | .ok submission =>
        if !moment.stillAlive then .error .unavailable
        else
          match enqueue state.engine moment submission.request with
          | .error err => .error err
          | .ok () => .ok (submission, submission.request.promptLen, params.stops)

/-- What is known of a request that was made. -/
structure Built (state : AppState α) (params : SubmitParams α) (req : GenerationRequest α) : Prop where
  prompt_ne : req.promptTokens ≠ []
  maxNewTokens_eq : req.maxNewTokens = params.maxTokens
  total_le : Usize.saturatingAdd req.promptLen req.maxNewTokens ≤ state.maxSeqLen

theorem built_of_buildRequest {state : AppState α} {id : String} {client : ClientId} {prompt : Str}
    {params : SubmitParams α} {submission : Submission α}
    (hbuild : buildRequest state id client prompt params = .ok submission) :
    Built state params submission.request := by
  unfold buildRequest at hbuild
  split at hbuild
  · cases hbuild
  · rename_i promptTokens _
    split_ifs at hbuild with hempty hlen
    split at hbuild
    · cases hbuild
    · obtain rfl := Except.ok.inj hbuild
      exact ⟨fun hnil ↦ hempty (List.isEmpty_iff.mpr hnil), rfl, Nat.not_lt.mp hlen⟩

/-- The channel of a request is as large as its limit asks for, within the bounds of the server. -/
theorem channel_of_buildRequest {state : AppState α} {id : String} {client : ClientId}
    {prompt : Str} {params : SubmitParams α} {submission : Submission α}
    (hbuild : buildRequest state id client prompt params = .ok submission) :
    submission.request.client = client ∧ submission.channelCapacity =
      max 2 (min (params.maxTokens + 1) responseChannelCapacity) := by
  unfold buildRequest at hbuild
  split at hbuild
  · cases hbuild
  · split_ifs at hbuild
    split at hbuild
    · cases hbuild
    · rename_i outputCapacity hcapacity
      obtain ⟨-, rfl⟩ := Usize.checkedAdd_eq_some.mp hcapacity
      obtain rfl := Except.ok.inj hbuild
      exact ⟨rfl, rfl⟩

/-- Whatever was handed over was made first. -/
theorem buildRequest_of_submitPrompt {state : AppState α} {moment : Moment α} {id : String}
    {client : ClientId} {prompt : Str} {params : SubmitParams α} {submission : Submission α}
    {rest : ℕ × List Str}
    (hsubmit : submitPrompt state moment id client prompt params = .ok (submission, rest)) :
    buildRequest state id client prompt params = .ok submission := by
  unfold submitPrompt at hsubmit
  split at hsubmit
  · cases hsubmit
  cases hmade : buildRequest state id client prompt params with
  | error err =>
      rw [hmade] at hsubmit
      cases hsubmit
  | ok made =>
      rw [hmade] at hsubmit
      dsimp only at hsubmit
      split at hsubmit
      · cases hsubmit
      split at hsubmit
      · cases hsubmit
      · exact congrArg Except.ok (Prod.mk.inj (Except.ok.inj hsubmit)).1

end Submit

end HotBatch
