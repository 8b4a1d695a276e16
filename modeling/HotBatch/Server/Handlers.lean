import HotBatch.Server.Api

/-!
# The handlers

`completions` and `chat_completions` around `submit_prompt`: the checks on a request that are made
before anything shared is looked at, and the responses. Parsing the JSON of a request and writing that
of a response are left to the HTTP library: a handler is given what the extractor has made of the body,
a request or a rejection.
-/

namespace HotBatch

/-! ## Requests -/

inductive PromptField where
  | string (prompt : Str)
  | strings (prompts : List Str)

def PromptField.intoSinglePrompt : PromptField → Except ApiError Str
  | string prompt => .ok prompt
  | strings [prompt] => .ok prompt
  | strings [] =>
      .error (.invalid "prompt" "prompt array must contain exactly one nonblank string"
        "invalid_prompt")
  | strings _ =>
      .error (.invalid "prompt" "multiple prompts are not supported; provide a single prompt"
        "multiple_prompts_not_supported")

structure CompletionRequest (α : Type) where
  prompt : PromptField
  options : RequestOptions α
  stream : Option Bool

structure ChatMessage where
  role : String
  content : Str

structure ChatCompletionRequest (α : Type) where
  messages : List ChatMessage
  options : RequestOptions α
  stream : Option Bool

/-- What the handlers read of the extractor's `JsonRejection`: `status()` and `body_text()`. -/
structure JsonRejection where
  status : ℕ
  bodyText : String
  deriving DecidableEq

/-- Only two of the statuses of a rejection are passed on. -/
def ApiError.malformedJson (rejection : JsonRejection) : ApiError where
  status := if rejection.status = 413 ∨ rejection.status = 415 then rejection.status else 400
  message := s!"Invalid JSON request: {rejection.bodyText}"
  kind := "invalid_request_error"
  param := none
  code := "invalid_json"

/-- `TokenizerBundle::chat_template`. -/
def chatTemplate (messages : List ChatMessage) : Str :=
  messages.foldl (fun rendered message ↦
    rendered ++ message.role.toList ++ ": ".toList ++ message.content ++ ['\n']) [] ++
      "assistant: ".toList

/-- The loop over the messages, from the message with this index on. -/
def checkMessages (index : ℕ) : List ChatMessage → Option ApiError
  | [] => none
  | message :: rest =>
      if message.role ∉ ["system", "user", "assistant"] then
        some (.invalid "messages"
          s!"messages[{index}].role must be one of system, user, or assistant" "invalid_role")
      else if message.content.isBlank then
        some (.invalid "messages" s!"messages[{index}].content must be nonblank"
          "invalid_message_content")
      else checkMessages (index + 1) rest

section Inputs

variable {α : Type} [Scalar α] [FiniteCheck α]

/-- `completions` up to `submit_prompt`. -/
def completionsInput (state : AppState α) (payload : Except JsonRejection (CompletionRequest α)) :
    Except ApiError (Str × SubmitParams α) :=
  match payload with
  | .error rejection => .error (.malformedJson rejection)
  | .ok req =>
      match req.prompt.intoSinglePrompt with
      | .error err => .error err
      | .ok prompt =>
          if prompt.isBlank then
            .error (.invalid "prompt" "prompt must be a nonblank string" "invalid_prompt")
          else (validateOptions state req.options).map fun params ↦ (prompt, params)

/-- `chat_completions` up to `submit_prompt`. -/
def chatCompletionsInput (state : AppState α)
    (payload : Except JsonRejection (ChatCompletionRequest α)) :
    Except ApiError (Str × SubmitParams α) :=
  match payload with
  | .error rejection => .error (.malformedJson rejection)
  | .ok req =>
      if req.messages.isEmpty then
        .error (.invalid "messages" "messages must contain at least one message" "invalid_messages")
      else
        match checkMessages 0 req.messages with
        | some err => .error err
        | none =>
            (validateOptions state req.options).map fun params ↦ (chatTemplate req.messages, params)

/-- A request to one of the two endpoints, as the extractor hands it to the handler. -/
inductive ApiRequest (α : Type) where
  | completion (payload : Except JsonRejection (CompletionRequest α))
  | chat (payload : Except JsonRejection (ChatCompletionRequest α))

namespace ApiRequest

def input (state : AppState α) : ApiRequest α → Except ApiError (Str × SubmitParams α)
  | completion payload => completionsInput state payload
  | chat payload => chatCompletionsInput state payload

def kind : ApiRequest α → StreamKind
  | completion _ => .completion
  | chat _ => .chat

/-- `req.stream.unwrap_or(false)`; a request that was rejected is not asked. -/
def wantsStream : ApiRequest α → Bool
  | completion (.ok req) => req.stream.getD false
  | chat (.ok req) => req.stream.getD false
  | completion (.error _) | chat (.error _) => false

end ApiRequest

end Inputs

/-! ## Responses -/

structure Usage where
  promptTokens : ℕ
  completionTokens : ℕ
  totalTokens : ℕ
  deriving DecidableEq

/-- The text of the choice: a `text` field, or a `message` object. -/
inductive BodyText where
  | text (text : Str)
  | message (role : String) (content : Str)
  deriving DecidableEq

structure Body where
  id : String
  object : String
  model : String
  index : ℕ
  content : BodyText
  finishReason : String
  usage : Usage
  deriving DecidableEq

/-- The body for a collected generation. -/
def bodyOf (id object model : String) (content : Str → BodyText) (promptTokens : ℕ)
    (generation : CollectedGeneration) : Body where
  id := id
  object := object
  model := model
  index := 0
  content := content generation.text
  finishReason := finishReasonLabel generation.reason
  usage := ⟨promptTokens, generation.completionTokens, promptTokens + generation.completionTokens⟩

section Respond

variable {α : Type} (decode : Decode) (state : AppState α) (id : String) (promptTokens : ℕ)
  (stops : List Str) (items : List StreamItem)

def collectCompletion : Option (Except ApiError Body) :=
  (collectGeneration decode stops items).map fun outcome ↦
    outcome.1.map (bodyOf id "text_completion" state.modelName .text promptTokens)

def collectChatCompletion : Option (Except ApiError Body) :=
  (collectGeneration decode stops items).map fun outcome ↦
    outcome.1.map (bodyOf id "chat.completion" state.modelName (.message "assistant") promptTokens)

inductive Response where
  | json (result : Except ApiError Body)
  | sse (effects : List StreamEffect)

/-- The response once the request has been handed over; `id` is that of the handle. -/
def ApiRequest.respond (request : ApiRequest α) : Option Response :=
  match request with
  | .completion _ =>
      if request.wantsStream then
        (openaiStream decode s!"cmpl-{id}" state.modelName request.kind stops items).map .sse
      else (collectCompletion decode state s!"cmpl-{id}" promptTokens stops items).map .json
  | .chat _ =>
      if request.wantsStream then
        (openaiStream decode s!"chatcmpl-{id}" state.modelName request.kind stops items).map .sse
      else (collectChatCompletion decode state s!"chatcmpl-{id}" promptTokens stops items).map .json

end Respond

/-! ## The errors of the request itself -/

section Errors

variable {α : Type} [Scalar α] [FiniteCheck α]

omit [Scalar α] [FiniteCheck α] in
theorem error_of_map {β γ : Type} {f : β → γ} {result : Except ApiError β} {err : ApiError}
    (herror : result.map f = .error err) : result = .error err := by
  cases result with
  | error inner => exact congrArg _ (Except.error.inj herror)
  | ok _ => cases herror

omit [Scalar α] [FiniteCheck α] in
theorem exists_of_map {β γ : Type} {f : β → γ} {result : Except ApiError β} {value : γ}
    (hok : result.map f = .ok value) : ∃ inner, result = .ok inner ∧ f inner = value := by
  cases result with
  | error _ => cases hok
  | ok inner => exact ⟨inner, rfl, Except.ok.inj hok⟩

theorem status_of_validateOptions {state : AppState α} {options : RequestOptions α} {err : ApiError}
    (herror : validateOptions state options = .error err) : err.status = 400 ∨ err.status = 404 := by
  unfold validateOptions at herror
  split at herror
  · exact Or.inr (Except.error.inj herror ▸ rfl)
  · unfold validateSampling at herror
    dsimp only at herror
    split_ifs at herror <;> exact Or.inl (Except.error.inj herror ▸ rfl)

omit [Scalar α] [FiniteCheck α] in
theorem status_of_intoSinglePrompt {prompt : PromptField} {err : ApiError}
    (herror : prompt.intoSinglePrompt = .error err) : err.status = 400 := by
  unfold PromptField.intoSinglePrompt at herror
  split at herror
  · cases herror
  · cases herror
  · exact Except.error.inj herror ▸ rfl
  · exact Except.error.inj herror ▸ rfl

omit [Scalar α] [FiniteCheck α] in
theorem status_of_checkMessages {messages : List ChatMessage} {index : ℕ} {err : ApiError}
    (herror : checkMessages index messages = some err) : err.status = 400 := by
  induction messages generalizing index with
  | nil => cases herror
  | cons message rest ih =>
      rw [checkMessages] at herror
      split at herror
      · exact Option.some.inj herror ▸ rfl
      · split at herror
        · exact Option.some.inj herror ▸ rfl
        · exact ih herror

omit [Scalar α] [FiniteCheck α] in
theorem status_of_malformedJson (rejection : JsonRejection) :
    (ApiError.malformedJson rejection).status ∈ [400, 413, 415] := by
  unfold ApiError.malformedJson
  dsimp only
  split_ifs with hpassed
  · rcases hpassed with hpassed | hpassed <;> rw [hpassed] <;> decide
  · decide

theorem status_of_input {state : AppState α} {request : ApiRequest α} {err : ApiError}
    (herror : request.input state = .error err) : err.status ∈ [400, 404, 413, 415] := by
  have hown : err.status = 400 ∨ err.status = 404 → err.status ∈ [400, 404, 413, 415] := by
    rintro (hstatus | hstatus) <;> rw [hstatus] <;> decide
  have hrejected : ∀ rejection, ApiError.malformedJson rejection = err →
      err.status ∈ [400, 404, 413, 415] := by
    rintro rejection rfl
    have hsubset : [400, 413, 415] ⊆ [400, 404, 413, 415] := by decide
    exact hsubset (status_of_malformedJson rejection)
  cases request with
  | completion payload =>
      change completionsInput state payload = .error err at herror
      cases payload with
      | error rejection => exact hrejected rejection (Except.error.inj herror)
      | ok req =>
          unfold completionsInput at herror
          dsimp only at herror
          apply hown
          rcases hprompt : req.prompt.intoSinglePrompt with inner | prompt
          · rw [hprompt] at herror
            exact Or.inl (Except.error.inj herror ▸ status_of_intoSinglePrompt hprompt)
          · rw [hprompt] at herror
            dsimp only at herror
            split at herror
            · exact Or.inl (Except.error.inj herror ▸ rfl)
            · exact status_of_validateOptions (error_of_map herror)
  | chat payload =>
      change chatCompletionsInput state payload = .error err at herror
      cases payload with
      | error rejection => exact hrejected rejection (Except.error.inj herror)
      | ok req =>
          unfold chatCompletionsInput at herror
          dsimp only at herror
          apply hown
          split at herror
          · exact Or.inl (Except.error.inj herror ▸ rfl)
          · rcases hmessages : checkMessages 0 req.messages with _ | inner
            · rw [hmessages] at herror
              exact status_of_validateOptions (error_of_map herror)
            · rw [hmessages] at herror
              exact Or.inl (Except.error.inj herror ▸ status_of_checkMessages hmessages)

/-- The parameters have been validated. -/
theorem validated_of_input {state : AppState α} {request : ApiRequest α} {prompt : Str}
    {params : SubmitParams α} (hinput : request.input state = .ok (prompt, params)) :
    ∃ options, validateOptions state options = .ok params := by
  cases request with
  | completion payload =>
      change completionsInput state payload = .ok _ at hinput
      cases payload with
      | error rejection => cases hinput
      | ok req =>
          unfold completionsInput at hinput
          dsimp only at hinput
          rcases hprompt : req.prompt.intoSinglePrompt with inner | single
          · rw [hprompt] at hinput
            cases hinput
          · rw [hprompt] at hinput
            dsimp only at hinput
            split at hinput
            · cases hinput
            · obtain ⟨inner, hvalid, hpair⟩ := exists_of_map hinput
              exact ⟨req.options, hvalid.trans (congrArg _ (Prod.mk.inj hpair).2)⟩
  | chat payload =>
      change chatCompletionsInput state payload = .ok _ at hinput
      cases payload with
      | error rejection => cases hinput
      | ok req =>
          unfold chatCompletionsInput at hinput
          dsimp only at hinput
          split at hinput
          · cases hinput
          · rcases hmessages : checkMessages 0 req.messages with _ | inner
            · rw [hmessages] at hinput
              obtain ⟨inner, hvalid, hpair⟩ := exists_of_map hinput
              exact ⟨req.options, hvalid.trans (congrArg _ (Prod.mk.inj hpair).2)⟩
            · rw [hmessages] at hinput
              cases hinput

end Errors

/-- The only error that is not about the request is out of reach of what is validated. -/
theorem status_of_buildRequest {α : Type} {state : AppState α} {id : String} {client : ClientId}
    {prompt : Str} {params : SubmitParams α} {err : ApiError}
    (herror : buildRequest state id client prompt params = .error err) :
    err.status = 400 ∨ err.status = 500 ∧ Usize.maxValue ≤ params.maxTokens := by
  unfold buildRequest at herror
  split at herror
  · exact Or.inl (Except.error.inj herror ▸ rfl)
  · split_ifs at herror
    · exact Or.inl (Except.error.inj herror ▸ rfl)
    · exact Or.inl (Except.error.inj herror ▸ rfl)
    · split at herror
      · rename_i hoverflow
        refine Or.inr ⟨Except.error.inj herror ▸ rfl, ?_⟩
        unfold Usize.checkedAdd at hoverflow
        split_ifs at hoverflow with hfits
        unfold Usize.maxValue
        omega
      · cases herror

end HotBatch
