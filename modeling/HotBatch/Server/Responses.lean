import HotBatch.Core.Sequence
import HotBatch.Foundation.Utf8Lossy
import HotBatch.Server.TextFilter

/-!
# The two response paths

A response task receives stream items until a terminal one, or until the channel closes, and turns
them into text: `collectGeneration` into one JSON body, `openaiStream` into server-sent events. Both
loops are written down as the source has them, over the items still to be received and with an
arbitrary tokenizer. JSON encoding is left out, so an event carries the value that is encoded.

The two loops are separate programs; `responses_agree` relates them.
-/

namespace HotBatch

/-- The decoding function of a tokenizer, with the text of its failure. -/
abbrev Decode := List Token → Except String Str

structure ApiError where
  status : ℕ
  message : String
  kind : String
  param : Option String
  code : String
  deriving DecidableEq

def ApiError.generation (message : String) : ApiError where
  status := 500
  message := message
  kind := "server_error"
  param := none
  code := "generation_error"

/-- The failure both paths report when the tokenizer fails. -/
def ApiError.undecodable (error : String) : ApiError :=
  .generation s!"generated tokens could not be decoded: {error}"

/-- The failure both paths report for an error item. -/
def ApiError.failed (message : String) : ApiError :=
  .generation s!"generation failed: {message}"

def ApiError.unterminated : ApiError := .generation "generation ended before a terminal event"

def finishReasonLabel : FinishReason → String
  | .length => "length"
  | .stop => "stop"

/-! ## Collecting -/

structure CollectedGeneration where
  text : Str
  completionTokens : ℕ
  reason : FinishReason
  deriving DecidableEq

/-- The loop of `collect_generation` over the items still to come, with its result and whether it
called `stop_generation`. -/
def collectFrom (decode : Decode) (tokens : List Token) (text : Str) (output : TextOutputFilter) :
    List StreamItem → Option (Except ApiError CollectedGeneration × Bool)
  | .token token :: items =>
      let tokens := tokens ++ [token]
      match decode tokens with
      | .error error => some (.error (.undecodable error), false)
      | .ok decoded =>
          match output.push (Utf8.trimReplacement decoded) with
          | none => none
          | some (.error message, _) => some (.error (.generation message), false)
          | some (.ok (.continue fragment), output) =>
              collectFrom decode tokens (text ++ fragment) output items
          | some (.ok (.stop fragment), _) =>
              some (.ok ⟨text ++ fragment, tokens.length, .stop⟩, true)
  | .finished reason :: _ =>
      match decode tokens with
      | .error error => some (.error (.undecodable error), false)
      | .ok decoded =>
          match output.finish decoded with
          | (.error message, _) => some (.error (.generation message), false)
          | (.ok remaining, _) => some (.ok ⟨text ++ remaining, tokens.length, reason⟩, false)
  | .error message :: _ => some (.error (.failed message), false)
  | [] => some (.error .unterminated, false)

def collectGeneration (decode : Decode) (stops : List Str) (items : List StreamItem) :
    Option (Except ApiError CollectedGeneration × Bool) :=
  collectFrom decode [] [] (.new stops) items

/-! ## Streaming -/

inductive StreamKind where
  | completion
  | chat
  deriving DecidableEq

/-- The text of a choice: a `text` field, or a `delta` object whose `content` may be missing. -/
inductive ChoiceText where
  | text (text : Str)
  | delta (content : Option Str)
  deriving DecidableEq

structure Chunk where
  id : String
  object : String
  model : String
  index : ℕ
  content : ChoiceText
  finishReason : Option String
  deriving DecidableEq

inductive SseEvent where
  | chunk (payload : Chunk)
  | error (payload : ApiError)
  | done
  deriving DecidableEq

/-- What the response stream does, in order. -/
inductive StreamEffect where
  | yield (event : SseEvent)
  | cancelResponse
  deriving DecidableEq

section Stream

variable (decode : Decode) (id model : String) (kind : StreamKind)

/-- The frame of one token. -/
def tokenChunk (text : Str) : Chunk :=
  match kind with
  | .completion => ⟨id, "text_completion", model, 0, .text text, none⟩
  | .chat => ⟨id, "chat.completion.chunk", model, 0, .delta (some text), none⟩

/-- The frame that closes a stream after a textual stop. -/
def stopChunk : Chunk :=
  match kind with
  | .completion =>
      ⟨id, "text_completion", model, 0, .text [], some (finishReasonLabel .stop)⟩
  | .chat =>
      ⟨id, "chat.completion.chunk", model, 0, .delta none, some (finishReasonLabel .stop)⟩

/-- The frame that closes a stream at its natural end, with the text that was held back. -/
def finishChunk (remaining : Str) (reason : FinishReason) : Chunk :=
  match kind with
  | .completion =>
      ⟨id, "text_completion", model, 0, .text remaining, some (finishReasonLabel reason)⟩
  | .chat =>
      ⟨id, "chat.completion.chunk", model, 0,
        .delta (if remaining.isEmpty then none else some remaining),
        some (finishReasonLabel reason)⟩

/-- The loop of `openai_stream` over the items still to come. -/
def streamFrom (tokens : List Token) (output : TextOutputFilter) :
    List StreamItem → Option (List StreamEffect)
  | .token token :: items =>
      let tokens := tokens ++ [token]
      match decode tokens with
      | .error error => some [.yield (.error (.undecodable error))]
      | .ok decoded =>
          match output.push (Utf8.trimReplacement decoded) with
          | none => none
          | some (.error message, _) => some [.yield (.error (.generation message))]
          | some (.ok (.continue text), output) =>
              (streamFrom tokens output items).map fun effects ↦
                .yield (.chunk (tokenChunk id model kind text)) :: effects
          | some (.ok (.stop text), _) =>
              some [.cancelResponse, .yield (.chunk (tokenChunk id model kind text)),
                .yield (.chunk (stopChunk id model kind)), .yield .done]
  | .finished reason :: _ =>
      match decode tokens with
      | .error error => some [.yield (.error (.undecodable error))]
      | .ok decoded =>
          match output.finish decoded with
          | (.error message, _) => some [.yield (.error (.generation message))]
          | (.ok remaining, _) =>
              some [.yield (.chunk (finishChunk id model kind remaining reason)), .yield .done]
  | .error message :: _ => some [.yield (.error (.failed message))]
  | [] => some [.yield (.error .unterminated)]

def openaiStream (stops : List Str) (items : List StreamItem) : Option (List StreamEffect) :=
  streamFrom decode id model kind [] (.new stops) items

end Stream

/-! ## What a client reads off a stream -/

/-- The text a frame adds: its `text`, or the `content` of its `delta`. -/
def Chunk.visibleText (chunk : Chunk) : Str :=
  match chunk.content with
  | .text text => text
  | .delta content => content.getD []

def StreamEffect.event? : StreamEffect → Option SseEvent
  | .yield event => some event
  | .cancelResponse => none

def SseEvent.chunk? : SseEvent → Option Chunk
  | .chunk payload => some payload
  | _ => none

def eventsOf (effects : List StreamEffect) : List SseEvent := effects.filterMap StreamEffect.event?

def chunksOf (effects : List StreamEffect) : List Chunk :=
  (eventsOf effects).filterMap SseEvent.chunk?

def streamedText (effects : List StreamEffect) : Str :=
  (chunksOf effects).flatMap Chunk.visibleText

/-- Number of frames whose `finish_reason` is null. -/
def tokenFrames (effects : List StreamEffect) : ℕ :=
  (chunksOf effects).countP fun chunk ↦ chunk.finishReason.isNone

/-- The events end with a frame that reports `reason`, followed by `[DONE]`. -/
def EndsDone (reason : String) (events : List SseEvent) : Prop :=
  ∃ front chunk, events = front ++ [.chunk chunk, .done] ∧ chunk.finishReason = some reason

/-- The events end with an error event, and nothing else in them ends a stream. -/
def EndsError (error : ApiError) (events : List SseEvent) : Prop :=
  ∃ front, events = front ++ [.error error] ∧ SseEvent.done ∉ front

theorem EndsDone.not_endsError {reason : String} {error : ApiError} {events : List SseEvent}
    (hdone : EndsDone reason events) : ¬ EndsError error events := by
  obtain ⟨front, chunk, rfl, -⟩ := hdone
  rintro ⟨front', heq, -⟩
  have hlast := congrArg List.getLast? heq
  simp at hlast

theorem EndsError.error_unique {left right : ApiError} {events : List SseEvent}
    (hleft : EndsError left events) (hright : EndsError right events) : left = right := by
  obtain ⟨front, rfl, -⟩ := hleft
  obtain ⟨front', heq, -⟩ := hright
  have hlast := (List.append_inj' heq rfl).2
  simpa using hlast

/-- What the stream of an outcome of `collect_generation` looks like, when `text` was already
collected from `count` tokens. -/
def Matches (text : Str) (count : ℕ) (effects : List StreamEffect) :
    Except ApiError CollectedGeneration × Bool → Prop
  | (.ok generation, cancelled) =>
      EndsDone (finishReasonLabel generation.reason) (eventsOf effects) ∧
      generation.text = text ++ streamedText effects ∧
      generation.completionTokens = count + tokenFrames effects ∧
      (StreamEffect.cancelResponse ∈ effects ↔ cancelled = true)
  | (.error error, cancelled) =>
      EndsError error (eventsOf effects) ∧
      (StreamEffect.cancelResponse ∈ effects ↔ cancelled = true)

@[simp]
theorem visibleText_tokenChunk (id model : String) (kind : StreamKind) (text : Str) :
    (tokenChunk id model kind text).visibleText = text := by
  cases kind <;> rfl

@[simp]
theorem finishReason_tokenChunk (id model : String) (kind : StreamKind) (text : Str) :
    (tokenChunk id model kind text).finishReason = none := by
  cases kind <;> rfl

@[simp]
theorem visibleText_stopChunk (id model : String) (kind : StreamKind) :
    (stopChunk id model kind).visibleText = [] := by
  cases kind <;> rfl

@[simp]
theorem finishReason_stopChunk (id model : String) (kind : StreamKind) :
    (stopChunk id model kind).finishReason = some (finishReasonLabel .stop) := by
  cases kind <;> rfl

/-- The chat frame drops the content of an empty flush, which changes no text. -/
@[simp]
theorem visibleText_finishChunk (id model : String) (kind : StreamKind) (remaining : Str)
    (reason : FinishReason) : (finishChunk id model kind remaining reason).visibleText = remaining := by
  cases kind with
  | completion => rfl
  | chat => cases remaining <;> rfl

@[simp]
theorem finishReason_finishChunk (id model : String) (kind : StreamKind) (remaining : Str)
    (reason : FinishReason) :
    (finishChunk id model kind remaining reason).finishReason = some (finishReasonLabel reason) := by
  cases kind <;> rfl

/-- A token frame in front of a stream moves its text and its count to the collected side. -/
theorem matches_cons_tokenChunk {text fragment : Str} {count : ℕ} {effects : List StreamEffect}
    {outcome : Except ApiError CollectedGeneration × Bool} (id model : String) (kind : StreamKind)
    (hmatches : Matches (text ++ fragment) (count + 1) effects outcome) :
    Matches text count (.yield (.chunk (tokenChunk id model kind fragment)) :: effects) outcome := by
  have hevents : eventsOf (.yield (.chunk (tokenChunk id model kind fragment)) :: effects) =
      .chunk (tokenChunk id model kind fragment) :: eventsOf effects := rfl
  have hcancel : StreamEffect.cancelResponse ∈
      .yield (.chunk (tokenChunk id model kind fragment)) :: effects ↔
        StreamEffect.cancelResponse ∈ effects := by simp
  obtain ⟨result, cancelled⟩ := outcome
  cases result with
  | ok generation =>
      obtain ⟨⟨front, chunk, hfront, hreason⟩, htext, hcount, hdone⟩ := hmatches
      refine ⟨⟨.chunk (tokenChunk id model kind fragment) :: front, chunk, ?_, hreason⟩, ?_, ?_,
        hcancel.trans hdone⟩
      · rw [hevents, hfront]
        rfl
      · calc generation.text = text ++ (fragment ++ streamedText effects) := by
              rw [htext, List.append_assoc]
          _ = _ := by simp [streamedText, chunksOf, hevents, SseEvent.chunk?]
      · calc generation.completionTokens = count + (tokenFrames effects + 1) := by
              rw [hcount]
              omega
          _ = _ := by simp [tokenFrames, chunksOf, hevents, SseEvent.chunk?]
  | error error =>
      obtain ⟨⟨front, hfront, hnotDone⟩, hdone⟩ := hmatches
      refine ⟨⟨.chunk (tokenChunk id model kind fragment) :: front, ?_, ?_⟩, hcancel.trans hdone⟩
      · rw [hevents, hfront]
        rfl
      · simpa using hnotDone

theorem matches_error (text : Str) (count : ℕ) (error : ApiError) :
    Matches text count [.yield (.error error)] (.error error, false) := by
  unfold Matches
  exact ⟨⟨[], rfl, List.not_mem_nil⟩, by simp⟩

/-- The end of both paths at a textual stop. -/
theorem matches_stop (id model : String) (kind : StreamKind) (text fragment : Str) (count : ℕ) :
    Matches text count [.cancelResponse, .yield (.chunk (tokenChunk id model kind fragment)),
      .yield (.chunk (stopChunk id model kind)), .yield .done]
      (.ok ⟨text ++ fragment, count + 1, .stop⟩, true) := by
  have hchunks : chunksOf [.cancelResponse, .yield (.chunk (tokenChunk id model kind fragment)),
      .yield (.chunk (stopChunk id model kind)), .yield .done] =
        [tokenChunk id model kind fragment, stopChunk id model kind] := rfl
  unfold Matches
  refine ⟨⟨[.chunk (tokenChunk id model kind fragment)], _, rfl, ?_⟩, ?_, ?_, ?_⟩
  · exact finishReason_stopChunk id model kind
  · simp [streamedText, hchunks]
  · simp [tokenFrames, hchunks]
  · simp

/-- The end of both paths at a finish item. -/
theorem matches_finish (id model : String) (kind : StreamKind) (text remaining : Str) (count : ℕ)
    (reason : FinishReason) :
    Matches text count [.yield (.chunk (finishChunk id model kind remaining reason)), .yield .done]
      (.ok ⟨text ++ remaining, count, reason⟩, false) := by
  have hchunks : chunksOf [.yield (.chunk (finishChunk id model kind remaining reason)),
      .yield .done] = [finishChunk id model kind remaining reason] := rfl
  unfold Matches
  refine ⟨⟨[], _, rfl, ?_⟩, ?_, ?_, ?_⟩
  · exact finishReason_finishChunk id model kind remaining reason
  · simp [streamedText, hchunks]
  · simp [tokenFrames, hchunks]
  · simp

/-- Both loops step together on every item, so from equal tokens and equal filters they end with
matching results. -/
theorem collectFrom_matches_streamFrom (decode : Decode) (id model : String) (kind : StreamKind)
    (items : List StreamItem) (tokens : List Token) (text : Str) (output : TextOutputFilter) :
    ∃ outcome effects, collectFrom decode tokens text output items = some outcome ∧
      streamFrom decode id model kind tokens output items = some effects ∧
      Matches text tokens.length effects outcome := by
  induction items generalizing tokens text output with
  | nil => exact ⟨_, _, rfl, rfl, matches_error _ _ _⟩
  | cons item items ih =>
      cases item with
      | token token =>
          simp only [collectFrom, streamFrom]
          cases decode (tokens ++ [token]) with
          | error error => exact ⟨_, _, rfl, rfl, matches_error _ _ _⟩
          | ok decoded =>
              have hsome := output.push_isSome (Utf8.trimReplacement decoded)
              cases hpush : output.push (Utf8.trimReplacement decoded) with
              | none => simp [hpush] at hsome
              | some result =>
                  obtain ⟨update, next⟩ := result
                  cases update with
                  | error message =>
                      simp only [hpush]
                      exact ⟨_, _, rfl, rfl, matches_error _ _ _⟩
                  | ok update =>
                      cases update with
                      | «continue» fragment =>
                          obtain ⟨outcome, effects, hcollect, hstream, hmatches⟩ :=
                            ih (tokens ++ [token]) (text ++ fragment) next
                          rw [List.length_append, List.length_singleton] at hmatches
                          simp only [hpush, hcollect, hstream, Option.map_some]
                          exact ⟨_, _, rfl, rfl, matches_cons_tokenChunk id model kind hmatches⟩
                      | stop fragment =>
                          simp only [hpush]
                          refine ⟨_, _, rfl, rfl, ?_⟩
                          simpa using matches_stop id model kind text fragment tokens.length
      | finished reason =>
          simp only [collectFrom, streamFrom]
          cases decode tokens with
          | error error => exact ⟨_, _, rfl, rfl, matches_error _ _ _⟩
          | ok decoded =>
              cases hfinish : output.finish decoded with
              | mk result next =>
                  cases result with
                  | error message =>
                      simp only [hfinish]
                      exact ⟨_, _, rfl, rfl, matches_error _ _ _⟩
                  | ok remaining =>
                      simp only [hfinish]
                      exact ⟨_, _, rfl, rfl,
                        matches_finish id model kind text remaining tokens.length reason⟩
      | error message =>
          simp only [collectFrom, streamFrom]
          exact ⟨_, _, rfl, rfl, matches_error _ _ _⟩

/-- **Streaming and non-streaming responses agree.** On the same items both paths return without a
panic, and then: collecting succeeds exactly when the stream ends with a frame that has a finish
reason, followed by `[DONE]`, and in that case text, finish reason and token count are the same; it
fails exactly when the stream ends with an error event, which is the same error and which no `[DONE]`
accompanies; and one path cancels `response_done` exactly when the other does. -/
theorem responses_agree (decode : Decode) (id model : String) (kind : StreamKind)
    (stops : List Str) (items : List StreamItem) :
    ∃ result cancelled effects,
      collectGeneration decode stops items = some (result, cancelled) ∧
      openaiStream decode id model kind stops items = some effects ∧
      ((∃ generation, result = .ok generation) ↔
        ∃ reason, EndsDone reason (eventsOf effects)) ∧
      (∀ generation, result = .ok generation →
        streamedText effects = generation.text ∧
        EndsDone (finishReasonLabel generation.reason) (eventsOf effects) ∧
        tokenFrames effects = generation.completionTokens) ∧
      (∀ error, result = .error error ↔ EndsError error (eventsOf effects)) ∧
      (StreamEffect.cancelResponse ∈ effects ↔ cancelled = true) := by
  obtain ⟨⟨result, cancelled⟩, effects, hcollect, hstream, hmatches⟩ :=
    collectFrom_matches_streamFrom decode id model kind items [] [] (.new stops)
  refine ⟨result, cancelled, effects, hcollect, hstream, ?_⟩
  cases result with
  | ok generation =>
      obtain ⟨hdone, htext, hcount, hcancel⟩ := hmatches
      refine ⟨?_, ?_, ?_, hcancel⟩
      · constructor
        · intro _
          exact ⟨_, hdone⟩
        · intro _
          exact ⟨generation, rfl⟩
      · intro other hok
        obtain rfl := Except.ok.inj hok
        exact ⟨htext.symm, hdone, by simpa using hcount.symm⟩
      · intro error
        constructor
        · intro hok
          cases hok
        · intro herror
          exact absurd herror hdone.not_endsError
  | error error =>
      obtain ⟨herror, hcancel⟩ := hmatches
      refine ⟨?_, ?_, ?_, hcancel⟩
      · constructor
        · rintro ⟨_, hok⟩
          cases hok
        · rintro ⟨reason, hdone⟩
          exact absurd herror hdone.not_endsError
      · intro generation hok
        cases hok
      · intro other
        constructor
        · rintro ⟨⟩
          exact herror
        · intro hother
          rw [herror.error_unique hother]

end HotBatch
