import HotBatch.Core.AnswerEnd
import HotBatch.Server.Agreement
import HotBatch.Server.Handlers

/-!
# What a response says of itself

A response that ends well counts the tokens that it has received, and its text, its finish reason and
its token counts all speak of these tokens. The reason is the engine's unless a stop text was found, and
the engine's reason is told by the number of tokens.
-/

namespace HotBatch

open TextOutputFilter Str

/-! ## The filter -/

section Filter

variable {filter after : TextOutputFilter} {decoded text : Str}

/-- What a push that is no error has found and released. -/
theorem push_eq_ok {update : FilterUpdate} (hpush : filter.push decoded = some (.ok update, after)) :
    ∃ text, after = { filter with emitted := filter.emitted ++ text } ∧
      (update = .continue text ∨ update = .stop text ∧
        ∃ stop ∈ filter.stops, OccursAfter stop decoded (filter.emitted ++ text)) := by
  unfold push at hpush
  split at hpush
  · cases hpush
  · rename_i hstarts
    cases hearliest : filter.earliestStop decoded with
    | none =>
        rw [hearliest] at hpush
        dsimp only at hpush
        split at hpush
        · cases hpush
        · obtain ⟨text, -, hresult⟩ := Option.bind_eq_some_iff.mp hpush
          obtain ⟨hupdate, hafter⟩ := Prod.mk.inj (Option.some.inj hresult)
          exact ⟨text, hafter.symm, Or.inl (Except.ok.inj hupdate).symm⟩
    | some stopAt =>
        obtain ⟨stop, hstop, before, rfl, hoccurs, -⟩ := earliestStop_eq_some hearliest
        rw [hearliest] at hpush
        dsimp only at hpush
        split at hpush
        · cases hpush
        · rename_i hle
          have hbefore : before <+: decoded := (List.prefix_append _ _).trans hoccurs
          obtain ⟨released, rfl⟩ :=
            prefix_of_byteLen_le (not_not.mp hstarts) hbefore (Nat.not_lt.mp hle)
          rw [slice_byteLen hbefore] at hpush
          obtain ⟨hupdate, hafter⟩ := Prod.mk.inj (Option.some.inj hpush)
          exact ⟨released, hafter.symm, Or.inr ⟨(Except.ok.inj hupdate).symm, stop, hstop, hoccurs⟩⟩

theorem finish_eq_ok (hfinish : filter.finish decoded = (.ok text, after)) :
    filter.emitted ++ text = decoded := by
  unfold finish at hfinish
  split at hfinish
  · rename_i hstarts
    obtain ⟨rest, rfl⟩ := hstarts
    obtain rfl := Except.ok.inj (Prod.mk.inj hfinish).1
    rw [List.drop_left]
  · cases (Prod.mk.inj hfinish).1

end Filter

/-! ## What collecting counts -/

/-- The tokens that a successful response has read, and what it makes of them: all of their text, or
the text before a stop in it. -/
def Reads (decode : Decode) (stops : List Str) (items : List StreamItem) (seen tokens : List Token)
    (generation : CollectedGeneration) (cancelled : Bool) : Prop :=
  generation.completionTokens = (seen ++ tokens).length ∧
    ∃ decoded, decode (seen ++ tokens) = .ok decoded ∧
      if cancelled then tokens.map .token <+: items ∧ generation.reason = .stop ∧
        ∃ stop ∈ stops, OccursAfter stop (Utf8.trimReplacement decoded) generation.text
      else tokens.map .token ++ [.finished generation.reason] <+: items ∧ generation.text = decoded

theorem exists_reads {decode : Decode} {seen : List Token} {output : TextOutputFilter}
    {items : List StreamItem} {generation : CollectedGeneration} {cancelled : Bool}
    (hcollect : collectFrom decode seen output.emitted output items =
      some (.ok generation, cancelled)) :
    ∃ tokens, Reads decode output.stops items seen tokens generation cancelled := by
  induction items generalizing seen output with
  | nil => cases hcollect
  | cons item items ih =>
      cases item with
      | error message => cases hcollect
      | finished reason =>
          simp only [collectFrom] at hcollect
          cases hdecode : decode seen with
          | error error =>
              rw [hdecode] at hcollect
              cases hcollect
          | ok decoded =>
              rw [hdecode] at hcollect
              dsimp only at hcollect
              rcases hfinish : output.finish decoded with ⟨error | remaining, after⟩ <;>
                rw [hfinish] at hcollect
              · cases hcollect
              · obtain ⟨hgeneration, rfl⟩ := Prod.mk.inj (Option.some.inj hcollect)
                obtain rfl := Except.ok.inj hgeneration
                refine ⟨[], ?_, decoded, ?_, ?_⟩
                · rw [List.append_nil]
                · rwa [List.append_nil]
                · exact ⟨⟨items, rfl⟩, finish_eq_ok hfinish⟩
      | token token =>
          simp only [collectFrom] at hcollect
          cases hdecode : decode (seen ++ [token]) with
          | error error =>
              rw [hdecode] at hcollect
              cases hcollect
          | ok decoded =>
              rw [hdecode] at hcollect
              dsimp only at hcollect
              rcases hpush : output.push (Utf8.trimReplacement decoded) with
                _ | ⟨error | update, next⟩ <;> rw [hpush] at hcollect
              · cases hcollect
              · cases hcollect
              · obtain ⟨released, rfl, hupdate | ⟨hupdate, hstop⟩⟩ := push_eq_ok hpush
                · rw [hupdate] at hcollect
                  have hnext : collectFrom decode (seen ++ [token])
                      ({ output with emitted := output.emitted ++ released } : TextOutputFilter).emitted
                      { output with emitted := output.emitted ++ released } items =
                        some (.ok generation, cancelled) := hcollect
                  obtain ⟨tokens, hcount, decoded', hdecode', hrest⟩ := ih hnext
                  rw [List.append_assoc] at hcount hdecode'
                  refine ⟨token :: tokens, hcount, decoded', hdecode', ?_⟩
                  cases cancelled with
                  | true =>
                      obtain ⟨⟨more, hmore⟩, hstopped⟩ := hrest
                      exact ⟨⟨more, congrArg (StreamItem.token token :: ·) hmore⟩, hstopped⟩
                  | false =>
                      obtain ⟨⟨more, hmore⟩, htext⟩ := hrest
                      exact ⟨⟨more, congrArg (StreamItem.token token :: ·) hmore⟩, htext⟩
                · rw [hupdate] at hcollect
                  obtain ⟨hgeneration, rfl⟩ := Prod.mk.inj (Option.some.inj hcollect)
                  obtain rfl := Except.ok.inj hgeneration
                  exact ⟨[token], rfl, decoded, hdecode, ⟨items, rfl⟩, rfl, hstop⟩

/-! ## What was received -/

section Received

variable {tokens all : List Token} {items : List StreamItem} {reason last : FinishReason}

theorem filterMap_token (tokens : List Token) (item : StreamItem) :
    (tokens.map StreamItem.token ++ [item]).filterMap StreamItem.token? =
      tokens ++ item.token?.toList := by
  rw [List.filterMap_append, List.filterMap_map]
  have hall : tokens.filterMap (StreamItem.token? ∘ StreamItem.token) = tokens := List.filterMap_some
  rw [hall]
  cases item <;> rfl

/-- The tokens at the start of a list that ends otherwise are some of its tokens. -/
theorem prefix_of_map_token {item : StreamItem} (hitem : item.token? = none)
    (hstarts : tokens.map StreamItem.token <+: all.map .token ++ [item]) : tokens <+: all := by
  have htokens := hstarts.filterMap StreamItem.token?
  have hmapped : (tokens.map StreamItem.token).filterMap StreamItem.token? = tokens := by
    rw [List.filterMap_map]
    exact List.filterMap_some
  rw [hmapped, filterMap_token, hitem] at htokens
  rwa [Option.toList_none, List.append_nil] at htokens

/-- Tokens that were received are among those of the answer. -/
theorem received_prefix (hbegins : Begins (all.map .token ++ [.finished last]) items)
    (hreceived : tokens.map .token <+: items) : tokens <+: all := by
  rcases hbegins with hstarts | ⟨before, message, hstarts, rfl⟩
  · exact prefix_of_map_token rfl (hreceived.trans hstarts)
  · exact (prefix_of_map_token rfl hreceived).trans (prefix_of_map_token rfl hstarts)

/-- Who has received the end has received everything. -/
theorem received_all (hbegins : Begins (all.map .token ++ [.finished last]) items)
    (hreceived : tokens.map .token ++ [.finished reason] <+: items) : tokens = all ∧ reason = last := by
  have hend : StreamItem.finished reason ∈ items :=
    hreceived.subset (List.mem_append_right _ (List.mem_singleton_self _))
  rw [hbegins.eq_of_finished hend] at hreceived
  rcases List.prefix_concat_iff.mp hreceived with heq | hearlier
  · obtain ⟨hmap, hlast⟩ := List.append_inj' heq rfl
    refine ⟨List.map_injective_iff.mpr (fun _ _ h ↦ StreamItem.token.inj h) hmap, ?_⟩
    exact StreamItem.finished.inj (List.singleton_inj.mp hlast)
  · have hmem : StreamItem.finished reason ∈ all.map .token :=
      hearlier.subset (List.mem_append_right _ (List.mem_singleton_self _))
    obtain ⟨token, -, heq⟩ := List.mem_map.mp hmem
    cases heq

end Received

/-! ## The truth of a response -/

section Truth

variable {α : Type}

/-- A text, a count and a reason that speak of the tokens which were received: none of them is eos, the
count is theirs, and the text is theirs or ends where a stop in it begins. -/
def Truthful (decode : Decode) (params : SubmitParams α) (eosToken : Token)
    (items : List StreamItem) (text : Str) (completionTokens : ℕ) (reason : FinishReason) : Prop :=
  ∃ tokens decoded, tokens.map .token <+: items ∧ eosToken ∉ tokens ∧
    completionTokens = tokens.length ∧ completionTokens ≤ params.maxTokens ∧
    decode tokens = .ok decoded ∧
    (text = decoded ∧ Exhausts params.maxTokens tokens reason ∨
      reason = .stop ∧ ∃ stop ∈ params.stops, OccursAfter stop (Utf8.trimReplacement decoded) text)

/-- The text of a body. -/
def BodyText.content : BodyText → Str
  | text value => value
  | message _ value => value

/-- Everything that a successful response says of tokens is so. -/
def Response.Truthful (decode : Decode) (state : AppState α) (params : SubmitParams α)
    (promptTokens : ℕ) (items : List StreamItem) : Response → Prop
  | .json (.error _) => True
  | .json (.ok body) => ∃ completionTokens reason,
      body.finishReason = finishReasonLabel reason ∧
      body.usage = ⟨promptTokens, completionTokens, promptTokens + completionTokens⟩ ∧
      promptTokens + completionTokens ≤ state.maxSeqLen ∧
      HotBatch.Truthful decode params state.tokenizer.eosToken items body.content.content
        completionTokens reason
  | .sse effects => ∀ label, EndsDone label (eventsOf effects) → ∃ reason,
      label = finishReasonLabel reason ∧
      HotBatch.Truthful decode params state.tokenizer.eosToken items (streamedText effects)
        (tokenFrames effects) reason

variable [Kernels α]

/-- What is collected from the beginning of an answer is true. -/
theorem truthful_of_collect {decode : Decode} {params : SubmitParams α} {eosToken : Token}
    {model : SmallTransformer α} {req : GenerationRequest α} (hnew : 0 < req.maxNewTokens)
    (hlimit : req.maxNewTokens = params.maxTokens)
    (hstops : req.samplerConfig.stopSequences = []) (heos : req.samplerConfig.eosToken = eosToken)
    {items : List StreamItem} (hbegins : Begins (privateAnswer model req) items)
    {generation : CollectedGeneration} {cancelled : Bool}
    (hcollect : collectGeneration decode params.stops items = some (.ok generation, cancelled)) :
    Truthful decode params eosToken items generation.text generation.completionTokens
      generation.reason := by
  obtain ⟨all, last, hanswer, hnoEos, hexhausts⟩ := exhausts_privateAnswer model hnew hstops
  rw [hanswer] at hbegins
  rw [heos] at hnoEos
  rw [hlimit] at hexhausts
  have hle : all.length ≤ params.maxTokens := by
    cases last with
    | length => exact Nat.le_of_eq hexhausts
    | stop => exact Nat.le_of_lt hexhausts
  have hfrom : collectFrom decode [] (TextOutputFilter.new params.stops).emitted (.new params.stops)
      items = some (.ok generation, cancelled) := hcollect
  obtain ⟨tokens, hcount, decoded, hdecode, hread⟩ := exists_reads hfrom
  cases cancelled with
  | true =>
      obtain ⟨hreceived, hreason, stop, hstop, hoccurs⟩ := hread
      have hstarts := received_prefix hbegins hreceived
      refine ⟨tokens, decoded, hreceived, fun hmem ↦ hnoEos (hstarts.subset hmem), hcount, ?_, hdecode,
        Or.inr ⟨hreason, stop, (List.mem_filter.mp hstop).1, hoccurs⟩⟩
      rw [hcount]
      exact hstarts.length_le.trans hle
  | false =>
      obtain ⟨hreceived, htext⟩ := hread
      obtain ⟨rfl, hreason⟩ := received_all hbegins hreceived
      refine ⟨tokens, decoded, (List.prefix_append _ _).trans hreceived, hnoEos, hcount, ?_, hdecode,
        Or.inl ⟨htext, ?_⟩⟩
      · rw [hcount]
        exact hle
      · rw [hreason]
        exact hexhausts

omit [Kernels α] in
/-- The sampling settings that the HTTP layer asks for. -/
theorem config_of_buildRequest {state : AppState α} {id : String} {client : ClientId} {prompt : Str}
    {params : SubmitParams α} {submission : Submission α}
    (hbuild : buildRequest state id client prompt params = .ok submission) :
    submission.request.samplerConfig.stopSequences = [] ∧
      submission.request.samplerConfig.eosToken = state.tokenizer.eosToken := by
  unfold buildRequest at hbuild
  split at hbuild
  · cases hbuild
  · split_ifs at hbuild
    split at hbuild
    · cases hbuild
    · obtain rfl := Except.ok.inj hbuild
      exact ⟨rfl, rfl⟩

omit [Kernels α] in
/-- A stream says what the collected generation says. -/
theorem truthful_of_stream {decode : Decode} {state : AppState α} {params : SubmitParams α}
    {promptTokens : ℕ} {items : List StreamItem} {effects : List StreamEffect}
    {outcome : Except ApiError CollectedGeneration × Bool} (hmatches : Matches [] 0 effects outcome)
    (htrue : ∀ generation, outcome.1 = .ok generation → Truthful decode params
      state.tokenizer.eosToken items generation.text generation.completionTokens generation.reason) :
    (Response.sse effects).Truthful decode state params promptTokens items := by
  intro label hdone
  rcases outcome with ⟨error | generation, cancelled⟩
  · exact absurd hmatches.1 hdone.not_endsError
  · obtain ⟨hdone', htext, hcount, -⟩ := hmatches
    refine ⟨generation.reason, hdone.reason_unique hdone', ?_⟩
    have hgeneration := htrue generation rfl
    rw [htext, hcount, List.nil_append, Nat.zero_add] at hgeneration
    exact hgeneration

omit [Kernels α] in
/-- A body says what the collected generation says. -/
theorem truthful_of_body {decode : Decode} {state : AppState α} {params : SubmitParams α}
    {promptTokens : ℕ} {items : List StreamItem} (bodyId object : String) {content : Str → BodyText}
    (hcontent : ∀ text, (content text).content = text)
    (htotal : promptTokens + params.maxTokens ≤ state.maxSeqLen)
    {outcome : Except ApiError CollectedGeneration × Bool}
    (htrue : ∀ generation, outcome.1 = .ok generation → Truthful decode params
      state.tokenizer.eosToken items generation.text generation.completionTokens generation.reason) :
    (Response.json (outcome.1.map (bodyOf bodyId object state.modelName content
      promptTokens))).Truthful decode state params promptTokens items := by
  rcases outcome with ⟨error | generation, cancelled⟩
  · trivial
  · have hgeneration := htrue generation rfl
    have hlimit : generation.completionTokens ≤ params.maxTokens := by
      obtain ⟨tokens, decoded, -, -, -, hlimit, -⟩ := hgeneration
      exact hlimit
    refine ⟨generation.completionTokens, generation.reason, rfl, rfl,
      (Nat.add_le_add_left hlimit _).trans htotal, ?_⟩
    change Truthful _ _ _ _ (content generation.text).content _ _
    rwa [hcontent]

omit [Kernels α] in
/-- Both handlers respond, and say what the collected generation says. -/
theorem exists_truthful {decode : Decode} {state : AppState α} {params : SubmitParams α}
    {promptTokens : ℕ} {items : List StreamItem} (kind : StreamKind) (responseId object : String)
    {content : Str → BodyText} (hcontent : ∀ text, (content text).content = text)
    (htotal : promptTokens + params.maxTokens ≤ state.maxSeqLen)
    (htrue : ∀ generation cancelled,
      collectGeneration decode params.stops items = some (.ok generation, cancelled) →
        Truthful decode params state.tokenizer.eosToken items generation.text
          generation.completionTokens generation.reason) (stream : Bool) :
    ∃ response, (if stream then
        (openaiStream decode responseId state.modelName kind params.stops items).map Response.sse
      else ((collectGeneration decode params.stops items).map fun outcome ↦ outcome.1.map
        (bodyOf responseId object state.modelName content promptTokens)).map Response.json) =
          some response ∧ response.Truthful decode state params promptTokens items := by
  obtain ⟨outcome, effects, hcollect, hstream, hmatches⟩ := collectFrom_matches_streamFrom decode
    responseId state.modelName kind items [] [] (.new params.stops)
  have hcollected : collectGeneration decode params.stops items = some outcome := hcollect
  have hstreamed : openaiStream decode responseId state.modelName kind params.stops items =
    some effects := hstream
  have htrueOutcome : ∀ generation, outcome.1 = .ok generation → Truthful decode params
      state.tokenizer.eosToken items generation.text generation.completionTokens
        generation.reason := by
    intro generation hok
    apply htrue generation outcome.2
    rw [hcollected, ← hok]
  rw [hcollected, hstreamed]
  cases stream with
  | true => exact ⟨_, rfl, truthful_of_stream hmatches htrueOutcome⟩
  | false => exact ⟨_, rfl, truthful_of_body responseId object hcontent htotal htrueOutcome⟩

variable [FiniteCheck α]

/-- **A response tells the truth about its tokens.** Whatever the server, the load and the mode: the
handler of a request that was handed over always comes to a response, and if that ends well, in either
format, the tokens it counts were received, none of them is eos, and their text, up to a stop in it, is
the text of the response. There are at most `max_tokens` of them, exactly as many if the finish reason
is the limit, and fewer if it is a stop, unless a stop text was found in what they say. A body adds
them to those of the prompt, and the sum stays within the sequence limit. -/
theorem response_truthful {load : String → String → Except String (Loaded α)} {args : ServeArgs}
    {app : AppState α} (hbuild : buildApp load args = .ok app) {request : ApiRequest α} {prompt : Str}
    {params : SubmitParams α} (hinput : request.input app = .ok (prompt, params)) {id : String}
    {client : ClientId} {submission : Submission α}
    (hsubmission : buildRequest app id client prompt params = .ok submission)
    {items : List StreamItem} (hserves : app.engine.Serves submission.request items)
    (decode : Decode) :
    ∃ response, request.respond decode app id submission.request.promptLen params.stops items =
        some response ∧
      response.Truthful decode app params submission.request.promptLen items := by
  obtain ⟨loaded, -, hwired⟩ := wired_of_buildApp hbuild
  obtain ⟨options, hvalid⟩ := validated_of_input hinput
  have hbuilt := built_of_buildRequest hsubmission
  have hwithin := withinLimits_of_built hwired (maxTokens_of_validateOptions hvalid) hbuilt
  rw [hwired.engine_eq] at hserves
  have hbegins := begins_of_serves hwithin.admissible hserves
  obtain ⟨hstops, heos⟩ := config_of_buildRequest hsubmission
  have htotal : submission.request.promptLen + params.maxTokens ≤ app.maxSeqLen := by
    rw [hwired.maxSeqLen_eq, ← hbuilt.maxNewTokens_eq]
    exact hwithin.total_le
  have htrue : ∀ generation cancelled,
      collectGeneration decode params.stops items = some (.ok generation, cancelled) →
        Truthful decode params app.tokenizer.eosToken items generation.text
          generation.completionTokens generation.reason := by
    intro generation cancelled hcollect
    exact truthful_of_collect hwithin.admissible.maxNew_pos hbuilt.maxNewTokens_eq hstops heos hbegins
      hcollect
  cases request with
  | completion req =>
      exact exists_truthful .completion s!"cmpl-{id}" "text_completion" (fun _ ↦ rfl) htotal htrue _
  | chat req =>
      exact exists_truthful .chat s!"chatcmpl-{id}" "chat.completion" (fun _ ↦ rfl) htotal htrue _

end Truth

def tinyCompletion : ApiRequest ℚ :=
  .completion (.ok ⟨.string "hello".toList, tinyOptions, some false⟩)

theorem response_truthful_tinyItems :
    tinyCompletion.respond tinyDecode (tinyApp .continuous) "a" 5 [] tinyItems = some (.json (.ok
      ⟨"cmpl-a", "text_completion", "tiny-gpt2", 0, .text ['b', 'b', 'b'], "length", ⟨5, 3, 8⟩⟩)) ∧
    ∃ response, tinyCompletion.respond tinyDecode (tinyApp .continuous) "a" 5 [] tinyItems =
      some response ∧ response.Truthful tinyDecode (tinyApp .continuous) tinyParams 5 tinyItems := by
  have hinput : tinyCompletion.input (tinyApp .continuous) = .ok ("hello".toList, tinyParams) := by
    decide +kernel
  have hsubmission : buildRequest (tinyApp .continuous) "a" 0 "hello".toList tinyParams =
      .ok tinySubmission := by rfl
  exact ⟨by rfl, response_truthful (buildApp_tinyArgs .continuous) hinput hsubmission
    serves_tinyItems tinyDecode⟩

end HotBatch
