import HotBatch.Server.Admission
import HotBatch.Server.NaiveAnswers
import HotBatch.Server.ShortRequests

/-!
# Successful answers agree

A response that ends well is that of the whole private answer, however much of it was on the channel:
what a response has not read by the time it stops has no influence on it. So two servers that have
loaded the same model give the same answer to the same question, in either mode, under any load and
in either format, whenever both of them answer.
-/

namespace HotBatch

/-! ## A response that ends well -/

section Responses

variable {decode : Decode} {tokens : List Token} {text : Str} {output : TextOutputFilter}
  {generation : CollectedGeneration} {cancelled : Bool}

/-- What is read of a channel decides about a response that ends well; what follows does not. -/
theorem collectFrom_append {items : List StreamItem}
    (hcollect : collectFrom decode tokens text output items = some (.ok generation, cancelled))
    (more : List StreamItem) :
    collectFrom decode tokens text output (items ++ more) = some (.ok generation, cancelled) := by
  induction items generalizing tokens text output with
  | nil => cases hcollect
  | cons item items ih =>
      cases item with
      | finished reason => exact hcollect
      | error message => cases hcollect
      | token token =>
          rw [List.cons_append]
          simp only [collectFrom] at hcollect ⊢
          cases hdecode : decode (tokens ++ [token]) with
          | error error =>
              rw [hdecode] at hcollect
              cases hcollect
          | ok decoded =>
              rw [hdecode] at hcollect
              dsimp only at hcollect ⊢
              rcases hpush : output.push (Utf8.trimReplacement decoded) with
                _ | ⟨error | update, next⟩ <;> rw [hpush] at hcollect
              · cases hcollect
              · cases hcollect
              · cases update with
                | stop fragment => exact hcollect
                | «continue» fragment => exact ih hcollect

/-- A response that reads an error ends with it, unless it has ended before. -/
theorem collectFrom_of_concat_error {front : List Token} {message : String}
    (hcollect : collectFrom decode tokens text output (front.map .token ++ [.error message]) =
      some (.ok generation, cancelled)) :
    collectFrom decode tokens text output (front.map .token) = some (.ok generation, cancelled) := by
  induction front generalizing tokens text output with
  | nil => cases hcollect
  | cons token front ih =>
      rw [List.map_cons, List.cons_append] at hcollect
      rw [List.map_cons]
      simp only [collectFrom] at hcollect ⊢
      cases hdecode : decode (tokens ++ [token]) with
      | error error =>
          rw [hdecode] at hcollect
          cases hcollect
      | ok decoded =>
          rw [hdecode] at hcollect
          dsimp only at hcollect ⊢
          rcases hpush : output.push (Utf8.trimReplacement decoded) with
            _ | ⟨error | update, next⟩ <;> rw [hpush] at hcollect
          · cases hcollect
          · cases hcollect
          · cases update with
            | stop fragment => exact hcollect
            | «continue» fragment => exact ih hcollect

/-- **A response that ends well is that of the whole answer.** -/
theorem collectFrom_of_begins {answer items : List StreamItem} (hbegins : Begins answer items)
    (hcollect : collectFrom decode tokens text output items = some (.ok generation, cancelled)) :
    collectFrom decode tokens text output answer = some (.ok generation, cancelled) := by
  rcases hbegins with ⟨more, rfl⟩ | ⟨front, message, ⟨more, rfl⟩, rfl⟩
  · exact collectFrom_append hcollect more
  · exact collectFrom_append (collectFrom_of_concat_error hcollect) more

end Responses

/-- A client has been given an answer: as a JSON body, or as a stream that ends with `[DONE]`. -/
inductive Answers (decode : Decode) (stops : List Str) (items : List StreamItem) (text : Str)
    (completionTokens : ℕ) (reason : FinishReason) : Prop
  | json {cancelled : Bool} (hcollect : collectGeneration decode stops items =
      some (.ok ⟨text, completionTokens, reason⟩, cancelled))
  | stream {id model : String} {kind : StreamKind} {effects : List StreamEffect}
      (hstream : openaiStream decode id model kind stops items = some effects)
      (hdone : EndsDone (finishReasonLabel reason) (eventsOf effects))
      (htext : streamedText effects = text) (hcount : tokenFrames effects = completionTokens)

theorem finishReasonLabel_inj {left right : FinishReason}
    (hlabel : finishReasonLabel left = finishReasonLabel right) : left = right := by
  cases left <;> cases right <;> first | rfl | exact absurd hlabel (by decide)

/-- The last frame of a stream tells its reason. -/
theorem EndsDone.reason_unique {left right : String} {events : List SseEvent}
    (hleft : EndsDone left events) (hright : EndsDone right events) : left = right := by
  obtain ⟨front, chunk, rfl, hchunk⟩ := hleft
  obtain ⟨front', chunk', heq, hchunk'⟩ := hright
  have hends := (List.append_inj' heq rfl).2
  rw [List.cons.injEq, SseEvent.chunk.injEq] at hends
  rw [hends.1, hchunk'] at hchunk
  exact (Option.some.inj hchunk).symm

/-- Either format is the answer that `collect_generation` finds. -/
theorem Answers.exists_collect {decode : Decode} {stops : List Str} {items : List StreamItem}
    {text : Str} {completionTokens : ℕ} {reason : FinishReason}
    (hanswers : Answers decode stops items text completionTokens reason) :
    ∃ cancelled, collectGeneration decode stops items =
      some (.ok ⟨text, completionTokens, reason⟩, cancelled) := by
  cases hanswers with
  | json hcollect => exact ⟨_, hcollect⟩
  | @stream id model kind effects hstream hdone htext hcount =>
      obtain ⟨⟨result, cancelled⟩, effects', hcollect, hstream', hmatches⟩ :=
        collectFrom_matches_streamFrom decode id model kind items [] [] (.new stops)
      obtain rfl : effects' = effects := Option.some.inj (hstream'.symm.trans hstream)
      cases result with
      | error error => exact absurd hmatches.1 hdone.not_endsError
      | ok generation =>
          obtain ⟨hdone', htext', hcount', -⟩ := hmatches
          have hreason : generation.reason = reason :=
            finishReasonLabel_inj (hdone'.reason_unique hdone)
          rw [List.nil_append, htext] at htext'
          rw [List.length_nil, Nat.zero_add, hcount] at hcount'
          obtain ⟨_, _, _⟩ := generation
          subst htext' hcount' hreason
          exact ⟨cancelled, hcollect⟩

/-! ## What an engine puts on a channel -/

section Engines

variable {α : Type} [Kernels α]

/-- In some run of the engine these items have been taken from the channel of the request. -/
def Engine.Serves (req : GenerationRequest α) (items : List StreamItem) : Engine α → Prop
  | continuous scheduler kvCache maxQueueDepth =>
      ∃ capacity s, Scheduler.Reaches scheduler Scheduler.Anything
          (Scheduler.init kvCache maxQueueDepth capacity) s ∧
        req ∈ s.history.accepted ∧ items <+: (s.clients req.client).sent
  | naive model maxQueueDepth =>
      ∃ (s : NaiveEngine.State α) (ticket : ℕ) (call : NaiveEngine.Call α),
        NaiveEngine.Reaches ⟨model, maxQueueDepth⟩ NaiveEngine.Anything NaiveEngine.init s ∧
        s.calls[ticket]? = some call ∧ call.req = req ∧ items <+: call.client.sent

/-- **Whatever a client is sent begins the private answer to its request.** -/
theorem begins_of_serves {args : ServeArgs} {model : SmallTransformer α}
    {req : GenerationRequest α} {items : List StreamItem} (hadmissible : req.Admissible)
    (hserves : (buildEngine args model).Serves req items) : Begins (privateAnswer model req) items := by
  unfold buildEngine at hserves
  cases hmode : args.mode with
  | continuous =>
      rw [hmode] at hserves
      obtain ⟨capacity, s, hreach, hreq, more, hsent⟩ := hserves
      have hbegins := Scheduler.begins_reachable hreach hreq
      have hview : (s.view req.client).outgoing =
          items ++ (more ++ s.inFlight req.client) := by
        rw [← List.append_assoc, hsent]
        rfl
      rw [hview] at hbegins
      exact hbegins.of_append
  | naive =>
      rw [hmode] at hserves
      obtain ⟨s, ticket, call, hreach, hcall, rfl, more, hsent⟩ := hserves
      obtain ⟨capacity, u, htask, -, hclient, -⟩ :=
        (NaiveEngine.projects_reachable hreach).tracked ticket call hcall
      have hbegins := (Naive.begins_reachable hadmissible htask).1
      rw [hclient, ← hsent] at hbegins
      exact hbegins.of_append

end Engines

section FrontDoor

variable {α : Type} [Kernels α] [FiniteCheck α]

omit [Kernels α] [FiniteCheck α] in
/-- The same prompt with the same parameters makes the same question, wherever it is made. -/
theorem asksSame_of_buildRequest {app app' : AppState α} (htokenizer : app'.tokenizer = app.tokenizer)
    {id id' : String} {client client' : ClientId} {prompt : Str} {params params' : SubmitParams α}
    (hparams : params' = { params with priority := params'.priority })
    {submission submission' : Submission α}
    (hbuild : buildRequest app id client prompt params = .ok submission)
    (hbuild' : buildRequest app' id' client' prompt params' = .ok submission') :
    submission.request.AsksSame submission'.request := by
  unfold buildRequest at hbuild hbuild'
  rw [htokenizer, hparams] at hbuild'
  cases hencode : app.tokenizer.encode prompt with
  | error err =>
      rw [hencode] at hbuild
      cases hbuild
  | ok promptTokens =>
      rw [hencode] at hbuild hbuild'
      dsimp only at hbuild hbuild'
      split_ifs at hbuild hbuild'
      cases hcapacity : Usize.checkedAdd params.maxTokens 1 with
      | none =>
          rw [hcapacity] at hbuild
          cases hbuild
      | some outputCapacity =>
          rw [hcapacity] at hbuild hbuild'
          obtain rfl := Except.ok.inj hbuild
          obtain rfl := Except.ok.inj hbuild'
          exact ⟨rfl, rfl, rfl⟩

/-- **Successful answers agree.** Two servers that load the same model, each in any mode and with any
limits, are asked for the same prompt with the same sampling parameters and stops, at any priority.
Whatever else they serve, whatever their clients and operators do, and whether the answer is collected
or streamed: if both answer, the text, the number of tokens and the reason are the same. -/
theorem answers_agree {load : String → String → Except String (Loaded α)} {args args' : ServeArgs}
    {app app' : AppState α} (hbuild : buildApp load args = .ok app)
    (hbuild' : buildApp load args' = .ok app')
    (hmodel : args'.model = args.model) (hdevice : args'.device = args.device)
    {options options' : RequestOptions α} {params params' : SubmitParams α}
    (hoptions : validateOptions app options = .ok params)
    (hoptions' : validateOptions app' options' = .ok params')
    (hparams : params' = { params with priority := params'.priority })
    {id id' : String} {client client' : ClientId} {prompt : Str} {submission submission' : Submission α}
    (hsubmission : buildRequest app id client prompt params = .ok submission)
    (hsubmission' : buildRequest app' id' client' prompt params' = .ok submission')
    {items items' : List StreamItem} (hserves : app.engine.Serves submission.request items)
    (hserves' : app'.engine.Serves submission'.request items') (decode : Decode)
    {text text' : Str} {completionTokens completionTokens' : ℕ} {reason reason' : FinishReason}
    (hanswers : Answers decode params.stops items text completionTokens reason)
    (hanswers' : Answers decode params'.stops items' text' completionTokens' reason') :
    text' = text ∧ completionTokens' = completionTokens ∧ reason' = reason := by
  obtain ⟨loaded, hload, hwired⟩ := wired_of_buildApp hbuild
  obtain ⟨loaded', hload', hwired'⟩ := wired_of_buildApp hbuild'
  rw [hmodel, hdevice, hload] at hload'
  obtain rfl := Except.ok.inj hload'
  have hadmissible := (withinLimits_of_built hwired (maxTokens_of_validateOptions hoptions)
    (built_of_buildRequest hsubmission)).admissible
  have hadmissible' := (withinLimits_of_built hwired' (maxTokens_of_validateOptions hoptions')
    (built_of_buildRequest hsubmission')).admissible
  have hsame := asksSame_of_buildRequest (hwired'.tokenizer_eq.trans hwired.tokenizer_eq.symm) hparams
    hsubmission hsubmission'
  rw [hwired.engine_eq] at hserves
  rw [hwired'.engine_eq] at hserves'
  have hbegins := begins_of_serves hadmissible hserves
  have hbegins' := begins_of_serves hadmissible' hserves'
  rw [privateAnswer_congr hsame] at hbegins'
  obtain ⟨cancelled, hcollect⟩ := hanswers.exists_collect
  obtain ⟨cancelled', hcollect'⟩ := hanswers'.exists_collect
  have hstops : params'.stops = params.stops := by rw [hparams]
  rw [hstops] at hcollect'
  have hwhole : collectGeneration decode params.stops _ = _ := collectFrom_of_begins hbegins hcollect
  have hwhole' : collectGeneration decode params.stops _ = _ :=
    collectFrom_of_begins hbegins' hcollect'
  rw [hwhole, Option.some.injEq, Prod.mk.injEq, Except.ok.injEq,
    CollectedGeneration.mk.injEq] at hwhole'
  obtain ⟨⟨htext, hcount, hreason⟩, -⟩ := hwhole'
  exact ⟨htext.symm, hcount.symm, hreason.symm⟩

end FrontDoor

theorem buildApp_tinyArgs (mode : ServeMode) :
    buildApp (fun _ _ ↦ .ok ⟨.gpt2 tinyGpt2, tinyTokenizer⟩) (tinyArgs mode) = .ok (tinyApp mode) := by
  have hvalidate : (tinyArgs mode).validate = .ok () := by
    cases mode <;> decide +kernel
  unfold buildApp
  rw [hvalidate]
  rfl

def tinyCompanion : GenerationRequest ℚ := ⟨"b", [0, 1], Scheduler.shareConfig 7 3, 1, 0, 0⟩

/-- The scheduler has served two requests together. -/
def Scheduler.tinyAccompanied : Scheduler.State ℚ :=
  (Transition.run (step tinyServer) Anything
    ([.submit tinyCompanion [], .submit tinySubmission.request []] ++
      List.replicate 87 (.sched [])) tinyIdle).getD tinyIdle

/-- The naive engine has served one of them, and the other one has waited for the model. -/
def NaiveEngine.tinyAnswered : NaiveEngine.State ℚ :=
  (Transition.run (step ⟨.gpt2 tinyGpt2, 4⟩) Anything
    ([.submit tinySubmission.request 4, .submit tinyCompanion 4] ++ List.replicate 20 (.call 0) ++
      List.replicate 12 (.call 1) ++ List.replicate 27 (.call 0)) init).getD init

/-- One letter for each token. -/
def tinyDecode : Decode := fun tokens ↦ .ok (tokens.map fun token ↦ if token = 1 then 'b' else 'a')

deriving instance DecidableEq for SamplerConfig

deriving instance DecidableEq for GenerationRequest

def tinyItems : List StreamItem := [.token 1, .token 1, .token 1, .finished .length]

theorem serves_tinyItems : (tinyApp .continuous).engine.Serves tinySubmission.request tinyItems := by
  have hsent : (Scheduler.tinyAccompanied.clients tinySubmission.request.client).sent =
      tinyItems := by decide +kernel
  have haccepted : tinySubmission.request ∈ Scheduler.tinyAccompanied.history.accepted := by
    decide +kernel
  refine ⟨fun _ ↦ 4, Scheduler.tinyAccompanied,
    Transition.reaches_getD_run (by decide +kernel) Scheduler.tinyIdle, haccepted, ?_⟩
  rw [hsent]

/-- One server has collected the answer, and the other streams what the answer then must be. -/
theorem answers_agree_tinyApp :
    Scheduler.tinyAccompanied.metrics.sharedDecodeSteps = 3 ∧
    NaiveEngine.tinyAnswered.calls.length = 2 ∧
    (tinyApp .continuous).engine.Serves tinySubmission.request tinyItems ∧
    (tinyApp .naive).engine.Serves tinySubmission.request tinyItems ∧
    collectGeneration tinyDecode [] tinyItems =
      some (.ok ⟨['b', 'b', 'b'], 3, .length⟩, false) ∧
    ∀ effects, openaiStream tinyDecode "a" "tiny-gpt2" .chat [] tinyItems = some effects →
      EndsDone "length" (eventsOf effects) → streamedText effects = ['b', 'b', 'b'] := by
  have hnaive : (tinyApp .naive).engine.Serves tinySubmission.request tinyItems := by
    have hcalled : (NaiveEngine.tinyAnswered.calls[0]?).map (fun call ↦ (call.req, call.client.sent)) =
        some (tinySubmission.request, tinyItems) := by decide +kernel
    obtain ⟨call, hcall, hpair⟩ := Option.map_eq_some_iff.mp hcalled
    obtain ⟨hreq, hitems⟩ := Prod.mk.inj hpair
    refine ⟨NaiveEngine.tinyAnswered, 0, call, Transition.reaches_getD_run (by decide +kernel) _,
      hcall, hreq, ?_⟩
    rw [hitems]
  have hjson : collectGeneration tinyDecode [] tinyItems =
      some (.ok ⟨['b', 'b', 'b'], 3, .length⟩, false) := by rfl
  refine ⟨by decide +kernel, by decide +kernel, serves_tinyItems, hnaive, hjson,
    fun effects hstream hdone ↦ ?_⟩
  have hlength : EndsDone (finishReasonLabel .length) (eventsOf effects) := hdone
  have hoptions : ∀ mode, validateOptions (tinyApp mode) tinyOptions = .ok tinyParams := by
    intro mode
    cases mode <;> decide +kernel
  have hsubmission : ∀ mode, buildRequest (tinyApp mode) "a" 0 "hello".toList tinyParams =
      .ok tinySubmission := by
    intro mode
    cases mode <;> rfl
  exact (answers_agree (buildApp_tinyArgs .continuous) (buildApp_tinyArgs .naive) rfl rfl
    (hoptions .continuous) (hoptions .naive) rfl (hsubmission .continuous) (hsubmission .naive)
    serves_tinyItems hnaive tinyDecode (.json hjson) (.stream hstream hlength rfl rfl)).1

end HotBatch
