import HotBatch.Core.RationalKernels
import HotBatch.Scheduler.Limits
import HotBatch.Server.Api
import HotBatch.Server.NaiveLimits

/-!
# The front door and the engines

The limits are checked in the HTTP layer, in `validate_request`, in `allocate` and in front of both
backends, each with its own arithmetic, and the naive engine relies on the first of these checks alone.
`build_app` wires them so that the front door decides: what it lets through passes everywhere else.
-/

namespace HotBatch

variable {α : Type}

/-- What the front door has found out about a request. -/
structure WithinLimits (args : ServeArgs) (req : GenerationRequest α) : Prop where
  admissible : req.Admissible
  maxNew_le : req.maxNewTokens ≤ args.maxNewTokens
  total_le : req.promptLen + req.maxNewTokens ≤ args.maxSeqLen

/-- A saturated sum would be far above every limit of a valid command line. -/
theorem add_le_of_saturatingAdd_le {left right limit : ℕ} (hlimit : limit ≤ 1024)
    (hle : Usize.saturatingAdd left right ≤ limit) : left + right ≤ limit := by
  have hsize : 1024 < Usize.maxValue := by decide
  rcases min_le_iff.mp hle with hsum | hword
  · exact hsum
  · exact absurd (hword.trans hlimit) (Nat.not_le.mpr hsize)

section FrontDoor

variable {args : ServeArgs} {loaded : Loaded α} {app : AppState α}

theorem withinLimits_of_built (hwired : Wired args loaded app) {params : SubmitParams α}
    (hnew : 0 < params.maxTokens ∧ params.maxTokens ≤ app.maxNewTokens)
    {req : GenerationRequest α} (hbuilt : Built app params req) : WithinLimits args req := by
  have htotal : req.promptLen + req.maxNewTokens ≤ args.maxSeqLen := by
    apply add_le_of_saturatingAdd_le hwired.valid.seqLen_le
    rw [← hwired.maxSeqLen_eq]
    exact hbuilt.total_le
  have hword : req.promptLen + req.maxNewTokens < Usize.size :=
    calc req.promptLen + req.maxNewTokens
        ≤ args.maxSeqLen := htotal
      _ ≤ 1024 := hwired.valid.seqLen_le
      _ < Usize.size := by decide
  rw [← hbuilt.maxNewTokens_eq, hwired.maxNewTokens_eq] at hnew
  exact ⟨⟨hbuilt.prompt_ne, hnew.1, hword⟩, hnew.2, htotal⟩

/-- The scheduler of `build_app`. -/
def builtScheduler (args : ServeArgs) (model : SmallTransformer α) : Scheduler α where
  config :=
    { maxRunningSeqs := args.maxRunningSeqs
      maxNewTokens := args.maxNewTokens
      maxSeqLen := args.maxSeqLen }
  model := model

/-- Validation has no more to say. -/
theorem WithinLimits.admitted {req : GenerationRequest α} (hwithin : WithinLimits args req)
    (hpositions : args.maxSeqLen ≤ loaded.model.maxPositions) :
    Scheduler.Admitted (builtScheduler args loaded.model) args.maxSeqLen req where
  admissible := hwithin.admissible
  maxNew_le := hwithin.maxNew_le
  total_le_config := hwithin.total_le
  total_le_cache := hwithin.total_le
  total_le_positions := hwithin.total_le.trans hpositions

end FrontDoor

/-! ## What both engines then do -/

section Agreement

variable [Scalar α] [FiniteCheck α]

/-- The front door makes this request of some options and some prompt. -/
def AppState.Makes (app : AppState α) (req : GenerationRequest α) : Prop :=
  ∃ options params id prompt submission, validateOptions app options = .ok params ∧
    buildRequest app id req.client prompt params = .ok submission ∧ submission.request = req

/-- Everything that is submitted has come through the front door. -/
def Scheduler.ThroughFrontDoor (app : AppState α) : State α → Action α → Prop
  | _, .submit req _ => app.Makes req
  | _, _ => True

end Agreement

/-- The prompt and every position of the request are the model's. -/
structure FitsModel (model : SmallTransformer α) (req : GenerationRequest α) : Prop where
  prompt_le : req.promptLen ≤ model.maxPositions
  position_lt : ∀ seq : Sequence α, seq.promptTokens = req.promptTokens →
    seq.generatedTokens.length ≤ req.maxNewTokens → seq.decodePosition < model.maxPositions

theorem WithinLimits.fitsModel {args : ServeArgs} {model : SmallTransformer α}
    {req : GenerationRequest α} (hwithin : WithinLimits args req)
    (hpositions : args.maxSeqLen ≤ model.maxPositions) : FitsModel model req where
  prompt_le := ((Nat.le_add_right _ _).trans hwithin.total_le).trans hpositions
  position_lt seq hprompt hgenerated :=
    calc seq.decodePosition
        < req.promptLen + req.maxNewTokens :=
          Naive.Serving.Within.decodePosition_lt hprompt hwithin.admissible hgenerated
      _ ≤ args.maxSeqLen := hwithin.total_le
      _ ≤ model.maxPositions := hpositions

variable [Kernels α] [FiniteCheck α]

/-- What holds for a request in continuous mode: in every reachable state it is validated and, with a
slot free, becomes a sequence; and where all requests come through the front door, no pass is refused
for a length or a position, and every error on a channel is the shutdown or the failure of the tensor
library in a pass of that run. -/
structure ContinuousAgrees (app : AppState α) (scheduler : Scheduler α)
    (kvCache : SlabKvCache (KvTensor α)) (maxQueueDepth : ℕ) (req : GenerationRequest α) : Prop where
  fits : FitsModel scheduler.model req
  validates : ∀ capacity s, Scheduler.Reaches scheduler Scheduler.Anything
    (Scheduler.init kvCache maxQueueDepth capacity) s →
      Scheduler.validateRequest scheduler s.kvCache req = .ok () ∧
        (s.kvCache.freeSlots ≠ [] →
          ∃ seq kvCache', Sequence.new req s.kvCache = (.ok seq, kvCache'))
  served : ∀ capacity s, Scheduler.Reaches scheduler (Scheduler.ThroughFrontDoor app)
    (Scheduler.init kvCache maxQueueDepth capacity) s →
      (∀ seq, s.pc = .prefill seq → seq.promptTokens.length ≤ scheduler.model.maxPositions) ∧
      (s.pc = .forward → ∀ seq ∈ s.running, seq.decodePosition < scheduler.model.maxPositions) ∧
      ∀ client message, .error message ∈ (s.clients client).sent →
        Scheduler.ErrorCause scheduler (Scheduler.ThroughFrontDoor app)
          (Scheduler.init kvCache maxQueueDepth capacity) s client message

/-- The same in naive mode, for every run of the task of the request. -/
structure NaiveAgrees (model : SmallTransformer α) (req : GenerationRequest α) : Prop where
  fits : FitsModel model req
  created : ∃ seq kvCache, Sequence.new req (Naive.newCache model req) = (.ok seq, kvCache)
  served : ∀ room s, Naive.Reaches model req Naive.Anything (Naive.init room) s →
    (∀ serving, s.pc = .prefill serving →
      serving.seq.promptTokens.length ≤ model.maxPositions) ∧
    (∀ serving, s.pc = .forward serving → serving.seq.decodePosition < model.maxPositions) ∧
    ∀ message, .error message ∈ s.client.sent →
      Naive.ErrorCause model req Naive.Anything (Naive.init room) s message

/-- The request fits the engine of the application. -/
def Engine.Agrees (app : AppState α) (req : GenerationRequest α) : Engine α → Prop
  | continuous scheduler kvCache maxQueueDepth =>
      ContinuousAgrees app scheduler kvCache maxQueueDepth req
  | naive model _ => NaiveAgrees model req

section Engines

variable {args : ServeArgs} {loaded : Loaded α} {app : AppState α} {req : GenerationRequest α}

omit [FiniteCheck α] in
theorem naiveAgrees (hwithin : WithinLimits args req)
    (hpositions : args.maxSeqLen ≤ loaded.model.maxPositions) : NaiveAgrees loaded.model req := by
  have hfits := hwithin.fitsModel hpositions
  constructor
  case fits => exact hfits
  case created =>
    obtain ⟨handle, kvCache, hallocate⟩ :=
      Naive.exists_allocate_newCache loaded.model hwithin.admissible
    unfold Sequence.new
    rw [hallocate]
    exact ⟨_, kvCache, rfl⟩
  case served =>
    intro room s hreach
    have hspared := Naive.spared_reachable hwithin.admissible (hwithin.total_le.trans hpositions) hreach
    have hpc := hspared.within
    refine ⟨fun serving hprefill ↦ ?_, fun serving hforward ↦ ?_, hspared.sent⟩
    · rw [hprefill] at hpc
      have hstage : serving.Within loaded.model req 0 := hpc.1
      rw [hstage.prompt_eq]
      exact hfits.prompt_le
    · rw [hforward] at hpc
      have hstage : serving.Within loaded.model req serving.seq.decodePosition := hpc
      exact hfits.position_lt serving.seq hstage.prompt_eq hstage.generated_lt.le

theorem continuousAgrees (hwired : Wired args loaded app) (hwithin : WithinLimits args req) :
    ContinuousAgrees app (builtScheduler args loaded.model)
      (.new args.maxRunningSeqs args.maxSeqLen loaded.model.kvShape.1 loaded.model.kvShape.2.1
        loaded.model.kvShape.2.2) args.maxQueueDepth req := by
  have hadmitted := hwithin.admitted hwired.seqLen_le_positions
  constructor
  case fits => exact hwithin.fitsModel hwired.seqLen_le_positions
  case validates =>
    intro capacity s hreach
    have hslots := Scheduler.slots_reachable hreach
    have hcache : Scheduler.Admitted (builtScheduler args loaded.model) s.kvCache.maxSeqLen req := by
      rw [hslots.sameShape.maxSeqLen_eq]
      exact hadmitted
    exact ⟨Scheduler.validateRequest_eq_ok.mpr hcache, Scheduler.exists_new_of_admitted hcache⟩
  case served =>
    intro capacity s hreach
    have hadmits : ∀ before action, Scheduler.ThroughFrontDoor app before action →
        Scheduler.OnlyAdmitted (builtScheduler args loaded.model) args.maxSeqLen before action := by
      intro before action hthrough
      cases action with
      | submit other late =>
          obtain ⟨options, params, id, prompt, submission, hoptions, hbuild, rfl⟩ := hthrough
          have hbuilt := built_of_buildRequest hbuild
          have hother := withinLimits_of_built hwired (maxTokens_of_validateOptions hoptions) hbuilt
          exact hother.admitted hwired.seqLen_le_positions
      | _ => trivial
    have hspared := Scheduler.spared_reachable (Nat.le_refl _) hadmits rfl hreach
    have hfollowing := Scheduler.following_reachable hreach
    have hslots := Scheduler.slots_reachable hreach
    have hshape := loaded.model.shapedFor_new args.maxRunningSeqs args.maxSeqLen
    refine ⟨fun seq hpc ↦ ?_, fun hpc seq hseq ↦ ?_, hspared.sent⟩
    · exact (Scheduler.isTensor_of_prefillPass hfollowing hslots hshape hpc).1
    · obtain ⟨hdone, other, -, turns, hfollows, -⟩ :=
        Scheduler.exists_follows_of_forward hfollowing hslots hpc hseq
      exact hfollows.position_lt_maxPositions hdone

end Engines

/-- **The front door and the engines agree on what fits.** Whatever the command line, the loaded model
and the mode: a request that `validate_options` and `submit_prompt` have accepted is accepted by its
engine, and its client never hears of a capacity or a limit. -/
theorem front_door_agrees {load : String → String → Except String (Loaded α)} {args : ServeArgs}
    {app : AppState α} (hbuild : buildApp load args = .ok app) {options : RequestOptions α}
    {params : SubmitParams α} (hoptions : validateOptions app options = .ok params)
    {moment : Moment α} {id : String} {client : ClientId} {prompt : Str} {submission : Submission α}
    {rest : ℕ × List Str}
    (hsubmit : submitPrompt app moment id client prompt params = .ok (submission, rest)) :
    app.engine.Agrees app submission.request := by
  obtain ⟨loaded, -, hwired⟩ := wired_of_buildApp hbuild
  have hbuilt := built_of_buildRequest (buildRequest_of_submitPrompt hsubmit)
  have hwithin := withinLimits_of_built hwired (maxTokens_of_validateOptions hoptions) hbuilt
  rw [hwired.engine_eq]
  unfold buildEngine
  cases args.mode with
  | continuous => exact continuousAgrees hwired hwithin
  | naive => exact naiveAgrees hwithin hwired.seqLen_le_positions

instance : FiniteCheck ℚ := ⟨fun _ ↦ true⟩

/-- A tokenizer with one token for each character. -/
def tinyTokenizer : TokenizerBundle where
  modelName := "tiny-gpt2"
  eosToken := 100
  encode text := .ok (text.map fun c ↦ UInt32.ofNat (c.toNat % 2))

def tinyArgs (mode : ServeMode) : ServeArgs where
  host := "127.0.0.1"
  port := 8080
  mode := mode
  model := "tiny-gpt2"
  device := "cpu"
  maxRunningSeqs := 2
  maxQueueDepth := 4
  maxSeqLen := 8
  maxNewTokens := 4

def tinyApp (mode : ServeMode) : AppState ℚ where
  engine := buildEngine (tinyArgs mode) (.gpt2 tinyGpt2)
  tokenizer := tinyTokenizer
  modelName := "tiny-gpt2"
  maxNewTokens := 4
  maxSeqLen := 8

def tinyOptions : RequestOptions ℚ := ⟨some "tiny-gpt2", some 3, none, none, none, none, none, none⟩

def tinyParams : SubmitParams ℚ := ⟨3, 0, 1, none, [], 0, 5⟩

def tinyMoment : Moment ℚ := ⟨true, true, .new 4, fun _ ↦ true, false, false, 0, false⟩

theorem front_door_agrees_tinyApp :
    (∃ submission : Submission ℚ, submission.request.promptLen = 5 ∧
      (tinyApp .continuous).engine.Agrees (tinyApp .continuous) submission.request) ∧
    ∃ submission : Submission ℚ, submission.request.promptLen = 5 ∧
      (tinyApp .naive).engine.Agrees (tinyApp .naive) submission.request := by
  have hagrees : ∀ mode, ∃ submission : Submission ℚ, submission.request.promptLen = 5 ∧
      (tinyApp mode).engine.Agrees (tinyApp mode) submission.request := by
    intro mode
    have hvalidate : (tinyArgs mode).validate = .ok () := by
      cases mode <;> decide +kernel
    have hbuild : buildApp (fun _ _ ↦ .ok ⟨.gpt2 tinyGpt2, tinyTokenizer⟩) (tinyArgs mode) =
        .ok (tinyApp mode) := by
      unfold buildApp
      rw [hvalidate]
      rfl
    have hoptions : validateOptions (tinyApp mode) tinyOptions = .ok tinyParams := by
      cases mode <;> decide +kernel
    have hsubmit : ∃ submission : Submission ℚ, submission.request.promptLen = 5 ∧
        submitPrompt (tinyApp mode) tinyMoment "a" 0 "hello".toList tinyParams =
          .ok (submission, 5, []) := by
      cases mode
      · exact ⟨_, rfl, rfl⟩
      · exact ⟨_, rfl, rfl⟩
    obtain ⟨submission, hlength, hsubmit⟩ := hsubmit
    exact ⟨submission, hlength, front_door_agrees hbuild hoptions hsubmit⟩
  exact ⟨hagrees .continuous, hagrees .naive⟩

end HotBatch
