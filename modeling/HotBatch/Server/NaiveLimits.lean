import HotBatch.Scheduler.WithinCapacity
import HotBatch.Server.Cancellation

/-!
# The naive task within its limits

The naive task checks nothing of what the HTTP layer has checked. For a request that fits the word and
the positions of the model, its own cache is large enough, and so is the model, however the task is
disturbed: its slot holds as many tokens as its position says at every pass. What its client hears
besides tokens is the shutdown or the failure of the tensor library in a pass of the run.
-/

namespace HotBatch

namespace Naive

variable {α : Type} [Kernels α] {model : SmallTransformer α} {req : GenerationRequest α}

/-- What the error on the channel can be about that has nothing to do with a limit, in a run that has
come to `s`: the shutdown, or a pass in which the tensor library failed. -/
inductive ErrorCause (model : SmallTransformer α) (req : GenerationRequest α)
    (allowed : State α → Action → Prop) (start s : State α) : String → Prop
  | shutdown (hshutdown : s.shutdown = true) :
      ErrorCause model req allowed start s Scheduler.shutdownMessage
  | prefill {before : State α} {serving : Serving α} {text : String}
      (hbefore : Reaches model req allowed start before) (hpc : before.pc = .prefill serving)
      (herr : (model.prefill serving.seq.promptTokens serving.seq.kvHandle serving.kvCache).1 =
        .error (.tensor text))
      (hafter : Reaches model req allowed (prefill model serving before) s) :
      ErrorCause model req allowed start s (ModelError.tensor text).message
  | forward {before : State α} {serving : Serving α} {text : String}
      (hbefore : Reaches model req allowed start before) (hpc : before.pc = .forward serving)
      (herr : (model.forward [serving.seq.decodeInput] serving.kvCache).1 = .error (.tensor text))
      (hafter : Reaches model req allowed (forward model serving before) s) :
      ErrorCause model req allowed start s (ModelError.tensor text).message

/-- An unfinished sequence of the task, with so many tokens in its slot. -/
structure Serving.Within (model : SmallTransformer α) (req : GenerationRequest α) (tokens : ℕ)
    (serving : Serving α) : Prop where
  owns : serving.Owns model req
  prompt_eq : serving.seq.promptTokens = req.promptTokens
  maxNew_eq : serving.seq.sampler.maxNewTokens = req.maxNewTokens
  unfinished : serving.seq.finishReason = none
  generated_lt : serving.seq.generatedTokens.length < req.maxNewTokens
  cached : model.CachedTokens serving.store tokens

namespace Serving.Within

variable {serving : Serving α} {tokens : ℕ}

omit [Kernels α] in
/-- The position does not saturate. -/
theorem decodePosition_eq {seq : Sequence α} (hprompt : seq.promptTokens = req.promptTokens)
    (hadmissible : req.Admissible) (hgenerated : seq.generatedTokens.length ≤ req.maxNewTokens) :
    seq.decodePosition = req.promptLen - 1 + seq.generatedTokens.length := by
  have htotal := hadmissible.total_lt
  unfold Sequence.decodePosition
  rw [hprompt]
  apply Usize.saturatingAdd_eq_add
  change req.promptLen - 1 + _ < _
  omega

omit [Kernels α] in
/-- Every position up to the last token is one of the prompt and the new tokens. -/
theorem decodePosition_lt {seq : Sequence α} (hprompt : seq.promptTokens = req.promptTokens)
    (hadmissible : req.Admissible) (hgenerated : seq.generatedTokens.length ≤ req.maxNewTokens) :
    seq.decodePosition < req.promptLen + req.maxNewTokens := by
  have hpositive : 0 < req.promptLen := List.length_pos_iff.mpr hadmissible.prompt_ne
  rw [decodePosition_eq hprompt hadmissible hgenerated]
  omega

/-- With its slot ready, only the token decides whether the model can go on. -/
theorem rowOk (hwithin : serving.Within model req serving.seq.decodePosition)
    (hadmissible : req.Admissible) (haccepts : model.AcceptsInput serving.seq.decodeInput) :
    model.RowOk serving.kvCache serving.seq.decodeInput := by
  apply haccepts.rowOk hwithin.owns.shaped hwithin.cached
  change serving.seq.decodePosition + 1 ≤ serving.seq.kvHandle.capacityTokens
  rw [hwithin.owns.capacity_eq]
  exact decodePosition_lt hwithin.prompt_eq hadmissible hwithin.generated_lt.le

end Serving.Within

/-- What is known where the task looks at the signals. -/
def Stage.Within (model : SmallTransformer α) (req : GenerationRequest α) : Stage α → Prop
  | entry | waiting | locked => True
  | created serving =>
      serving.Within model req 0 ∧ serving.seq.generatedTokens = [] ∧
        ∀ layer, serving.store layer = none
  | prefilled serving | looping serving => serving.Within model req serving.seq.decodePosition
  | passed serving logits =>
      serving.Within model req (serving.seq.decodePosition + 1) ∧ ∃ row, logits[0]? = some row

def Pc.Within (model : SmallTransformer α) (req : GenerationRequest α) (cause : String → Prop) :
    Pc α → Prop
  | checkShutdown stage | checkDone stage | checkClosed stage => stage.Within model req
  | prefill serving => (Stage.created serving).Within model req
  | forward serving => (Stage.looping serving).Within model req
  | sampleToken serving logits => (Stage.passed serving logits).Within model req
  | sendItems serving items =>
      (serving.seq.isDone = false → (Stage.looping serving).Within model req) ∧
        ∀ message, .error message ∉ items
  | answer message => cause message
  | acquire | create | returned | panicked => True

/-- The task is within its limits, and every error on its channel has a cause. -/
structure State.Spared (model : SmallTransformer α) (req : GenerationRequest α)
    (cause : String → Prop) (s : State α) : Prop where
  within : s.pc.Within model req cause
  sent : ∀ message, .error message ∈ s.client.sent → cause message

section Step

variable {cause : String → Prop} {s s' : State α} {serving : Serving α}

theorem spared_leave {kept : Option (Serving α)} (hspared : s.Spared model req cause) {pc : Pc α}
    (hpc : pc.Within model req cause) : (s.leave kept pc).Spared model req cause :=
  ⟨hpc, hspared.sent⟩

theorem spared_abandon (hspared : s.Spared model req cause) (stage : Stage α) :
    (abandon stage s).Spared model req cause := by
  cases stage <;> exact ⟨trivial, hspared.sent⟩

theorem spared_enterLoop (hsent : ∀ message, .error message ∈ s.client.sent → cause message)
    (hwithin : serving.seq.isDone = false → (Stage.looping serving).Within model req) :
    (enterLoop serving s).Spared model req cause := by
  unfold enterLoop
  split
  · exact ⟨trivial, hsent⟩
  · rename_i hdone
    exact ⟨hwithin (Bool.not_eq_true _ ▸ hdone), hsent⟩

theorem spared_endTurn (hsent : ∀ message, .error message ∈ s.client.sent → cause message)
    (hwithin : serving.seq.isDone = false → (Stage.looping serving).Within model req) :
    (endTurn serving s).Spared model req cause := by
  apply spared_enterLoop
  · exact hsent
  · exact hwithin

theorem spared_proceed (hspared : s.Spared model req cause) {stage : Stage α}
    (hwithin : stage.Within model req) : (proceed stage s).Spared model req cause := by
  cases stage with
  | entry | waiting | locked => exact ⟨trivial, hspared.sent⟩
  | created _ | looping _ | passed _ _ => exact ⟨hwithin, hspared.sent⟩
  | prefilled serving =>
      apply spared_enterLoop hspared.sent
      intro _
      change Serving.Within model req serving.seq.markRunning.decodePosition
        { serving with seq := serving.seq.markRunning }
      rw [Sequence.markRunning_eq]
      exact ⟨hwithin.owns.swap rfl, hwithin.prompt_eq, hwithin.maxNew_eq, hwithin.unfinished,
        hwithin.generated_lt, hwithin.cached⟩

theorem spared_create (hadmissible : req.Admissible) (hspared : s.Spared model req cause) :
    (create model req s).Spared model req cause := by
  obtain ⟨handle, kvCache, hallocate⟩ := exists_allocate_newCache model hadmissible
  obtain ⟨howns, hempty⟩ := owns_of_allocate hallocate
  unfold create Sequence.new
  rw [hallocate]
  refine ⟨⟨⟨howns, rfl, rfl, rfl, hadmissible.maxNew_pos, ?_⟩, rfl, hempty⟩, hspared.sent⟩
  intro layer _
  change storedTokens (kvCache.stored handle) layer = 0
  unfold storedTokens
  rw [hempty]
  rfl

/-- A prefill fails in the tensor library only, and leaves all but the last token of the prompt. -/
theorem spared_prefill (hadmissible : req.Admissible)
    (hfits : req.promptLen + req.maxNewTokens ≤ model.maxPositions) (hspared : s.Spared model req cause)
    (hwithin : (Stage.created serving).Within model req)
    (hcause : ∀ text, (model.prefill serving.seq.promptTokens serving.seq.kvHandle
      serving.kvCache).1 = .error (.tensor text) → cause (ModelError.tensor text).message) :
    (prefill model serving s).Spared model req cause := by
  obtain ⟨hwithin, hgenerated, hempty⟩ := hwithin
  have hconfined := model.confined_prefill serving.seq.promptTokens serving.seq.kvHandle
    serving.kvCache hwithin.owns.wf
  unfold prefill
  cases hrun : model.prefill serving.seq.promptTokens serving.seq.kvHandle serving.kvCache with
  | mk result kvCache =>
      rw [hrun] at hconfined
      cases result with
      | error err =>
          have herr := congrArg Prod.fst hrun
          obtain ⟨text, rfl⟩ : err.IsTensor := by
            apply SmallTransformer.isTensor_of_prefill hwithin.owns.wf hwithin.owns.current _ _ herr
            · rw [hwithin.prompt_eq]
              exact (Nat.le_add_right _ _).trans hfits
            · intro haccepts
              apply haccepts.prefillOk hwithin.owns.shaped
              rw [hwithin.owns.capacity_eq, hwithin.prompt_eq]
              exact (Nat.sub_le _ _).trans (Nat.le_add_right _ _)
          exact spared_leave hspared (hcause text (hrun ▸ herr))
      | ok _ =>
          obtain ⟨haccepts, hstored⟩ :=
            SmallTransformer.prefill_eq_ok hwithin.owns.wf hwithin.owns.current hrun
          refine ⟨⟨hwithin.owns.confined hconfined, hwithin.prompt_eq, hwithin.maxNew_eq,
            hwithin.unfinished, hwithin.generated_lt, ?_⟩, hspared.sent⟩
          have hcached := SmallTransformer.cachedTokens_prefillStore haccepts hempty
          have hposition : serving.seq.decodePosition = serving.seq.promptTokens.length - 1 := by
            rw [Serving.Within.decodePosition_eq hwithin.prompt_eq hadmissible
              hwithin.generated_lt.le, hgenerated, hwithin.prompt_eq]
            rfl
          change model.CachedTokens (kvCache.stored serving.seq.kvHandle) serving.seq.decodePosition
          rw [hstored, hposition]
          exact hcached

/-- A decode pass fails in the tensor library only, and leaves one more token. -/
theorem spared_forward (hadmissible : req.Admissible)
    (hfits : req.promptLen + req.maxNewTokens ≤ model.maxPositions) (hspared : s.Spared model req cause)
    (hwithin : (Stage.looping serving).Within model req)
    (hcause : ∀ text, (model.forward [serving.seq.decodeInput] serving.kvCache).1 =
      .error (.tensor text) → cause (ModelError.tensor text).message) :
    (forward model serving s).Spared model req cause := by
  have hwithin : serving.Within model req serving.seq.decodePosition := hwithin
  have hlt := Serving.Within.decodePosition_lt hwithin.prompt_eq hadmissible hwithin.generated_lt.le
  have hconfined :=
    model.confined_forward [serving.seq.decodeInput] serving.kvCache hwithin.owns.wf
  unfold forward
  cases hrun : model.forward [serving.seq.decodeInput] serving.kvCache with
  | mk result kvCache =>
      rw [hrun] at hconfined
      cases result with
      | error err =>
          have herr := congrArg Prod.fst hrun
          obtain ⟨text, rfl⟩ : err.IsTensor := by
            apply SmallTransformer.isTensor_of_forward hwithin.owns.wf _ _ _ _ herr
            · exact List.nodup_singleton _
            · exact List.forall_mem_singleton.mpr hwithin.owns.current
            · exact List.forall_mem_singleton.mpr (hlt.trans_le hfits)
            · exact List.forall_mem_singleton.mpr (hwithin.rowOk hadmissible)
          exact spared_leave hspared (hcause text (hrun ▸ herr))
      | ok logits =>
          obtain ⟨-, rfl, hstored⟩ :=
            SmallTransformer.forward_eq_ok hwithin.owns.wf hwithin.owns.current hrun
          refine ⟨⟨⟨hwithin.owns.confined hconfined, hwithin.prompt_eq, hwithin.maxNew_eq,
            hwithin.unfinished, hwithin.generated_lt, ?_⟩, _, rfl⟩, hspared.sent⟩
          have hword : serving.seq.decodeInput.position < Usize.maxValue := by
            have htotal := hadmissible.total_lt
            unfold Usize.maxValue
            change serving.seq.decodePosition < _
            omega
          change model.CachedTokens (kvCache.stored serving.seq.kvHandle)
            (serving.seq.decodeInput.position + 1)
          change kvCache.stored serving.seq.kvHandle = _ at hstored
          rw [hstored]
          exact SmallTransformer.cachedTokens_decodeRow hwithin.cached hword

/-- A turn leaves room for the next one, if there is one. -/
theorem Serving.Within.advance {row : LogitRow α} {tokens : List Token} {stepped : Sequence α}
    (hwithin : serving.Within model req (serving.seq.decodePosition + 1))
    (hadmissible : req.Admissible) (hadvance : serving.seq.advance row = some (tokens, stepped))
    (hdone : stepped.isDone = false) :
    ({ serving with seq := stepped } : Serving α).Within model req stepped.decodePosition := by
  obtain ⟨-, hprompt, hhandle, -, -, hsampler, hgenerated⟩ := Sequence.advance_frame hadvance
  rcases Sequence.advance_state hadvance hwithin.unfinished with
    ⟨hfinished, -⟩ | ⟨-, hunfinished, hlimit⟩
  · rw [Sequence.isDone, hfinished] at hdone
    cases hdone
  · rw [hwithin.maxNew_eq] at hlimit
    have hlength : stepped.generatedTokens.length = serving.seq.generatedTokens.length + 1 := by
      rw [hgenerated, List.length_append]
      rfl
    have hlt : stepped.generatedTokens.length < req.maxNewTokens := hlength ▸ hlimit
    have hprompt' := hprompt.trans hwithin.prompt_eq
    refine ⟨hwithin.owns.swap hhandle, hprompt', ?_, hunfinished, hlt, ?_⟩
    · change stepped.sampler.maxNewTokens = _
      rw [hsampler]
      unfold Sampler.maxNewTokens
      rw [Sampler.sample_config]
      exact hwithin.maxNew_eq
    · have hposition : stepped.decodePosition = serving.seq.decodePosition + 1 := by
        rw [decodePosition_eq hprompt' hadmissible hlt.le,
          decodePosition_eq hwithin.prompt_eq hadmissible hwithin.generated_lt.le, hlength,
          Nat.add_assoc]
      change model.CachedTokens (serving.kvCache.stored stepped.kvHandle) stepped.decodePosition
      rw [hposition, hhandle]
      exact hwithin.cached

theorem spared_sampleToken {logits : List (LogitRow α)} (hadmissible : req.Admissible)
    (hspared : s.Spared model req cause) (hwithin : (Stage.passed serving logits).Within model req) :
    (sampleToken serving logits s).Spared model req cause := by
  obtain ⟨hwithin, row, hrow⟩ := hwithin
  unfold sampleToken
  rw [logitRow_eq_ok.mpr hrow]
  dsimp only
  split
  · exact ⟨trivial, hspared.sent⟩
  rename_i tokens stepped hadvance
  split
  · exact ⟨⟨fun hdone ↦ hwithin.advance hadmissible hadvance hdone,
      error_notMem_updateItems tokens stepped.finishReason⟩, hspared.sent⟩
  · apply spared_endTurn
    · exact hspared.sent
    · intro hdone
      rw [Sequence.cancel_isDone] at hdone
      cases hdone

/-- The causes cover what the step from `s` to `s'` may report. -/
structure Covers (model : SmallTransformer α) (cause : String → Prop) (s s' : State α) : Prop where
  shutdown : s.shutdown = true → cause Scheduler.shutdownMessage
  prefill : ∀ serving text, s.pc = .prefill serving → s' = prefill model serving s →
    (model.prefill serving.seq.promptTokens serving.seq.kvHandle serving.kvCache).1 =
      .error (.tensor text) → cause (ModelError.tensor text).message
  forward : ∀ serving text, s.pc = .forward serving → s' = forward model serving s →
    (model.forward [serving.seq.decodeInput] serving.kvCache).1 = .error (.tensor text) →
      cause (ModelError.tensor text).message

theorem spared_task (hadmissible : req.Admissible)
    (hfits : req.promptLen + req.maxNewTokens ≤ model.maxPositions) (hspared : s.Spared model req cause)
    (hcovers : Covers model cause s s') (hstep : TaskStep model req s s') :
    s'.Spared model req cause := by
  have hwithin := hspared.within
  cases hstep with
  | shutdown _ hshutdown => exact spared_leave hspared (hcovers.shutdown hshutdown)
  | goesOn hpc _ =>
      rw [hpc] at hwithin
      exact ⟨hwithin, hspared.sent⟩
  | responseDone _ _ => exact spared_abandon hspared _
  | looksAtReceiver hpc _ _ =>
      rw [hpc] at hwithin
      exact ⟨hwithin, hspared.sent⟩
  | responseWanted hpc _ _ | stillOpen hpc _ =>
      rw [hpc] at hwithin
      exact spared_proceed hspared hwithin
  | closed _ _ =>
      have hcounted : (s.recordCancelled req.client).Spared model req cause :=
        ⟨hspared.within, hspared.sent⟩
      exact spared_abandon hcounted _
  | acquire _ =>
      unfold acquire
      split
      · exact ⟨trivial, hspared.sent⟩
      · exact ⟨trivial, hspared.sent⟩
  | create _ => exact spared_create hadmissible hspared
  | @prefill serving hpc =>
      rw [hpc] at hwithin
      exact spared_prefill hadmissible hfits hspared hwithin
        fun text ↦ hcovers.prefill serving text hpc rfl
  | @forward serving hpc =>
      rw [hpc] at hwithin
      exact spared_forward hadmissible hfits hspared hwithin
        fun text ↦ hcovers.forward serving text hpc rfl
  | sampleToken hpc =>
      rw [hpc] at hwithin
      exact spared_sampleToken hadmissible hspared hwithin
  | @sendItems serving items hpc =>
      rw [hpc] at hwithin
      obtain ⟨hnext, hitems⟩ := hwithin
      cases items with
      | nil => exact spared_endTurn hspared.sent hnext
      | cons item rest =>
          refine ⟨⟨hnext, fun message hmem ↦ hitems message (List.mem_cons_of_mem _ hmem)⟩, ?_⟩
          intro message hmem
          apply hspared.sent message
          apply Client.error_of_send _ hmem
          rintro rfl
          exact hitems message List.mem_cons_self
  | @answer message hpc =>
      rw [hpc] at hwithin
      refine ⟨trivial, fun other hmem ↦ ?_⟩
      rcases Client.error_of_trySendError hmem with hold | rfl
      · exact hspared.sent other hold
      · exact hwithin

theorem spared_step (hadmissible : req.Admissible)
    (hfits : req.promptLen + req.maxNewTokens ≤ model.maxPositions) {action : Action}
    (hspared : s.Spared model req cause) (hcovers : Covers model cause s s')
    (hstep : step model req action s = some s') : s'.Spared model req cause := by
  cases action with
  | task => exact spared_task hadmissible hfits hspared hcovers (taskStep_of_next hstep)
  | client action =>
      obtain ⟨after, hact, rfl⟩ := Option.map_eq_some_iff.mp hstep
      refine ⟨hspared.within, fun message hmem ↦ hspared.sent message ?_⟩
      rw [← Client.act_sent hact]
      exact hmem
  | shutdown =>
      obtain rfl := Option.some.inj hstep
      exact ⟨hspared.within, hspared.sent⟩
  | lockModel | unlockModel =>
      simp only [step] at hstep
      split at hstep
      · obtain rfl := Option.some.inj hstep
        exact ⟨hspared.within, hspared.sent⟩
      · cases hstep

/-! ## The causes in a run -/

theorem State.Spared.imp {cause' : String → Prop} (hspared : s.Spared model req cause)
    (himp : ∀ message, cause message → cause' message) : s.Spared model req cause' where
  within := by
    have hwithin := hspared.within
    cases hpc : s.pc with
    | answer message =>
        rw [hpc] at hwithin
        exact himp message hwithin
    | _ =>
        rw [hpc] at hwithin
        exact hwithin
  sent message hmem := himp message (hspared.sent message hmem)

variable {allowed : State α → Action → Prop} {start : State α}

theorem shutdown_step {action : Action} (hstep : step model req action s = some s')
    (hshutdown : s.shutdown = true) : s'.shutdown = true := by
  cases action with
  | task => exact (framed_task (taskStep_of_next hstep)).shutdown.trans hshutdown
  | client action =>
      obtain ⟨_, -, rfl⟩ := Option.map_eq_some_iff.mp hstep
      exact hshutdown
  | shutdown => exact Option.some.inj hstep ▸ rfl
  | lockModel | unlockModel =>
      simp only [step] at hstep
      split at hstep
      · obtain rfl := Option.some.inj hstep
        exact hshutdown
      · cases hstep

/-- What has happened in a run stays so. -/
theorem ErrorCause.step {action : Action} {message : String}
    (hcause : ErrorCause model req allowed start s message) (hallowed : allowed s action)
    (hstep : step model req action s = some s') :
    ErrorCause model req allowed start s' message := by
  cases hcause with
  | shutdown hshutdown => exact .shutdown (shutdown_step hstep hshutdown)
  | prefill hbefore hpc herr hafter =>
      exact .prefill hbefore hpc herr (.step hafter hallowed hstep)
  | forward hbefore hpc herr hafter =>
      exact .forward hbefore hpc herr (.step hafter hallowed hstep)

theorem covers_errorCause {action : Action} (hreach : Reaches model req allowed start s)
    (hstep : step model req action s = some s') :
    Covers model (ErrorCause model req allowed start s') s s' where
  shutdown hshutdown := .shutdown (shutdown_step hstep hshutdown)
  prefill _ _ hpc hafter herr := .prefill hreach hpc herr (hafter ▸ .refl)
  forward _ _ hpc hafter herr := .forward hreach hpc herr (hafter ▸ .refl)

/-- **An admissible request hears of no limit**, in every run of its task. -/
theorem spared_reachable (hadmissible : req.Admissible)
    (hfits : req.promptLen + req.maxNewTokens ≤ model.maxPositions) {capacity : ℕ}
    (hreach : Reaches model req allowed (init capacity) s) :
    s.Spared model req (ErrorCause model req allowed (init capacity) s) := by
  induction hreach with
  | refl => exact ⟨trivial, fun _ hmem ↦ nomatch hmem⟩
  | step hbefore hallowed hstep ih =>
      have hspared := ih.imp fun message hcause ↦ hcause.step hallowed hstep
      exact spared_step hadmissible hfits hspared (covers_errorCause hbefore hstep) hstep

end Step

end Naive

end HotBatch
