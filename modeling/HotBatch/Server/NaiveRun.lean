import HotBatch.Core.PrivateRun
import HotBatch.Scheduler.Ledger
import HotBatch.Server.NaiveTask

/-!
# The undisturbed naive task

A task that nobody disturbs follows the private run of its request: its cache holds what the private
run has stored, and its channel has carried what the sequence has released. It ends when the private
run is done, or when the model rejects the request.
-/

namespace HotBatch

namespace Naive

variable {α : Type} [Kernels α] {model : SmallTransformer α} {req : GenerationRequest α}

/-- The connection stays, nobody else wants the model, and the server is not shut down. -/
def Undisturbed : State α → Action → Prop := fun _ action ↦ action = .task ∨ action = .client .recv

/-! ## The cache of the task -/

/-- The cache is fit for the model, and the sequence has its slot. -/
structure Serving.Owns (model : SmallTransformer α) (req : GenerationRequest α)
    (serving : Serving α) : Prop where
  wf : serving.kvCache.Wf
  shaped : model.ShapedFor serving.kvCache
  current : serving.kvCache.IsCurrentHandle serving.seq.kvHandle
  capacity_eq : serving.seq.kvHandle.capacityTokens = req.promptLen + req.maxNewTokens

/-- So many turns into the private run. -/
structure Serving.AtTurn (model : SmallTransformer α) (req : GenerationRequest α) (turns : ℕ)
    (serving : Serving α) : Prop where
  owns : serving.Owns model req
  accepted : PrivateState.Accepted model req serving.seq.kvHandle turns
  seq_eq : serving.seq = (PrivateState.after model req serving.seq.kvHandle turns).seq

/-- What is stored for the sequence of the task. -/
def Serving.store (serving : Serving α) : KvStore α := serving.kvCache.stored serving.seq.kvHandle

theorem Serving.Owns.confined {serving : Serving α} (howns : serving.Owns model req)
    {handles : List KvHandle} {kvCache : SlabKvCache (KvTensor α)}
    (hconfined : ConfinedTo handles serving.kvCache kvCache) :
    ({ serving with kvCache := kvCache } : Serving α).Owns model req where
  wf := hconfined.wf
  shaped := by
    obtain ⟨hlayers, hheads, hdim, -, -⟩ := hconfined.shape_eq
    exact ⟨hlayers.trans howns.shaped.numLayers_eq, hheads.trans howns.shaped.nHeads_eq,
      hdim.trans howns.shaped.headDim_eq⟩
  current := (hconfined.isCurrentHandle_iff _).mpr howns.current
  capacity_eq := howns.capacity_eq

theorem Serving.Owns.swap {serving : Serving α} (howns : serving.Owns model req) {seq : Sequence α}
    (hhandle : seq.kvHandle = serving.seq.kvHandle) :
    ({ serving with seq := seq } : Serving α).Owns model req where
  wf := howns.wf
  shaped := howns.shaped
  current := by
    change serving.kvCache.IsCurrentHandle seq.kvHandle
    rw [hhandle]
    exact howns.current
  capacity_eq := by
    change seq.kvHandle.capacityTokens = _
    rw [hhandle]
    exact howns.capacity_eq

namespace Serving.AtTurn

variable {serving : Serving α} {turns : ℕ}

theorem serves (hturn : serving.AtTurn model req turns) : Sequence.Serves req serving.seq := by
  rw [hturn.seq_eq]
  exact PrivateState.serves_after turns

theorem after_not_done (hturn : serving.AtTurn model req turns) (hdone : serving.seq.isDone = false) :
    (PrivateState.after model req serving.seq.kvHandle turns).seq.isDone = false := by
  rw [← hturn.seq_eq]
  exact hdone

/-- With its slot ready, only the token decides whether the model can go on. -/
theorem rowOk (hturn : serving.AtTurn model req turns) (hadmissible : req.Admissible)
    (hdone : serving.seq.isDone = false)
    (hstore : serving.store =
      (PrivateState.after model req serving.seq.kvHandle turns).store)
    (haccepts : model.AcceptsInput serving.seq.decodeInput) :
    model.RowOk serving.kvCache serving.seq.decodeInput := by
  have hafter := hturn.after_not_done hdone
  have hcached := PrivateState.cachedTokens_after hadmissible hturn.accepted hafter
  have hlast := PrivateState.decodePosition_lt hadmissible hafter
  rw [← hturn.seq_eq] at hcached hlast
  rw [← hstore] at hcached
  apply haccepts.rowOk hturn.owns.shaped hcached
  change serving.seq.decodePosition + 1 ≤ serving.seq.kvHandle.capacityTokens
  rw [hturn.owns.capacity_eq]
  omega

/-- A turn of the task is a turn of the private run. -/
theorem advance (hturn : serving.AtTurn model req turns) (hdone : serving.seq.isDone = false)
    (haccepts : model.AcceptsInput serving.seq.decodeInput) {tokens : List Token}
    {stepped : Sequence α}
    (hadvance : serving.seq.advance (model.decodeRow
      (PrivateState.after model req serving.seq.kvHandle turns).store serving.seq.decodeInput).1 =
        some (tokens, stepped)) :
    ({ serving with seq := stepped } : Serving α).AtTurn model req (turns + 1) ∧
      (PrivateState.after model req stepped.kvHandle (turns + 1)).store =
        (model.decodeRow (PrivateState.after model req serving.seq.kvHandle turns).store
          serving.seq.decodeInput).2 := by
  obtain ⟨-, -, hhandle, -⟩ := Sequence.advance_frame hadvance
  have hbefore := hturn.after_not_done hdone
  obtain ⟨tokens', stepped', hadvance', hafter⟩ := PrivateState.after_succ hbefore
  rw [← hturn.seq_eq] at hadvance' hafter
  rw [hadvance, Option.some_inj] at hadvance'
  obtain ⟨-, rfl⟩ := Prod.mk.inj hadvance'
  constructor
  · constructor
    case owns => exact hturn.owns.swap hhandle
    case seq_eq =>
      change stepped = (PrivateState.after model req stepped.kvHandle (turns + 1)).seq
      rw [hhandle, hafter]
    case accepted =>
      change PrivateState.Accepted model req stepped.kvHandle (turns + 1)
      rw [hhandle]
      refine ⟨hturn.accepted.prompt, fun turn hlt hturnDone ↦ ?_⟩
      rcases Nat.lt_succ_iff_lt_or_eq.mp hlt with hearlier | rfl
      · exact hturn.accepted.rows turn hearlier hturnDone
      · rw [← hturn.seq_eq]
        exact haccepts
  · rw [hhandle, hafter]

end Serving.AtTurn

/-! ## The course of the task -/

/-- The model did not process the request up to the end of its private run. -/
inductive Stuck (model : SmallTransformer α) (req : GenerationRequest α) (seq : Sequence α) : Prop
  | prompt (hseq : seq = .ofRequest req seq.kvHandle)
      (hrejected : ¬ model.AcceptsPrompt req.promptTokens)
  | row {turns : ℕ} (haccepted : PrivateState.Accepted model req seq.kvHandle turns)
      (hseq : seq = (PrivateState.after model req seq.kvHandle turns).seq)
      (hdone : seq.isDone = false) (hrejected : ¬ model.AcceptsInput seq.decodeInput)

/-- The sequence is at the end of its private run. -/
structure Served (model : SmallTransformer α) (req : GenerationRequest α) (seq : Sequence α)
    (view : View) : Prop where
  atTurn : ∃ turns, PrivateState.Accepted model req seq.kvHandle turns ∧
    seq = (PrivateState.after model req seq.kvHandle turns).seq
  done : seq.isDone = true
  account : seq.Account view

/-- How an undisturbed task ends. -/
def Outcome (model : SmallTransformer α) (req : GenerationRequest α) (view : View)
    (ended : Option (Serving α)) : Prop :=
  ∃ serving, ended = some serving ∧
    (Stuck model req serving.seq ∨ Served model req serving.seq view)

namespace Stage

/-- What is known where the task looks at the signals. -/
def OnCourse (model : SmallTransformer α) (req : GenerationRequest α) (view : View) : Stage α → Prop
  | entry | waiting | locked => view = .blank
  | created serving =>
      view = .blank ∧ serving.Owns model req ∧
        serving.seq = .ofRequest req serving.seq.kvHandle ∧ ∀ layer, serving.store layer = none
  | prefilled serving =>
      view = .blank ∧ serving.Owns model req ∧
        serving.seq = .ofRequest req serving.seq.kvHandle ∧
        model.AcceptsPrompt req.promptTokens ∧
        serving.store = model.prefillStore req.promptTokens fun _ ↦ none
  | looping serving =>
      serving.seq.isDone = false ∧ serving.seq.Live view ∧ ∃ turns,
        serving.AtTurn model req turns ∧
        serving.store = (PrivateState.after model req serving.seq.kvHandle turns).store
  | passed serving logits =>
      serving.seq.isDone = false ∧ serving.seq.Live view ∧ ∃ turns,
        serving.AtTurn model req turns ∧ model.AcceptsInput serving.seq.decodeInput ∧
        logits = [(model.decodeRow
          (PrivateState.after model req serving.seq.kvHandle turns).store
            serving.seq.decodeInput).1] ∧
        serving.store = (model.decodeRow
          (PrivateState.after model req serving.seq.kvHandle turns).store
            serving.seq.decodeInput).2

/-- The task has not yet got the model. -/
def IsOutside : Stage α → Prop
  | entry | waiting => True
  | locked | created _ | prefilled _ | looping _ | passed _ _ => False

end Stage

namespace Pc

def OnCourse (model : SmallTransformer α) (req : GenerationRequest α) (view : View)
    (ended : Option (Serving α)) : Pc α → Prop
  | checkShutdown stage | checkDone stage | checkClosed stage => stage.OnCourse model req view
  | acquire | create => view = .blank
  | prefill serving => (Stage.created serving).OnCourse model req view
  | forward serving => (Stage.looping serving).OnCourse model req view
  | sampleToken serving logits => (Stage.passed serving logits).OnCourse model req view
  | sendItems serving _ =>
      serving.seq.Account view ∧ (serving.seq.isDone = false → serving.seq.Live view) ∧ ∃ turns,
        serving.AtTurn model req turns ∧
        serving.store = (PrivateState.after model req serving.seq.kvHandle turns).store
  | answer _ => ∃ serving, ended = some serving ∧ Stuck model req serving.seq
  | returned => Outcome model req view ended
  | panicked => False

/-- The items of the delivery that is under way. -/
def items : Pc α → List StreamItem
  | sendItems _ items => items
  | _ => []

def IsOutside : Pc α → Prop
  | checkShutdown stage | checkDone stage | checkClosed stage => stage.IsOutside
  | acquire => True
  | _ => False

end Pc

/-- What has happened on the channel of the task. -/
def State.view (req : GenerationRequest α) (s : State α) : View where
  outgoing := s.client.sent ++ s.pc.items
  updates := s.history.updates
  cancelled := s.metrics.cancelledSequences.count req.client

/-- Nothing has disturbed the task so far. -/
structure State.Calm (s : State α) : Prop where
  shutdown : s.shutdown = false
  receiverOpen : s.client.receiverOpen = true
  responseDone : s.client.responseDone = false
  owner_of_outside : s.pc.IsOutside → s.owner = .nobody

/-- The task is on its course, unless its channel was too small at some point. -/
def State.OnCourse (model : SmallTransformer α) (req : GenerationRequest α) (s : State α) : Prop :=
  s.pc.OnCourse model req (s.view req) s.history.ended ∨
    ∃ update ∈ s.history.updates, update.delivered = false

section Step

variable {s s' : State α}

omit [Kernels α] in
theorem view_congr (hsent : s'.client.sent = s.client.sent) (hitems : s'.pc.items = s.pc.items)
    (hupdates : s'.history.updates = s.history.updates)
    (hcancelled : s'.metrics.cancelledSequences = s.metrics.cancelledSequences) :
    s'.view req = s.view req := by
  unfold State.view
  rw [hsent, hitems, hupdates, hcancelled]

omit [Kernels α] in
/-- The items that have gone out are those on the channel while nothing is in flight. -/
theorem view_outgoing_of_idle (hitems : s.pc.items = []) :
    (s.view req).outgoing = s.client.sent := by
  change s.client.sent ++ s.pc.items = _
  rw [hitems, List.append_nil]

omit [Kernels α] in
/-- An update that the channel takes goes out as a whole. -/
theorem view_delivered {serving : Serving α} {stepped : Sequence α} {tokens : List Token}
    (hitems : s.pc.items = []) :
    State.view req (State.goto
      (.sendItems { serving with seq := stepped } (updateItems tokens stepped.finishReason))
      { s with
        metrics := s.metrics.recordToken
        history := { s.history with updates := s.history.updates ++
          [⟨serving.seq.client, tokens, stepped.finishReason, true⟩] } }) =
      ⟨(s.view req).outgoing ++ updateItems tokens stepped.finishReason,
        (s.view req).updates ++ [⟨serving.seq.client, tokens, stepped.finishReason, true⟩],
        (s.view req).cancelled⟩ := by
  rw [view_outgoing_of_idle hitems]
  rfl

omit [Kernels α] in
/-- An item that is sent moves from what is in flight to the channel. -/
theorem view_send {serving : Serving α} {item : StreamItem} {rest : List StreamItem}
    (hpc : s.pc = .sendItems serving (item :: rest)) :
    State.view req { s with client := s.client.send item, pc := .sendItems serving rest } =
      s.view req := by
  unfold State.view
  rw [hpc]
  change View.mk ((s.client.sent ++ [item]) ++ rest) _ _ = _
  rw [List.append_assoc]
  rfl

/-- Entering the loop with a sequence whose private run is not over, or leaving with the result. -/
theorem onCourse_enterLoop {serving : Serving α} {turns : ℕ} (hitems : s.pc.items = [])
    (haccount : serving.seq.Account (s.view req))
    (hlive : serving.seq.isDone = false → serving.seq.Live (s.view req))
    (hturn : serving.AtTurn model req turns)
    (hstore : serving.store = (PrivateState.after model req serving.seq.kvHandle turns).store) :
    (enterLoop serving s).OnCourse model req := by
  left
  unfold enterLoop
  cases hdone : serving.seq.isDone with
  | true =>
      have hview : State.view req (s.leave (some serving) .returned) = s.view req :=
        view_congr rfl hitems.symm rfl rfl
      refine ⟨_, rfl, Or.inr ⟨⟨turns, hturn.accepted, hturn.seq_eq⟩, hdone, ?_⟩⟩
      exact hview.symm ▸ haccount
  | false =>
      have hview : State.view req (s.goto (.checkShutdown (.looping serving))) = s.view req :=
        view_congr rfl hitems.symm rfl rfl
      exact ⟨hdone, hview.symm ▸ hlive hdone, turns, hturn, hstore⟩

theorem onCourse_proceed {stage : Stage α} (hitems : s.pc.items = [])
    (hstage : stage.OnCourse model req (s.view req)) : (proceed stage s).OnCourse model req := by
  have hview : ∀ pc : Pc α, pc.items = [] → State.view req (s.goto pc) = s.view req :=
    fun pc hpc ↦ view_congr rfl (hpc.trans hitems.symm) rfl rfl
  cases stage with
  | entry => exact Or.inl ((hview _ rfl).trans hstage)
  | waiting => exact Or.inl ((hview _ rfl).trans hstage)
  | locked => exact Or.inl ((hview _ rfl).trans hstage)
  | created serving =>
      left
      change (Stage.created serving).OnCourse model req (State.view req (s.goto _))
      rw [hview _ rfl]
      exact hstage
  | looping serving =>
      left
      change (Stage.looping serving).OnCourse model req (State.view req (s.goto _))
      rw [hview _ rfl]
      exact hstage
  | passed serving logits =>
      left
      change (Stage.passed serving logits).OnCourse model req (State.view req (s.goto _))
      rw [hview _ rfl]
      exact hstage
  | prefilled serving =>
      obtain ⟨hblank, howns, hseq, haccepts, hstore⟩ := hstage
      have hhandle := serving.seq.markRunning_kvHandle
      have hunstarted : serving.seq.Unstarted := by
        rw [hseq]
        exact ⟨rfl, rfl, rfl⟩
      have hlive : serving.seq.markRunning.Live (s.view req) := by
        rw [serving.seq.markRunning_eq, hblank]
        exact (hunstarted.withState _).live
      have hturn : ({ serving with seq := serving.seq.markRunning } : Serving α).AtTurn model req 0 := by
        constructor
        case owns => exact howns.swap hhandle
        case accepted => exact ⟨haccepts, fun turn hlt ↦ absurd hlt (Nat.not_lt_zero turn)⟩
        case seq_eq =>
          change serving.seq.markRunning =
            (Sequence.ofRequest req serving.seq.markRunning.kvHandle).markRunning
          rw [hhandle, ← hseq]
      apply onCourse_enterLoop hitems hlive.account (fun _ ↦ hlive) hturn
      change serving.kvCache.stored serving.seq.markRunning.kvHandle = _
      rw [hhandle]
      exact hstore

omit [Kernels α] in
/-- The task's own cache has room for a request that fits the word. -/
theorem exists_allocate_newCache (model : SmallTransformer α) (hadmissible : req.Admissible) :
    ∃ handle kvCache, (newCache model req).allocate req.promptLen req.maxNewTokens =
      (.ok handle, kvCache) := by
  have hlength : req.promptLen + req.maxNewTokens ≤ (newCache model req).maxSeqLen := by
    change _ ≤ max (Usize.saturatingAdd req.promptLen req.maxNewTokens) 1
    rw [Usize.saturatingAdd_eq_add hadmissible.total_lt]
    exact Nat.le_max_left _ _
  have hfree : (newCache model req).freeSlots ≠ [] := List.cons_ne_nil 0 []
  exact SlabKvCache.exists_allocate hadmissible.total_lt hlength hfree

/-- What the task has after the allocation. -/
theorem owns_of_allocate {handle : KvHandle} {kvCache : SlabKvCache (KvTensor α)}
    (hallocate : (newCache model req).allocate req.promptLen req.maxNewTokens =
      (.ok handle, kvCache)) :
    (⟨.ofRequest req handle, kvCache⟩ : Serving α).Owns model req ∧
      ∀ layer, kvCache.stored handle layer = none := by
  have hwf : (newCache model req).Wf := SlabKvCache.wf_new _ _ _ _ _
  obtain ⟨-, -, rest, -, hhandle, -⟩ := SlabKvCache.allocate_eq_ok hallocate
  constructor
  · constructor
    case wf => exact SlabKvCache.wf_allocate hwf hallocate
    case current => exact (SlabKvCache.isCurrentHandle_allocate hwf hallocate _).mpr (Or.inl rfl)
    case capacity_eq =>
      change handle.capacityTokens = _
      rw [hhandle]
    case shaped =>
      have hsame := SlabKvCache.sameShape_allocate hallocate
      exact ⟨hsame.numLayers_eq, hsame.nHeads_eq, hsame.headDim_eq⟩
  · intro layer
    rw [SlabKvCache.stored_allocate hwf hallocate, if_pos rfl]

/-- The task's own cache has room for a request that fits the word. -/
theorem onCourse_create (hadmissible : req.Admissible) (hpc : s.pc = .create)
    (hblank : s.view req = .blank) : (create model req s).OnCourse model req := by
  obtain ⟨handle, kvCache, hallocate⟩ := exists_allocate_newCache model hadmissible
  obtain ⟨howns, hempty⟩ := owns_of_allocate hallocate
  unfold create Sequence.new
  rw [hallocate]
  have hview : State.view req { s with
      metrics := s.metrics.setRunning 1
      pc := .checkShutdown (.created ⟨.ofRequest req handle, kvCache⟩) } = s.view req :=
    view_congr rfl (by rw [hpc]; rfl) rfl rfl
  exact Or.inl ⟨hview.trans hblank, howns, rfl, hempty⟩

theorem onCourse_prefill {serving : Serving α} (hpc : s.pc = .prefill serving)
    (hstage : (Stage.created serving).OnCourse model req (s.view req)) :
    (prefill model serving s).OnCourse model req := by
  obtain ⟨hblank, howns, hseq, hempty⟩ := hstage
  have hprompt : serving.seq.promptTokens = req.promptTokens := by rw [hseq]; rfl
  have hconfined := model.confined_prefill serving.seq.promptTokens serving.seq.kvHandle
    serving.kvCache howns.wf
  left
  unfold prefill
  cases hrun : model.prefill serving.seq.promptTokens serving.seq.kvHandle serving.kvCache with
  | mk result kvCache =>
      rw [hrun] at hconfined
      cases result with
      | error err =>
          refine ⟨_, rfl, .prompt hseq fun haccepts ↦ ?_⟩
          have hok : model.PrefillOk serving.kvCache serving.seq.promptTokens serving.seq.kvHandle := by
            rw [← hprompt] at haccepts
            apply haccepts.prefillOk howns.shaped
            rw [howns.capacity_eq, hprompt]
            exact (Nat.sub_le _ _).trans (Nat.le_add_right _ _)
          obtain ⟨cache', hgood, -⟩ := SmallTransformer.prefill_of_ok howns.wf howns.current hok
          rw [hgood] at hrun
          cases hrun
      | ok _ =>
          obtain ⟨haccepts, hstored⟩ :=
            SmallTransformer.prefill_eq_ok howns.wf howns.current hrun
          have hview : State.view req (s.goto (.checkShutdown (.prefilled
              { serving with kvCache := kvCache }))) = s.view req :=
            view_congr rfl (by rw [hpc]; rfl) rfl rfl
          have hnone : serving.kvCache.stored serving.seq.kvHandle = fun _ ↦ none := funext hempty
          refine ⟨hview.trans hblank, howns.confined hconfined, hseq, hprompt ▸ haccepts, ?_⟩
          change kvCache.stored serving.seq.kvHandle = _
          rw [hstored, hprompt, hnone]

theorem onCourse_forward (hadmissible : req.Admissible) {serving : Serving α}
    (hpc : s.pc = .forward serving)
    (hstage : (Stage.looping serving).OnCourse model req (s.view req)) :
    (forward model serving s).OnCourse model req := by
  obtain ⟨hdone, hlive, turns, hturn, hstore⟩ := hstage
  have hconfined := model.confined_forward [serving.seq.decodeInput] serving.kvCache hturn.owns.wf
  left
  unfold forward
  cases hrun : model.forward [serving.seq.decodeInput] serving.kvCache with
  | mk result kvCache =>
      rw [hrun] at hconfined
      cases result with
      | error err =>
          refine ⟨_, rfl, .row hturn.accepted hturn.seq_eq hdone fun haccepts ↦ ?_⟩
          have hok := hturn.rowOk hadmissible hdone hstore haccepts
          obtain ⟨cache', hgood, -⟩ := SmallTransformer.forward_of_rowsOk
            [serving.seq.decodeInput] hturn.owns.wf (List.nodup_singleton _)
            (List.forall_mem_singleton.mpr hturn.owns.current) (List.forall_mem_singleton.mpr hok)
          rw [hgood] at hrun
          cases hrun
      | ok logits =>
          obtain ⟨haccepts, hlogits, hstored⟩ :=
            SmallTransformer.forward_eq_ok hturn.owns.wf hturn.owns.current hrun
          have hview : State.view req (s.goto (.checkShutdown (.passed
              { serving with kvCache := kvCache } logits))) = s.view req :=
            view_congr rfl (by rw [hpc]; rfl) rfl rfl
          change logits = [(model.decodeRow serving.store serving.seq.decodeInput).1] at hlogits
          change kvCache.stored serving.seq.kvHandle =
            (model.decodeRow serving.store serving.seq.decodeInput).2 at hstored
          rw [hstore] at hlogits hstored
          refine ⟨hdone, hview.symm ▸ hlive, turns, ?_, haccepts, hlogits, hstored⟩
          exact ⟨hturn.owns.confined hconfined, hturn.accepted, hturn.seq_eq⟩

/-- A turn of the task: the update goes out, or it is refused and the task is off its course. -/
theorem onCourse_sampleToken {serving : Serving α} {logits : List (LogitRow α)}
    (hpc : s.pc = .sampleToken serving logits)
    (hstage : (Stage.passed serving logits).OnCourse model req (s.view req)) :
    (sampleToken serving logits s).OnCourse model req := by
  obtain ⟨hdone, hlive, turns, hturn, haccepts, rfl, hstore⟩ := hstage
  obtain ⟨tokens, stepped, hadvance⟩ := hturn.serves.exists_advance
    (model.decodeRow (PrivateState.after model req serving.seq.kvHandle turns).store
      serving.seq.decodeInput).1
  obtain ⟨hstepped, hready⟩ := hturn.advance hdone haccepts hadvance
  obtain ⟨-, -, hhandle, -⟩ := Sequence.advance_frame hadvance
  have hitems : s.pc.items = [] := by rw [hpc]; rfl
  unfold sampleToken logitRow
  rw [List.getElem?_cons_zero]
  dsimp only
  rw [hadvance]
  dsimp only
  cases hdelivered : s.client.tryReserveMany (updateItems tokens stepped.finishReason).length with
  | false =>
      right
      refine ⟨⟨serving.seq.client, tokens, stepped.finishReason, false⟩, ?_, rfl⟩
      rw [if_neg Bool.false_ne_true]
      unfold endTurn enterLoop
      split
      · exact List.mem_append_right _ (List.mem_singleton_self _)
      · exact List.mem_append_right _ (List.mem_singleton_self _)
  | true =>
      left
      rw [if_pos rfl]
      rw [view_delivered hitems]
      have haccount := hlive.advance_account hadvance serving.seq.client true stepped.state
        (Nat.zero_le 1)
      refine ⟨haccount, hlive.advance hadvance serving.seq.client, turns + 1, hstepped, ?_⟩
      change serving.kvCache.stored stepped.kvHandle =
        (PrivateState.after model req stepped.kvHandle (turns + 1)).store
      rw [hready, hhandle]
      exact hstore

/-- What a step of the task leaves alone. -/
structure Framed (s s' : State α) : Prop where
  shutdown : s'.shutdown = s.shutdown
  receiverOpen : s'.client.receiverOpen = s.client.receiverOpen
  responseDone : s'.client.responseDone = s.client.responseDone
  capacity : s'.client.capacity = s.client.capacity
  outside : s'.pc.IsOutside → s.pc.IsOutside ∧ s'.owner = s.owner
  updates : s'.history.updates = s.history.updates ∨ ∃ serving logits,
    s.pc = .sampleToken serving logits ∧ ∃ update, s'.history.updates = s.history.updates ++ [update]

section Frames

omit [Kernels α]

theorem framed_leave (serving : Option (Serving α)) {pc : Pc α} (hpc : ¬ pc.IsOutside) (s : State α) :
    Framed s (s.leave serving pc) :=
  ⟨rfl, rfl, rfl, rfl, fun houtside ↦ absurd houtside hpc, Or.inl rfl⟩

theorem framed_goto {pc : Pc α} (hpc : pc.IsOutside → s.pc.IsOutside) : Framed s (s.goto pc) :=
  ⟨rfl, rfl, rfl, rfl, fun houtside ↦ ⟨hpc houtside, rfl⟩, Or.inl rfl⟩

theorem framed_abandon (stage : Stage α) (s : State α) : Framed s (abandon stage s) := by
  cases stage <;> exact framed_leave _ id s

theorem framed_enterLoop (serving : Serving α) (s : State α) : Framed s (enterLoop serving s) := by
  unfold enterLoop
  split
  · exact framed_leave _ id s
  · exact framed_goto False.elim

theorem framed_proceed {stage : Stage α} (hstage : stage.IsOutside → s.pc.IsOutside) :
    Framed s (proceed stage s) := by
  cases stage with
  | entry => exact framed_goto hstage
  | waiting => exact framed_goto hstage
  | locked => exact framed_goto False.elim
  | created serving => exact framed_goto False.elim
  | prefilled serving => exact framed_enterLoop _ s
  | looping serving => exact framed_goto False.elim
  | passed serving logits => exact framed_goto False.elim

theorem framed_endTurn (serving : Serving α) (s : State α) : Framed s (endTurn serving s) :=
  { framed_enterLoop serving
      { s with metrics := s.metrics.recordStep 1 (if serving.seq.isDone then 0 else 1) } with }

end Frames

theorem framed_sampleToken {serving : Serving α} {logits : List (LogitRow α)}
    (hpc : s.pc = .sampleToken serving logits) : Framed s (sampleToken serving logits s) := by
  unfold sampleToken
  split
  · exact framed_leave _ id s
  split
  · exact framed_goto False.elim
  dsimp only
  split
  · exact ⟨rfl, rfl, rfl, rfl, False.elim, Or.inr ⟨serving, logits, hpc, _, rfl⟩⟩
  · unfold endTurn enterLoop
    split
    · exact ⟨rfl, rfl, rfl, rfl, False.elim, Or.inr ⟨serving, logits, hpc, _, rfl⟩⟩
    · exact ⟨rfl, rfl, rfl, rfl, False.elim, Or.inr ⟨serving, logits, hpc, _, rfl⟩⟩

theorem framed_task (hstep : TaskStep model req s s') : Framed s s' := by
  have hstage : ∀ {stage : Stage α} {pc : Pc α}, s.pc = pc →
      (stage.IsOutside → pc.IsOutside) → stage.IsOutside → s.pc.IsOutside := by
    rintro stage pc rfl hpc
    exact hpc
  cases hstep with
  | shutdown _ _ => exact framed_leave _ id s
  | goesOn hpc _ => exact framed_goto (hstage hpc id)
  | responseDone _ _ => exact framed_abandon _ s
  | looksAtReceiver hpc _ _ => exact framed_goto (hstage hpc id)
  | responseWanted hpc _ _ => exact framed_proceed (hstage hpc id)
  | closed _ _ => exact { framed_abandon _ (s.recordCancelled req.client) with }
  | stillOpen hpc _ => exact framed_proceed (hstage hpc id)
  | acquire hpc =>
      unfold acquire
      split
      · exact ⟨rfl, rfl, rfl, rfl, False.elim, Or.inl rfl⟩
      · apply framed_goto
        rw [hpc]
        exact id
  | create _ =>
      unfold create
      split
      · exact framed_leave _ id s
      · exact ⟨rfl, rfl, rfl, rfl, False.elim, Or.inl rfl⟩
  | prefill _ =>
      unfold prefill
      split
      · exact framed_leave _ id s
      · exact framed_goto False.elim
  | forward _ =>
      unfold forward
      split
      · exact framed_leave _ id s
      · exact framed_goto False.elim
  | sampleToken hpc => exact framed_sampleToken hpc
  | @sendItems serving items _ =>
      unfold sendItems
      split
      · exact framed_endTurn serving s
      · exact ⟨rfl, rfl, rfl, rfl, False.elim, Or.inl rfl⟩
  | @answer message _ =>
      have hsame : (s.client.trySendError message).capacity = s.client.capacity := by
        unfold Client.trySendError Client.trySend
        split <;> rfl
      exact ⟨rfl, Client.trySend_receiverOpen _ _, Client.trySend_responseDone _ _, hsame,
        False.elim, Or.inl rfl⟩

/-- A delivery goes on, or ends. -/
theorem onCourse_sendItems {serving : Serving α} {items : List StreamItem}
    (hpc : s.pc = .sendItems serving items)
    (hcourse : (Pc.sendItems serving items).OnCourse model req (s.view req) s.history.ended) :
    (sendItems serving items s).OnCourse model req := by
  obtain ⟨haccount, hlive, turns, hturn, hstore⟩ := hcourse
  cases items with
  | nil =>
      have hview : State.view req { s with
          metrics := s.metrics.recordStep 1 (if serving.seq.isDone then 0 else 1) } =
          s.view req := view_congr rfl rfl rfl rfl
      refine onCourse_enterLoop ?_ ?_ ?_ hturn hstore
      · change s.pc.items = []
        rw [hpc]
        rfl
      · exact hview.symm ▸ haccount
      · exact fun hdone ↦ hview.symm ▸ hlive hdone
  | cons item rest =>
      left
      have hview : State.view req { s with
          client := s.client.send item
          pc := .sendItems serving rest } = s.view req := view_send hpc
      exact ⟨hview.symm ▸ haccount, fun hdone ↦ hview.symm ▸ hlive hdone, turns, hturn, hstore⟩

/-- **Every step keeps an undisturbed task on its course.** -/
theorem onCourse_task (hadmissible : req.Admissible) (hcalm : s.Calm)
    (hcourse : s.OnCourse model req) (hstep : TaskStep model req s s') : s'.OnCourse model req := by
  rcases hcourse with hcourse | ⟨update, hupdate, hrefused⟩
  swap
  · rcases (framed_task hstep).updates with hsame | ⟨_, _, -, last, hmore⟩
    · exact Or.inr ⟨update, hsame ▸ hupdate, hrefused⟩
    · exact Or.inr ⟨update, hmore ▸ List.mem_append_left [last] hupdate, hrefused⟩
  have hitems : ∀ {pc : Pc α}, s.pc = pc → pc.items = [] → s.pc.items = [] := by
    rintro pc rfl hnone
    exact hnone
  have hgoto : ∀ pc : Pc α, pc.items = [] → s.pc.items = [] →
      State.view req (s.goto pc) = s.view req :=
    fun pc hafter hbefore ↦ view_congr rfl (hafter.trans hbefore.symm) rfl rfl
  cases hstep with
  | shutdown _ hshutdown => exact absurd (hshutdown.symm.trans hcalm.shutdown) (by decide)
  | goesOn hpc _ =>
      left
      rw [hpc] at hcourse
      change Stage.OnCourse _ _ (State.view req (s.goto _)) _
      rw [hgoto _ rfl (hitems hpc rfl)]
      exact hcourse
  | responseDone _ hdone => exact absurd (hdone.symm.trans hcalm.responseDone) (by decide)
  | looksAtReceiver hpc _ _ =>
      left
      rw [hpc] at hcourse
      change Stage.OnCourse _ _ (State.view req (s.goto _)) _
      rw [hgoto _ rfl (hitems hpc rfl)]
      exact hcourse
  | responseWanted hpc _ _ =>
      rw [hpc] at hcourse
      exact onCourse_proceed (hitems hpc rfl) hcourse
  | closed _ hclosed =>
      unfold Client.isClosed at hclosed
      rw [hcalm.receiverOpen] at hclosed
      cases hclosed
  | stillOpen hpc _ =>
      rw [hpc] at hcourse
      exact onCourse_proceed (hitems hpc rfl) hcourse
  | acquire hpc =>
      left
      rw [hpc] at hcourse
      have hfree : s.owner = .nobody := hcalm.owner_of_outside (by rw [hpc]; trivial)
      unfold acquire
      rw [if_pos hfree]
      have hview : State.view req { s with owner := .task, pc := .checkShutdown .locked } =
          s.view req := view_congr rfl (hitems hpc rfl).symm rfl rfl
      exact hview.trans hcourse
  | create hpc =>
      rw [hpc] at hcourse
      exact onCourse_create hadmissible hpc hcourse
  | prefill hpc =>
      rw [hpc] at hcourse
      exact onCourse_prefill hpc hcourse
  | forward hpc =>
      rw [hpc] at hcourse
      exact onCourse_forward hadmissible hpc hcourse
  | sampleToken hpc =>
      rw [hpc] at hcourse
      exact onCourse_sampleToken hpc hcourse
  | sendItems hpc =>
      rw [hpc] at hcourse
      exact onCourse_sendItems hpc hcourse
  | answer hpc =>
      left
      rw [hpc] at hcourse
      obtain ⟨serving, hended, hstuck⟩ := hcourse
      exact ⟨serving, hended, Or.inl hstuck⟩

omit [Kernels α] in
theorem Framed.calm (hframed : Framed s s') (hcalm : s.Calm) : s'.Calm where
  shutdown := hframed.shutdown.trans hcalm.shutdown
  receiverOpen := hframed.receiverOpen.trans hcalm.receiverOpen
  responseDone := hframed.responseDone.trans hcalm.responseDone
  owner_of_outside := by
    intro houtside
    obtain ⟨hbefore, howner⟩ := hframed.outside houtside
    rw [howner]
    exact hcalm.owner_of_outside hbefore

/-- **An undisturbed task stays on its course.** -/
theorem undisturbed_step (hadmissible : req.Admissible) {action : Action}
    (hallowed : Undisturbed s action) (hstep : step model req action s = some s')
    (hcalm : s.Calm) (hcourse : s.OnCourse model req) : s'.Calm ∧ s'.OnCourse model req := by
  rcases hallowed with rfl | rfl
  · have htask := taskStep_of_next hstep
    exact ⟨(framed_task htask).calm hcalm, onCourse_task hadmissible hcalm hcourse htask⟩
  · obtain ⟨client, hact, rfl⟩ := Option.map_eq_some_iff.mp hstep
    obtain ⟨rfl, -⟩ := Client.act_recv hact
    have hview : State.view req { s with client :=
        { s.client with received := s.client.received + 1 } } = s.view req :=
      view_congr rfl rfl rfl rfl
    constructor
    · exact ⟨hcalm.shutdown, hcalm.receiverOpen, hcalm.responseDone, hcalm.owner_of_outside⟩
    · rcases hcourse with hcourse | hrefused
      · exact Or.inl (hview.symm ▸ hcourse)
      · exact Or.inr hrefused

theorem undisturbed_reachable (hadmissible : req.Admissible) {capacity : ℕ}
    (hreach : Reaches model req Undisturbed (init capacity) s) :
    s.Calm ∧ s.OnCourse model req := by
  have hstart : (init capacity : State α).Calm ∧ (init capacity).OnCourse model req :=
    ⟨⟨rfl, rfl, rfl, fun _ ↦ rfl⟩, Or.inl rfl⟩
  have hpreserved : Transition.PreservedFrom (step model req) Undisturbed (init capacity)
      (fun s ↦ s.Calm ∧ s.OnCourse model req) := by
    rintro before after action - ⟨hcalm, hcourse⟩ hallowed hnext
    exact undisturbed_step hadmissible hallowed hnext hcalm hcourse
  exact Transition.Reaches.invariant hpreserved hstart hreach

end Step

/-! ## The task returns -/

section Termination

variable {s s' : State α}

def Stage.rank : Stage α → ℕ
  | entry => 30
  | waiting => 27
  | locked => 23
  | created _ => 19
  | prefilled _ => 15
  | looping _ => 10
  | passed _ _ => 6

/-- How far the task still has to go, apart from further tokens. -/
def Pc.rank : Pc α → ℕ
  | checkShutdown stage => stage.rank + 2
  | checkDone stage => stage.rank + 1
  | checkClosed stage => stage.rank
  | acquire => 26
  | create => 22
  | prefill _ => 18
  | forward _ => 9
  | sampleToken _ _ => 5
  | sendItems _ items => 13 + items.length
  | answer _ => 1
  | returned => 0
  | panicked => 0

/-- The tokens that the task may still generate. -/
def Stage.toGo (req : GenerationRequest α) (stage : Stage α) : ℕ :=
  req.maxNewTokens - (stage.serving.map fun serving ↦ serving.seq.generatedTokens.length).getD 0

def Pc.toGo (req : GenerationRequest α) : Pc α → ℕ
  | checkShutdown stage | checkDone stage | checkClosed stage => stage.toGo req
  | acquire | create => req.maxNewTokens
  | prefill serving | forward serving | sampleToken serving _ | sendItems serving _ =>
      req.maxNewTokens - serving.seq.generatedTokens.length
  | answer _ | returned | panicked => 0

def State.measure (req : GenerationRequest α) (s : State α) : ℕ × ℕ := (s.pc.toGo req, s.pc.rank)

abbrev Smaller : ℕ × ℕ → ℕ × ℕ → Prop := Prod.Lex (· < ·) (· < ·)

omit [Kernels α] in
/-- A step that generates nothing and comes closer to the end. -/
theorem smaller_of_rank (htoGo : s'.pc.toGo req ≤ s.pc.toGo req) (hrank : s'.pc.rank < s.pc.rank) :
    Smaller (s'.measure req) (s.measure req) := by
  rcases Nat.lt_or_eq_of_le htoGo with hlt | heq
  · exact Prod.Lex.left _ _ hlt
  · unfold State.measure
    rw [heq]
    exact Prod.Lex.right _ hrank

omit [Kernels α] in
theorem smaller_enterLoop {serving : Serving α}
    (htoGo : req.maxNewTokens - serving.seq.generatedTokens.length ≤ s.pc.toGo req)
    (hrank : 12 < s.pc.rank) :
    Smaller ((enterLoop serving s).measure req) (s.measure req) := by
  unfold enterLoop
  split
  · exact smaller_of_rank (Nat.zero_le _) (Nat.zero_lt_of_lt hrank)
  · exact smaller_of_rank htoGo hrank

omit [Kernels α] in
theorem smaller_proceed {stage : Stage α} (htoGo : stage.toGo req ≤ s.pc.toGo req)
    (hrank : stage.rank ≤ s.pc.rank) : Smaller ((proceed stage s).measure req) (s.measure req) := by
  have hgoto : ∀ pc : Pc α, pc.toGo req ≤ stage.toGo req → pc.rank < stage.rank →
      Smaller ((s.goto pc).measure req) (s.measure req) := fun pc htoGo' hrank' ↦
    smaller_of_rank (htoGo'.trans htoGo) (hrank'.trans_le hrank)
  cases stage with
  | entry => exact hgoto _ (Nat.le_refl _) (by simp [Pc.rank, Stage.rank])
  | waiting => exact hgoto _ (Nat.le_refl _) (by simp [Pc.rank, Stage.rank])
  | locked => exact hgoto _ (Nat.le_refl _) (by simp [Pc.rank, Stage.rank])
  | created serving => exact hgoto _ (Nat.le_refl _) (by simp [Pc.rank, Stage.rank])
  | looping serving => exact hgoto _ (Nat.le_refl _) (by simp [Pc.rank, Stage.rank])
  | passed serving logits => exact hgoto _ (Nat.le_refl _) (by simp [Pc.rank, Stage.rank])
  | prefilled serving =>
      apply smaller_enterLoop _ (hrank.trans_lt' (by simp [Stage.rank]))
      have hgenerated : serving.seq.markRunning.generatedTokens = serving.seq.generatedTokens := by
        rw [serving.seq.markRunning_eq]
      rw [hgenerated]
      exact htoGo

/-- The channel has room for every update when it can hold all tokens and the finish. -/
theorem tryReserveMany_of_live {serving : Serving α} {turns : ℕ} {row : LogitRow α}
    {tokens : List Token} {stepped : Sequence α} (hadmissible : req.Admissible)
    (hcalm : s.Calm) (hcapacity : req.maxNewTokens < s.client.capacity) (hitems : s.pc.items = [])
    (hdone : serving.seq.isDone = false) (hlive : serving.seq.Live (s.view req))
    (hturn : serving.AtTurn model req turns)
    (hadvance : serving.seq.advance row = some (tokens, stepped)) :
    s.client.tryReserveMany (updateItems tokens stepped.finishReason).length = true := by
  have hsent : s.client.sent.length = serving.seq.takenTokens.length := by
    have houtgoing := hlive.outgoing
    rw [flatMap_items_of_isOpen hlive.isOpen, hlive.taken] at houtgoing
    change s.client.sent ++ s.pc.items = _ at houtgoing
    rw [hitems, List.append_nil] at houtgoing
    rw [houtgoing, List.length_map]
  have htaken := Sequence.advance_takenTokens hadvance (hlive.emitted_le.trans serving.seq.safeEnd_le)
  obtain ⟨-, -, -, -, -, -, hgenerated⟩ := Sequence.advance_frame hadvance
  obtain ⟨hlength, hlt⟩ := PrivateState.generated_length hadmissible.maxNew_pos
    (hturn.after_not_done hdone)
  rw [← hturn.seq_eq] at hlength
  have hle : serving.seq.takenTokens.length + tokens.length ≤ turns + 1 := by
    calc serving.seq.takenTokens.length + tokens.length
        = stepped.takenTokens.length := by rw [htaken, List.length_append]
      _ ≤ stepped.generatedTokens.length := List.length_take_le' _ _
      _ = turns + 1 := by rw [hgenerated, List.length_append, hlength, List.length_singleton]
  have hcount : (updateItems tokens stepped.finishReason).length ≤ tokens.length + 1 := by
    unfold updateItems
    rw [List.length_append, List.length_map]
    cases stepped.finishReason <;> simp
  refine Client.tryReserveMany_length.mpr fun _ ↦ ⟨hcalm.receiverOpen, ?_⟩
  unfold Client.room
  omega

omit [Kernels α] in
/-- An item that is sent is one less to send, and the end of the turn is closer than its items. -/
theorem smaller_sendItems {serving : Serving α} {items : List StreamItem}
    (hpc : s.pc = .sendItems serving items) :
    Smaller ((sendItems serving items s).measure req) (s.measure req) := by
  cases items with
  | nil =>
      have hmeasure : Smaller ((endTurn serving s).measure req) (State.measure req { s with
          metrics := s.metrics.recordStep 1 (if serving.seq.isDone then 0 else 1) }) := by
        apply smaller_enterLoop
        · change _ ≤ s.pc.toGo req
          rw [hpc]
          exact Nat.le_refl _
        · change 12 < s.pc.rank
          rw [hpc]
          exact Nat.lt_succ_self 12
      exact hmeasure
  | cons item rest =>
      apply smaller_of_rank
      · rw [hpc]
        exact Nat.le_refl _
      · rw [hpc]
        exact Nat.lt_succ_self _

/-- One more token has been generated. -/
theorem smaller_sampleToken {serving : Serving α} {logits : List (LogitRow α)}
    (hadmissible : req.Admissible) (hcalm : s.Calm)
    (hcapacity : req.maxNewTokens < s.client.capacity) (hpc : s.pc = .sampleToken serving logits)
    (hstage : (Stage.passed serving logits).OnCourse model req (s.view req)) :
    Smaller ((sampleToken serving logits s).measure req) (s.measure req) := by
  have hitems : s.pc.items = [] := by rw [hpc]; rfl
  obtain ⟨hdone, hlive, turns, hturn, -, rfl, -⟩ := hstage
  obtain ⟨tokens, stepped, hadvance⟩ := hturn.serves.exists_advance
    (model.decodeRow (PrivateState.after model req serving.seq.kvHandle turns).store
      serving.seq.decodeInput).1
  have hroom := tryReserveMany_of_live hadmissible hcalm hcapacity hitems hdone hlive hturn hadvance
  obtain ⟨-, -, -, -, -, -, hgenerated⟩ := Sequence.advance_frame hadvance
  obtain ⟨hlength, hlt⟩ := PrivateState.generated_length hadmissible.maxNew_pos
    (hturn.after_not_done hdone)
  rw [← hturn.seq_eq] at hlength
  apply Prod.Lex.left
  rw [hpc]
  unfold sampleToken logitRow
  rw [List.getElem?_cons_zero]
  dsimp only
  rw [hadvance]
  dsimp only
  rw [hroom, if_pos rfl]
  change req.maxNewTokens - stepped.generatedTokens.length <
    req.maxNewTokens - serving.seq.generatedTokens.length
  rw [hgenerated, List.length_append, hlength, List.length_singleton]
  omega

/-- **Every step brings the task closer to its end.** -/
theorem smaller_task (hadmissible : req.Admissible) (hcalm : s.Calm)
    (hcapacity : req.maxNewTokens < s.client.capacity)
    (hcourse : s.pc.OnCourse model req (s.view req) s.history.ended)
    (hstep : TaskStep model req s s') : Smaller (s'.measure req) (s.measure req) := by
  have hmoved : ∀ {s' : State α} {pc pc' : Pc α}, s.pc = pc → s'.pc = pc' →
      pc'.toGo req ≤ pc.toGo req → pc'.rank < pc.rank →
        Smaller (s'.measure req) (s.measure req) := by
    rintro s' _ _ rfl rfl htoGo hrank
    exact smaller_of_rank htoGo hrank
  have habandon : ∀ (stage : Stage α) (s : State α), (abandon stage s).pc = .returned := by
    intro stage s
    cases stage <;> rfl
  cases hstep with
  | shutdown hpc _ => exact hmoved hpc rfl (Nat.zero_le _) (by simp [Pc.rank])
  | goesOn hpc _ => exact hmoved hpc rfl (Nat.le_refl _) (Nat.lt_succ_self _)
  | @responseDone stage hpc _ =>
      exact hmoved hpc (habandon stage s) (Nat.zero_le _) (Nat.zero_lt_succ _)
  | looksAtReceiver hpc _ _ => exact hmoved hpc rfl (Nat.le_refl _) (Nat.lt_succ_self _)
  | responseWanted hpc _ _ =>
      apply smaller_proceed
      · rw [hpc]
        exact Nat.le_refl _
      · rw [hpc]
        exact Nat.le_succ _
  | closed _ hclosed =>
      unfold Client.isClosed at hclosed
      rw [hcalm.receiverOpen] at hclosed
      cases hclosed
  | stillOpen hpc _ =>
      apply smaller_proceed
      · rw [hpc]
        exact Nat.le_refl _
      · rw [hpc]
        exact Nat.le_refl _
  | acquire hpc =>
      have hfree : s.owner = .nobody := hcalm.owner_of_outside (by rw [hpc]; trivial)
      unfold acquire
      rw [if_pos hfree]
      exact hmoved hpc rfl (Nat.le_refl _) (by simp [Pc.rank, Stage.rank])
  | create hpc =>
      unfold create
      split
      · exact hmoved hpc rfl (Nat.zero_le _) (by simp [Pc.rank])
      · exact hmoved hpc rfl (Nat.sub_le _ _) (by simp [Pc.rank, Stage.rank])
  | prefill hpc =>
      unfold prefill
      split
      · exact hmoved hpc rfl (Nat.zero_le _) (by simp [Pc.rank])
      · exact hmoved hpc rfl (Nat.le_refl _) (by simp [Pc.rank, Stage.rank])
  | forward hpc =>
      unfold forward
      split
      · exact hmoved hpc rfl (Nat.zero_le _) (by simp [Pc.rank])
      · exact hmoved hpc rfl (Nat.le_refl _) (by simp [Pc.rank, Stage.rank])
  | sendItems hpc => exact smaller_sendItems hpc
  | answer hpc => exact hmoved hpc rfl (Nat.le_refl _) Nat.zero_lt_one
  | sampleToken hpc =>
      rw [hpc] at hcourse
      exact smaller_sampleToken hadmissible hcalm hcapacity hpc hcourse

/-- The channel has had room for every update so far. -/
structure State.Roomy (capacity : ℕ) (s : State α) : Prop where
  capacity_eq : s.client.capacity = capacity
  delivered : ∀ update ∈ s.history.updates, update.delivered = true

theorem State.Roomy.onCourse {capacity : ℕ} (hroomy : s.Roomy capacity)
    (hcourse : s.OnCourse model req) : s.pc.OnCourse model req (s.view req) s.history.ended := by
  rcases hcourse with hcourse | ⟨update, hupdate, hrefused⟩
  · exact hcourse
  · rw [hroomy.delivered update hupdate] at hrefused
    cases hrefused

/-- No update of a sequence that goes on is refused. -/
theorem roomy_sampleToken (hadmissible : req.Admissible) {capacity : ℕ}
    (hcapacity : req.maxNewTokens < capacity) (hcalm : s.Calm) (hroomy : s.Roomy capacity)
    {serving : Serving α} {logits : List (LogitRow α)} (hpc : s.pc = .sampleToken serving logits)
    (hstage : (Stage.passed serving logits).OnCourse model req (s.view req)) :
    (sampleToken serving logits s).Roomy capacity := by
  obtain ⟨hdone, hlive, turns, hturn, -, rfl, -⟩ := hstage
  obtain ⟨tokens, stepped, hadvance⟩ := hturn.serves.exists_advance
    (model.decodeRow (PrivateState.after model req serving.seq.kvHandle turns).store
      serving.seq.decodeInput).1
  have hroom := tryReserveMany_of_live hadmissible hcalm (hroomy.capacity_eq ▸ hcapacity)
    (by rw [hpc]; rfl) hdone hlive hturn hadvance
  constructor
  · exact (framed_sampleToken hpc).capacity.trans hroomy.capacity_eq
  · intro update hupdate
    unfold sampleToken logitRow at hupdate
    rw [List.getElem?_cons_zero] at hupdate
    dsimp only at hupdate
    rw [hadvance] at hupdate
    dsimp only at hupdate
    rw [hroom, if_pos rfl] at hupdate
    rcases List.mem_append.mp hupdate with hold | hnew
    · exact hroomy.delivered update hold
    · rw [List.mem_singleton.mp hnew]

theorem roomy_step (hadmissible : req.Admissible) {capacity : ℕ}
    (hcapacity : req.maxNewTokens < capacity) {action : Action} (hallowed : Undisturbed s action)
    (hnext : step model req action s = some s') (hcalm : s.Calm) (hcourse : s.OnCourse model req)
    (hroomy : s.Roomy capacity) : s'.Roomy capacity := by
  rcases hallowed with rfl | rfl
  · have htask := taskStep_of_next hnext
    have hframed := framed_task htask
    rcases hframed.updates with hsame | ⟨serving, logits, hpc, -⟩
    · exact ⟨hframed.capacity.trans hroomy.capacity_eq, hsame ▸ hroomy.delivered⟩
    · have hstage := hroomy.onCourse hcourse
      rw [hpc] at hstage
      change next model req s = some s' at hnext
      unfold next at hnext
      rw [hpc] at hnext
      rw [← Option.some.inj hnext]
      exact roomy_sampleToken hadmissible hcapacity hcalm hroomy hpc hstage
  · obtain ⟨client, hact, rfl⟩ := Option.map_eq_some_iff.mp hnext
    obtain ⟨rfl, -⟩ := Client.act_recv hact
    exact ⟨hroomy.capacity_eq, hroomy.delivered⟩

/-- A channel that can hold all tokens and the finish is always large enough. -/
theorem roomy_reachable (hadmissible : req.Admissible) {capacity : ℕ}
    (hcapacity : req.maxNewTokens < capacity)
    (hreach : Reaches model req Undisturbed (init capacity) s) : s.Roomy capacity := by
  have hpreserved : Transition.PreservedFrom (step model req) Undisturbed (init capacity)
      (State.Roomy capacity) := by
    intro before after action hbefore hroomy hallowed hnext
    obtain ⟨hcalm, hcourse⟩ := undisturbed_reachable hadmissible hbefore
    exact roomy_step hadmissible hcapacity hallowed hnext hcalm hcourse hroomy
  have hstart : (init capacity : State α).Roomy capacity := ⟨rfl, fun _ hupdate ↦ nomatch hupdate⟩
  exact Transition.Reaches.invariant hpreserved hstart hreach

/-- **A task that is left alone returns.** -/
theorem exists_returned (model : SmallTransformer α) (hadmissible : req.Admissible) {capacity : ℕ}
    (hcapacity : req.maxNewTokens < capacity) :
    ∃ s, Reaches model req Undisturbed (init capacity) s ∧ s.pc = .returned := by
  have hwf : WellFounded Smaller := WellFounded.prod_lex wellFounded_lt wellFounded_lt
  apply Transition.exists_reaches_final hwf (State.measure req)
  intro s hreach hnotReturned
  obtain ⟨hcalm, hcourse⟩ := undisturbed_reachable hadmissible hreach
  have hroomy := roomy_reachable hadmissible hcapacity hreach
  have hcourse := hroomy.onCourse hcourse
  have hnotPanicked : s.pc ≠ .panicked := by
    intro hpc
    rw [hpc] at hcourse
    exact hcourse
  obtain ⟨s', hnext⟩ := next_isSome model req hnotReturned hnotPanicked
  refine ⟨.task, s', Or.inl rfl, hnext, ?_⟩
  exact smaller_task hadmissible hcalm (hroomy.capacity_eq ▸ hcapacity) hcourse
    (taskStep_of_next hnext)

/-- How an undisturbed task has ended. -/
theorem outcome_of_returned (hadmissible : req.Admissible) {capacity : ℕ}
    (hreach : Reaches model req Undisturbed (init capacity) s)
    (hdelivered : ∀ update ∈ s.history.updates, update.delivered = true)
    (hpc : s.pc = .returned) : Outcome model req (s.view req) s.history.ended := by
  obtain ⟨-, hcourse⟩ := undisturbed_reachable hadmissible hreach
  rcases hcourse with hcourse | ⟨update, hupdate, hrefused⟩
  · rwa [hpc] at hcourse
  · rw [hdelivered update hupdate] at hrefused
    cases hrefused

end Termination

end Naive

end HotBatch
