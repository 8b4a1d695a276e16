import HotBatch.Scheduler.Answers
import HotBatch.Server.Cancellation
import HotBatch.Server.Membership

/-!
# What the channel of a naive task carries

A naive task follows the private run of its request until something stops it: the operator, the
connection, a rejected row or a channel that is full. Wherever it is stopped, its channel has carried
the private answer as far as it got, possibly broken off by an error.
-/

namespace HotBatch

/-- Nothing but the first tokens of the answer has gone out. -/
def Pending (answer : List StreamItem) (view : View) : Prop :=
  ∃ tokens : List Token, view.outgoing = tokens.map .token ∧ tokens.map .token <+: answer

theorem pending_blank (answer : List StreamItem) : Pending answer .blank :=
  ⟨[], rfl, List.nil_prefix⟩

theorem Pending.begins {answer : List StreamItem} {view : View} (hpending : Pending answer view) :
    Begins answer view.outgoing := by
  obtain ⟨tokens, houtgoing, hprefix⟩ := hpending
  rw [houtgoing]
  exact Or.inl hprefix

/-- An error that goes out, or does not find room. -/
theorem Pending.trySendError {answer : List StreamItem} {view : View} (hpending : Pending answer view)
    {client : Client} (hsent : client.sent = view.outgoing) (message : String) :
    Begins answer (client.trySendError message).sent := by
  obtain ⟨tokens, houtgoing, hprefix⟩ := hpending
  rcases client.trySend_sent (.error message) with hsame | hmore
  · have hlost : (client.trySendError message).sent = tokens.map .token :=
      hsame.trans (hsent.trans houtgoing)
    rw [hlost]
    exact Or.inl hprefix
  · have hsend : (client.trySendError message).sent = client.sent ++ [.error message] := hmore
    rw [hsend, hsent, houtgoing]
    exact Or.inr ⟨tokens, message, hprefix, rfl⟩

theorem Pending.errorFree {answer : List StreamItem} {view : View} (hpending : Pending answer view)
    (message : String) : .error message ∉ view.outgoing := by
  obtain ⟨tokens, houtgoing, -⟩ := hpending
  rw [houtgoing]
  intro hmem
  obtain ⟨token, -, heq⟩ := List.mem_map.mp hmem
  cases heq

/-- The model processes the prompt and every row of the private run. -/
def Servable {α : Type} [Kernels α] (model : SmallTransformer α) (req : GenerationRequest α) : Prop :=
  PrivateState.Accepted model req ⟨0, 0, 0⟩ req.maxNewTokens

namespace Naive

variable {α : Type} [Kernels α] {model : SmallTransformer α} {req : GenerationRequest α}

/-- A task only gets stuck with a request that the model rejects. -/
theorem Stuck.not_servable (hnew : 0 < req.maxNewTokens) {seq : Sequence α}
    (hstuck : Stuck model req seq) : ¬ Servable model req := by
  intro hservable
  cases hstuck with
  | prompt _ hrejected => exact hrejected hservable.prompt
  | @row turns _ hseq hdone hrejected =>
      rw [hseq] at hdone hrejected
      have hle := hservable.turns_le hdone hrejected
      exact absurd (PrivateState.generated_length hnew hdone).2 (Nat.not_lt.mpr hle)

/-- What has gone out while the task is there; an error only if there is a fault. -/
def Pc.Tracks (model : SmallTransformer α) (req : GenerationRequest α) (fault : Prop) (view : View) :
    Pc α → Prop
  | checkShutdown stage | checkDone stage | checkClosed stage => stage.OnCourse model req view
  | acquire | create => view = .blank
  | prefill serving => (Stage.created serving).OnCourse model req view
  | forward serving => (Stage.looping serving).OnCourse model req view
  | sampleToken serving logits => (Stage.passed serving logits).OnCourse model req view
  | sendItems serving _ =>
      serving.seq.Account view ∧ (serving.seq.isDone = false → serving.seq.Live view) ∧ ∃ turns,
        serving.AtTurn model req turns ∧
        serving.store = (PrivateState.after model req serving.seq.kvHandle turns).store ∧
        ∀ message, .error message ∉ view.outgoing
  | answer _ => fault ∧ Pending (privateAnswer model req) view
  | returned =>
      Begins (privateAnswer model req) view.outgoing ∧
        ∀ message, .error message ∈ view.outgoing → fault
  | panicked => False

/-- The server is being shut down, or the model rejects the request. -/
def State.Fault (model : SmallTransformer α) (req : GenerationRequest α) (s : State α) : Prop :=
  s.shutdown = true ∨ ¬ Servable model req

def State.Tracks (model : SmallTransformer α) (req : GenerationRequest α) (s : State α) : Prop :=
  s.pc.Tracks model req (s.Fault model req) (s.view req)

/-- A sequence that goes on has released what its private run has. -/
theorem pending_of_live (hnew : 0 < req.maxNewTokens) {serving : Serving α} {turns : ℕ} {view : View}
    (hlive : serving.seq.Live view) (hturn : serving.AtTurn model req turns) :
    Pending (privateAnswer model req) view := by
  refine ⟨serving.seq.takenTokens, ?_, ?_⟩
  · rw [hlive.outgoing, flatMap_items_of_isOpen hlive.isOpen, hlive.taken]
  · apply taken_prefix_privateAnswer hnew serving.seq.kvHandle turns
    rw [← hturn.seq_eq]

/-- Wherever the task looks at the signals, only tokens have gone out. -/
theorem Stage.OnCourse.pending (hnew : 0 < req.maxNewTokens) {stage : Stage α} {view : View}
    (hcourse : stage.OnCourse model req view) : Pending (privateAnswer model req) view := by
  cases stage with
  | entry | waiting | locked =>
      obtain rfl : view = .blank := hcourse
      exact pending_blank _
  | created serving | prefilled serving =>
      obtain ⟨rfl, -⟩ := hcourse
      exact pending_blank _
  | looping serving =>
      obtain ⟨-, hlive, turns, hturn, -⟩ := hcourse
      exact pending_of_live hnew hlive hturn
  | passed serving logits =>
      obtain ⟨-, hlive, turns, hturn, -⟩ := hcourse
      exact pending_of_live hnew hlive hturn

/-- Whatever has gone out begins the private answer, and an error has its fault. -/
theorem Pc.Tracks.begins (hnew : 0 < req.maxNewTokens) {pc : Pc α} {fault : Prop} {view : View}
    (htracks : pc.Tracks model req fault view) : Begins (privateAnswer model req) view.outgoing ∧
      ∀ message, .error message ∈ view.outgoing → fault := by
  have hclean : Pending (privateAnswer model req) view →
      Begins (privateAnswer model req) view.outgoing ∧
        ∀ message, .error message ∈ view.outgoing → fault := fun hpending ↦
    ⟨hpending.begins, fun message hmem ↦ absurd hmem (hpending.errorFree message)⟩
  cases pc with
  | checkShutdown stage | checkDone stage | checkClosed stage =>
      exact hclean (Stage.OnCourse.pending hnew htracks)
  | acquire | create =>
      obtain rfl : view = .blank := htracks
      exact hclean (pending_blank _)
  | prefill serving =>
      have hcourse : (Stage.created serving).OnCourse model req view := htracks
      exact hclean (hcourse.pending hnew)
  | forward serving =>
      have hcourse : (Stage.looping serving).OnCourse model req view := htracks
      exact hclean (hcourse.pending hnew)
  | sampleToken serving logits =>
      have hcourse : (Stage.passed serving logits).OnCourse model req view := htracks
      exact hclean (hcourse.pending hnew)
  | sendItems serving _ =>
      obtain ⟨haccount, -, turns, hturn, -, herrors⟩ := htracks
      have hinterrupts : (PrivateState.after model req serving.seq.kvHandle
          turns).seq.Interrupts serving.seq := Or.inl hturn.seq_eq
      exact ⟨haccount.begins_of_turns hnew hinterrupts, fun message hmem ↦
        absurd hmem (herrors message)⟩
  | answer _ => exact hclean htracks.2
  | returned => exact htracks
  | panicked => exact htracks.elim

/-- A fault does not go away. -/
theorem Pc.Tracks.mono {pc : Pc α} {fault fault' : Prop} {view : View} (hfault : fault → fault')
    (htracks : pc.Tracks model req fault view) : pc.Tracks model req fault' view := by
  cases pc with
  | answer _ => exact ⟨hfault htracks.1, htracks.2⟩
  | returned => exact ⟨htracks.1, fun message hmem ↦ hfault (htracks.2 message hmem)⟩
  | _ => exact htracks

section Step

variable {s s' : State α}

theorem tracks_goto {pc : Pc α} (hitems : s.pc.items = []) (hpc : pc.items = [])
    (htracks : pc.Tracks model req (s.Fault model req) (s.view req)) :
    (s.goto pc).Tracks model req := by
  have hview : State.view req (s.goto pc) = s.view req :=
    view_congr rfl (hpc.trans hitems.symm) rfl rfl
  unfold State.Tracks
  rw [hview]
  exact htracks

/-- The function returns. -/
theorem tracks_leave {serving : Option (Serving α)} {pc : Pc α} (hitems : s.pc.items = [])
    (hpc : pc.items = []) (htracks : pc.Tracks model req (s.Fault model req) (s.view req)) :
    (s.leave serving pc).Tracks model req := by
  have hcancelled : (s.leave serving pc).metrics.cancelledSequences =
      s.metrics.cancelledSequences := by
    unfold State.leave
    dsimp only
    split <;> rfl
  have hview : State.view req (s.leave serving pc) = s.view req :=
    view_congr rfl (hpc.trans hitems.symm) rfl hcancelled
  unfold State.Tracks
  rw [hview]
  exact htracks

theorem tracks_abandon {stage : Stage α} (hitems : s.pc.items = [])
    (hpending : Pending (privateAnswer model req) (s.view req)) :
    (abandon stage s).Tracks model req := by
  have hreturned : (Pc.returned : Pc α).Tracks model req (s.Fault model req) (s.view req) :=
    ⟨hpending.begins, fun message hmem ↦ absurd hmem (hpending.errorFree message)⟩
  cases stage <;> exact tracks_leave hitems rfl hreturned

/-- The loop goes on, or the private run is over. -/
theorem tracks_enterLoop (hnew : 0 < req.maxNewTokens) {serving : Serving α} {turns : ℕ}
    (hitems : s.pc.items = []) (haccount : serving.seq.Account (s.view req))
    (hlive : serving.seq.isDone = false → serving.seq.Live (s.view req))
    (hturn : serving.AtTurn model req turns)
    (hstore : serving.store = (PrivateState.after model req serving.seq.kvHandle turns).store)
    (herrors : ∀ message, .error message ∉ (s.view req).outgoing) :
    (enterLoop serving s).Tracks model req := by
  unfold enterLoop
  cases hdone : serving.seq.isDone with
  | true =>
      have hinterrupts : (PrivateState.after model req serving.seq.kvHandle
          turns).seq.Interrupts serving.seq := Or.inl hturn.seq_eq
      exact tracks_leave hitems rfl ⟨haccount.begins_of_turns hnew hinterrupts,
        fun message hmem ↦ absurd hmem (herrors message)⟩
  | false => exact tracks_goto hitems rfl ⟨hdone, hlive hdone, turns, hturn, hstore⟩

omit [Kernels α] in
/-- Nothing has been refused where nothing has been sent. -/
theorem delivered_of_blank (hblank : s.view req = .blank) :
    ∀ update ∈ s.history.updates, update.delivered = true := by
  have hnone : s.history.updates = [] := congrArg View.updates hblank
  rw [hnone]
  exact fun _ hupdate ↦ absurd hupdate List.not_mem_nil

/-- A task whose updates have all been delivered is on its course. -/
theorem onCourse_of_delivered (hcourse : s.OnCourse model req)
    (hdelivered : ∀ update ∈ s.history.updates, update.delivered = true) :
    s.pc.OnCourse model req (s.view req) s.history.ended := by
  rcases hcourse with hcourse | ⟨update, hupdate, hrefused⟩
  · exact hcourse
  · rw [hdelivered update hupdate] at hrefused
    cases hrefused

theorem tracks_proceed {stage : Stage α} (hitems : s.pc.items = [])
    (hstage : stage.OnCourse model req (s.view req)) : (proceed stage s).Tracks model req := by
  have hcourse := onCourse_proceed hitems hstage
  cases stage with
  | entry | waiting | locked | created _ | looping _ | passed _ _ =>
      exact tracks_goto hitems rfl hstage
  | prefilled serving =>
      obtain ⟨hblank, -, hseq, -⟩ := hstage
      have hdone : serving.seq.markRunning.isDone = false := by
        rw [serving.seq.markRunning_isDone, hseq]
        rfl
      have hdelivered := delivered_of_blank hblank
      unfold proceed enterLoop at hcourse ⊢
      dsimp only at hcourse ⊢
      rw [hdone, if_neg Bool.false_ne_true] at hcourse ⊢
      exact onCourse_of_delivered hcourse hdelivered

theorem tracks_create (hadmissible : req.Admissible) (hpc : s.pc = .create)
    (hblank : s.view req = .blank) : (create model req s).Tracks model req := by
  have hcourse : (create model req s).OnCourse model req := onCourse_create hadmissible hpc hblank
  obtain ⟨handle, kvCache, hallocate⟩ := exists_allocate_newCache model hadmissible
  have hdelivered := delivered_of_blank hblank
  unfold create Sequence.new at hcourse ⊢
  rw [hallocate] at hcourse ⊢
  exact onCourse_of_delivered hcourse hdelivered

theorem tracks_prefill (hnew : 0 < req.maxNewTokens) {serving : Serving α}
    (hpc : s.pc = .prefill serving)
    (hstage : (Stage.created serving).OnCourse model req (s.view req)) :
    (prefill model serving s).Tracks model req := by
  have hitems : s.pc.items = [] := by rw [hpc]; rfl
  have hcourse := onCourse_prefill hpc hstage
  have hpending := hstage.pending hnew
  have hdelivered := delivered_of_blank hstage.1
  unfold prefill at hcourse ⊢
  split at hcourse
  · obtain ⟨_, -, hstuck⟩ := onCourse_of_delivered hcourse hdelivered
    exact tracks_leave hitems rfl ⟨Or.inr (hstuck.not_servable hnew), hpending⟩
  · exact onCourse_of_delivered hcourse hdelivered

theorem tracks_forward (hadmissible : req.Admissible) {serving : Serving α}
    (hpc : s.pc = .forward serving)
    (hstage : (Stage.looping serving).OnCourse model req (s.view req)) :
    (forward model serving s).Tracks model req := by
  have hnew := hadmissible.maxNew_pos
  have hitems : s.pc.items = [] := by rw [hpc]; rfl
  have hcourse := onCourse_forward hadmissible hpc hstage
  have hpending := hstage.pending hnew
  obtain ⟨-, hlive, -⟩ := hstage
  have hdelivered : ∀ update ∈ s.history.updates, update.delivered = true :=
    fun update hupdate ↦ (hlive.isOpen update hupdate).1
  unfold forward at hcourse ⊢
  split at hcourse
  · obtain ⟨_, -, hstuck⟩ := onCourse_of_delivered hcourse hdelivered
    exact tracks_leave hitems rfl ⟨Or.inr (hstuck.not_servable hnew), hpending⟩
  · exact onCourse_of_delivered hcourse hdelivered

/-- A turn: the update goes out, or it is refused and the task gives up. -/
theorem tracks_sampleToken (hnew : 0 < req.maxNewTokens) {serving : Serving α}
    {logits : List (LogitRow α)} (hpc : s.pc = .sampleToken serving logits)
    (hstage : (Stage.passed serving logits).OnCourse model req (s.view req)) :
    (sampleToken serving logits s).Tracks model req := by
  have hitems : s.pc.items = [] := by rw [hpc]; rfl
  have hcourse := onCourse_sampleToken hpc hstage
  have hpending := hstage.pending hnew
  obtain ⟨hdone, hlive, turns, hturn, haccepts, rfl, hstore⟩ := hstage
  obtain ⟨tokens, stepped, hadvance⟩ := hturn.serves.exists_advance
    (model.decodeRow (PrivateState.after model req serving.seq.kvHandle turns).store
      serving.seq.decodeInput).1
  unfold sampleToken logitRow at hcourse ⊢
  rw [List.getElem?_cons_zero] at hcourse ⊢
  dsimp only at hcourse ⊢
  rw [hadvance] at hcourse ⊢
  dsimp only at hcourse ⊢
  cases hdelivered : s.client.tryReserveMany (updateItems tokens stepped.finishReason).length with
  | true =>
      rw [hdelivered, if_pos rfl] at hcourse
      rw [if_pos rfl]
      obtain ⟨haccount, hlive', turns', hturn', hstore'⟩ := onCourse_of_delivered hcourse (by
        intro update hupdate
        rcases List.mem_append.mp hupdate with hold | hlast
        · exact (hlive.isOpen update hold).1
        · rw [List.mem_singleton.mp hlast])
      refine ⟨haccount, hlive', turns', hturn', hstore', fun message hmem ↦ ?_⟩
      rw [view_delivered hitems] at hmem
      rcases List.mem_append.mp hmem with hold | hnewItem
      · exact hpending.errorFree message hold
      · exact error_notMem_updateItems _ _ message hnewItem
  | false =>
      rw [if_neg Bool.false_ne_true]
      unfold endTurn enterLoop
      rw [if_pos (stepped.cancel_isDone)]
      have houtgoing : s.client.sent ++ s.pc.items = (s.view req).outgoing := rfl
      refine tracks_leave ?_ rfl ⟨?_, fun message hmem ↦ ?_⟩
      · exact hitems
      · exact houtgoing ▸ hpending.begins
      · exact absurd hmem (hpending.errorFree message)

theorem tracks_sendItems (hnew : 0 < req.maxNewTokens) {serving : Serving α}
    {items : List StreamItem} (hpc : s.pc = .sendItems serving items)
    (htracks : (Pc.sendItems serving items).Tracks model req (s.Fault model req) (s.view req)) :
    (sendItems serving items s).Tracks model req := by
  obtain ⟨haccount, hlive, turns, hturn, hstore, herrors⟩ := htracks
  cases items with
  | nil =>
      have hitems : s.pc.items = [] := by rw [hpc]; rfl
      have hview : State.view req { s with
          metrics := s.metrics.recordStep 1 (if serving.seq.isDone then 0 else 1) } = s.view req :=
        view_congr rfl rfl rfl rfl
      refine tracks_enterLoop hnew hitems ?_ ?_ hturn hstore ?_
      · exact hview.symm ▸ haccount
      · exact fun hdone ↦ hview.symm ▸ hlive hdone
      · exact hview.symm ▸ herrors
  | cons item rest =>
      have hview : State.view req { s with
          client := s.client.send item
          pc := .sendItems serving rest } = s.view req := view_send hpc
      exact ⟨hview.symm ▸ haccount, fun hdone ↦ hview.symm ▸ hlive hdone, turns, hturn, hstore,
        hview.symm ▸ herrors⟩

/-- **Every step of the task keeps to the private answer.** -/
theorem tracks_task (hadmissible : req.Admissible) (htracks : s.Tracks model req)
    (hstep : TaskStep model req s s') : s'.Tracks model req := by
  have hnew := hadmissible.maxNew_pos
  have hitems : ∀ {pc : Pc α}, s.pc = pc → pc.items = [] → s.pc.items = [] := by
    rintro pc rfl hnone
    exact hnone
  have hat : ∀ {pc : Pc α}, s.pc = pc → pc.Tracks model req (s.Fault model req) (s.view req) := by
    rintro pc rfl
    exact htracks
  cases hstep with
  | @shutdown stage hpc hshutdown =>
      have hstage : stage.OnCourse model req (s.view req) := hat hpc
      exact tracks_leave (hitems hpc rfl) rfl ⟨Or.inl hshutdown, hstage.pending hnew⟩
  | @goesOn stage hpc _ =>
      have hstage : stage.OnCourse model req (s.view req) := hat hpc
      exact tracks_goto (hitems hpc rfl) rfl hstage
  | @responseDone stage hpc _ =>
      have hstage : stage.OnCourse model req (s.view req) := hat hpc
      exact tracks_abandon (hitems hpc rfl) (hstage.pending hnew)
  | @looksAtReceiver stage hpc _ _ =>
      have hstage : stage.OnCourse model req (s.view req) := hat hpc
      exact tracks_goto (hitems hpc rfl) rfl hstage
  | responseWanted hpc _ _ => exact tracks_proceed (hitems hpc rfl) (hat hpc)
  | @closed stage hpc _ =>
      have hstage : stage.OnCourse model req (s.view req) := hat hpc
      obtain ⟨tokens, houtgoing, hprefix⟩ := hstage.pending hnew
      refine tracks_abandon ?_ ⟨tokens, houtgoing, hprefix⟩
      exact hitems hpc rfl
  | stillOpen hpc _ => exact tracks_proceed (hitems hpc rfl) (hat hpc)
  | acquire hpc =>
      have hblank : s.view req = .blank := hat hpc
      unfold acquire
      split
      · have hview : State.view req { s with owner := .task, pc := .checkShutdown .locked } =
            s.view req := view_congr rfl (hitems hpc rfl).symm rfl rfl
        exact hview.trans hblank
      · exact tracks_goto (hitems hpc rfl) rfl hblank
  | create hpc => exact tracks_create hadmissible hpc (hat hpc)
  | prefill hpc => exact tracks_prefill hnew hpc (hat hpc)
  | forward hpc => exact tracks_forward hadmissible hpc (hat hpc)
  | sampleToken hpc => exact tracks_sampleToken hnew hpc (hat hpc)
  | sendItems hpc => exact tracks_sendItems hnew hpc (hat hpc)
  | @answer message hpc =>
      obtain ⟨hfault, hpending⟩ : s.Fault model req ∧
          Pending (privateAnswer model req) (s.view req) := hat hpc
      refine ⟨?_, fun _ _ ↦ hfault⟩
      change Begins _ ((s.client.trySendError message).sent ++ [])
      rw [List.append_nil]
      exact hpending.trySendError (view_outgoing_of_idle (hitems hpc rfl)).symm message

theorem tracks_step (hadmissible : req.Admissible) {action : Action}
    (htracks : s.Tracks model req) (hstep : step model req action s = some s') :
    s'.Tracks model req := by
  cases action with
  | task => exact tracks_task hadmissible htracks (taskStep_of_next hstep)
  | client action =>
      obtain ⟨client, hact, rfl⟩ := Option.map_eq_some_iff.mp hstep
      have hview : State.view req { s with client := client } = s.view req :=
        view_congr (Client.act_sent hact) rfl rfl rfl
      unfold State.Tracks
      rw [hview]
      exact htracks
  | shutdown =>
      obtain rfl := Option.some.inj hstep
      exact htracks.mono fun _ ↦ Or.inl rfl
  | lockModel | unlockModel =>
      simp only [step] at hstep
      split at hstep
      · obtain rfl := Option.some.inj hstep
        exact htracks
      · cases hstep

theorem tracks_reachable (hadmissible : req.Admissible) {capacity : ℕ}
    (hreach : Reaches model req Anything (init capacity) s) : s.Tracks model req := by
  have hblank : (init capacity : State α).view req = .blank := rfl
  have hstart : (init capacity : State α).Tracks model req := hblank
  exact hreach.invariant (fun _ _ _ _ hbefore _ hnext ↦ tracks_step hadmissible hbefore hnext) hstart

/-- **The channel of a task carries the private answer as far as it goes**, whatever is done to
it, and an error only for a fault. -/
theorem begins_reachable (hadmissible : req.Admissible) {capacity : ℕ}
    (hreach : Reaches model req Anything (init capacity) s) :
    Begins (privateAnswer model req) s.client.sent ∧
      ∀ message, .error message ∈ s.client.sent → s.Fault model req := by
  obtain ⟨hbegins, hfault⟩ := Pc.Tracks.begins hadmissible.maxNew_pos
    (tracks_reachable hadmissible hreach)
  exact ⟨hbegins.of_append, fun message hmem ↦ hfault message (List.mem_append_left _ hmem)⟩

end Step

end Naive

end HotBatch
