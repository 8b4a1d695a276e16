import HotBatch.Scheduler.Allowance
import HotBatch.Server.Cancellation

/-!
# The ledger of the naive task

What has gone out on the channel of the task, wherever it is and whatever the connection, the operator
and the other tasks have done to it. A task that has returned has put everything on its channel that
it should, unless the channel was too small, nobody read it any more, or `response_done` was set.
-/

namespace HotBatch

namespace Naive

variable {α : Type}

/-- What must have gone out where the task looks at the signals. -/
def Stage.Agrees (req : GenerationRequest α) (view : View) : Stage α → Prop
  | entry | waiting | locked => view = .blank
  | created serving | prefilled serving | looping serving | passed serving _ =>
      serving.seq.Going req view

/-- What must have gone out while the task is there. It never panics. -/
def Pc.Agrees (req : GenerationRequest α) (client : Client) (view : View) : Pc α → Prop
  | checkShutdown stage | checkDone stage | checkClosed stage => stage.Agrees req view
  | acquire | create => view = .blank
  | prefill serving | forward serving | sampleToken serving _ => serving.seq.Going req view
  | sendItems serving _ =>
      (serving.seq.isDone = false → serving.seq.Going req view) ∧
        (serving.seq.isDone = true → Ended req client view)
  | answer _ => Unanswered req view
  | returned => Ended req client view
  | panicked => False

def State.Agrees (req : GenerationRequest α) (s : State α) : Prop :=
  s.pc.Agrees req s.client (s.view req)

theorem Stage.Agrees.unanswered {req : GenerationRequest α} {view : View} {stage : Stage α}
    (hagrees : stage.Agrees req view) : Unanswered req view := by
  cases stage with
  | entry | waiting | locked =>
      obtain rfl : view = .blank := hagrees
      exact unanswered_blank req
  | created _ | prefilled _ | looping _ | passed _ _ => exact Sequence.Going.unanswered hagrees

/-- The task is on its way, or it is done with its channel. -/
theorem Pc.Agrees.stands {req : GenerationRequest α} {client : Client} {view : View} {pc : Pc α}
    (hagrees : pc.Agrees req client view) : Unanswered req view ∨ Ended req client view := by
  cases pc with
  | checkShutdown stage | checkDone stage | checkClosed stage =>
      exact Or.inl (Stage.Agrees.unanswered hagrees)
  | acquire | create =>
      obtain rfl : view = .blank := hagrees
      exact Or.inl (unanswered_blank req)
  | prefill _ | forward _ | sampleToken _ _ => exact Or.inl (Sequence.Going.unanswered hagrees)
  | sendItems serving _ =>
      cases hdone : serving.seq.isDone with
      | false => exact Or.inl (hagrees.1 hdone).unanswered
      | true => exact Or.inr (hagrees.2 hdone)
  | answer _ => exact Or.inl hagrees
  | returned => exact Or.inr hagrees
  | panicked => exact hagrees.elim

section Step

variable {req : GenerationRequest α} {s s' : State α}

/-- The function returns before it has answered. -/
theorem agrees_leave {serving : Option (Serving α)} {pc : Pc α} (hitems : s.pc.items = [])
    (hpc : pc.items = []) (hagrees : pc.Agrees req s.client (s.view req)) :
    (s.leave serving pc).Agrees req := by
  have hcancelled : (s.leave serving pc).metrics.cancelledSequences =
      s.metrics.cancelledSequences := by
    unfold State.leave
    dsimp only
    split <;> rfl
  have hview : State.view req (s.leave serving pc) = s.view req :=
    view_congr rfl (hpc.trans hitems.symm) rfl hcancelled
  unfold State.Agrees
  rw [hview]
  exact hagrees

theorem agrees_goto {pc : Pc α} (hitems : s.pc.items = []) (hpc : pc.items = [])
    (hagrees : pc.Agrees req s.client (s.view req)) : (s.goto pc).Agrees req := by
  have hview : State.view req (s.goto pc) = s.view req :=
    view_congr rfl (hpc.trans hitems.symm) rfl rfl
  unfold State.Agrees
  rw [hview]
  exact hagrees

theorem agrees_abandon {stage : Stage α} (hitems : s.pc.items = [])
    (hended : Ended req s.client (s.view req)) : (abandon stage s).Agrees req := by
  cases stage <;> exact agrees_leave hitems rfl hended

theorem agrees_enterLoop {serving : Serving α} (hitems : s.pc.items = [])
    (hgoing : serving.seq.isDone = false → serving.seq.Going req (s.view req))
    (hended : serving.seq.isDone = true → Ended req s.client (s.view req)) :
    (enterLoop serving s).Agrees req := by
  unfold enterLoop
  split
  · rename_i hdone
    exact agrees_leave hitems rfl (hended hdone)
  · rename_i hdone
    exact agrees_goto hitems rfl (hgoing (Bool.not_eq_true _ ▸ hdone))

theorem agrees_proceed {stage : Stage α} (hitems : s.pc.items = [])
    (hagrees : stage.Agrees req (s.view req)) : (proceed stage s).Agrees req := by
  cases stage with
  | entry | waiting | locked | created _ | looping _ | passed _ _ =>
      exact agrees_goto hitems rfl hagrees
  | prefilled serving =>
      have hgoing := Sequence.Going.markRunning hagrees
      refine agrees_enterLoop hitems (fun _ ↦ hgoing) fun hdone ↦ ?_
      rw [hgoing.notDone] at hdone
      cases hdone

theorem agrees_create (model : SmallTransformer α) (hpc : s.pc = .create)
    (hblank : s.view req = .blank) : (create model req s).Agrees req := by
  have hitems : s.pc.items = [] := by rw [hpc]; rfl
  unfold create
  split
  · apply agrees_leave hitems rfl
    rw [hblank]
    exact unanswered_blank req
  · rename_i seq kvCache hnew
    obtain ⟨handle, rfl⟩ := Sequence.exists_ofRequest_of_new hnew
    have hview : State.view req { s with
        metrics := s.metrics.setRunning 1
        pc := .checkShutdown (.created ⟨.ofRequest req handle, kvCache⟩) } = s.view req :=
      view_congr rfl hitems.symm rfl rfl
    unfold State.Agrees
    rw [hview, hblank]
    exact Sequence.going_ofRequest req handle

variable [Kernels α] {model : SmallTransformer α} {serving : Serving α}

theorem agrees_prefill (hitems : s.pc.items = [])
    (hgoing : serving.seq.Going req (s.view req)) : (prefill model serving s).Agrees req := by
  unfold prefill
  split
  · exact agrees_leave hitems rfl (hgoing.unanswered)
  · exact agrees_goto hitems rfl hgoing

theorem agrees_forward (hitems : s.pc.items = [])
    (hgoing : serving.seq.Going req (s.view req)) : (forward model serving s).Agrees req := by
  unfold forward
  split
  · exact agrees_leave hitems rfl (hgoing.unanswered)
  · exact agrees_goto hitems rfl hgoing

/-- An update that the channel takes. -/
theorem agrees_delivered {logits : List (LogitRow α)} {row : LogitRow α} {tokens : List Token}
    {stepped : Sequence α} (hpc : s.pc = .sampleToken serving logits)
    (hgoing : serving.seq.Going req (s.view req))
    (hadvance : serving.seq.advance row = some (tokens, stepped)) :
    State.Agrees req (State.goto
      (.sendItems { serving with seq := stepped } (updateItems tokens stepped.finishReason))
      { s with
        metrics := s.metrics.recordToken
        history := { s.history with updates := s.history.updates ++
          [⟨serving.seq.client, tokens, stepped.finishReason, true⟩] } }) := by
  have hitems : s.pc.items = [] := by rw [hpc]; rfl
  unfold State.Agrees
  rw [view_delivered hitems]
  constructor
  · exact hgoing.advance hadvance serving.seq.client
  · exact fun hdone ↦ hgoing.ended hadvance hdone s.client serving.seq.client

/-- One turn: the update goes out, or the channel could not take it. -/
theorem agrees_sampleToken {logits : List (LogitRow α)} (hpc : s.pc = .sampleToken serving logits)
    (hgoing : serving.seq.Going req (s.view req)) :
    (sampleToken serving logits s).Agrees req := by
  have hitems : s.pc.items = [] := by rw [hpc]; rfl
  unfold sampleToken
  split
  · exact agrees_leave hitems rfl (hgoing.unanswered)
  rename_i row _
  obtain ⟨tokens, stepped, hadvance⟩ := hgoing.exists_advance row
  rw [hadvance]
  dsimp only
  cases hdelivered : s.client.tryReserveMany (updateItems tokens stepped.finishReason).length with
  | true =>
      rw [if_pos rfl]
      exact agrees_delivered hpc hgoing hadvance
  | false =>
      rw [if_neg Bool.false_ne_true]
      have hnot : ¬ s.client.Ample req.maxNewTokens := by
        intro hample
        rw [hgoing.room hadvance (view_outgoing_of_idle hitems).symm hample] at hdelivered
        cases hdelivered
      apply agrees_enterLoop
      · exact hitems
      · intro hdone
        rw [Sequence.cancel_isDone] at hdone
        cases hdone
      · intro _
        exact (hgoing.unanswered).ended_of_not_ample rfl hnot

omit [Kernels α] in
/-- An answer goes out as a whole, or the channel could not take it. -/
theorem agrees_answer {message : String} (hpc : s.pc = .answer message)
    (hunanswered : Unanswered req (s.view req)) : (answer message s).Agrees req := by
  have hitems : s.pc.items = [] := by rw [hpc]; rfl
  have hview : State.view req (answer message s) =
      ⟨(s.client.trySendError message).sent, (s.view req).updates, (s.view req).cancelled⟩ := by
    change View.mk ((s.client.trySendError message).sent ++ []) _ _ = _
    rw [List.append_nil]
    rfl
  unfold State.Agrees
  rw [hview]
  exact hunanswered.trySendError (view_outgoing_of_idle hitems).symm message

/-- **Every step of the task keeps its ledger.** -/
theorem agrees_task (hagrees : s.Agrees req) (hstep : TaskStep model req s s') : s'.Agrees req := by
  have hitems : ∀ {pc : Pc α}, s.pc = pc → pc.items = [] → s.pc.items = [] := by
    rintro pc rfl hnone
    exact hnone
  have hat : ∀ {pc : Pc α}, s.pc = pc → pc.Agrees req s.client (s.view req) := by
    rintro pc rfl
    exact hagrees
  cases hstep with
  | @shutdown stage hpc _ =>
      have hstage : stage.Agrees req (s.view req) := hat hpc
      exact agrees_leave (hitems hpc rfl) rfl hstage.unanswered
  | @goesOn stage hpc _ =>
      have hstage : stage.Agrees req (s.view req) := hat hpc
      exact agrees_goto (hitems hpc rfl) rfl hstage
  | @responseDone stage hpc hdone =>
      have hstage : stage.Agrees req (s.view req) := hat hpc
      exact agrees_abandon (hitems hpc rfl) (hstage.unanswered.ended_of_done hdone)
  | @looksAtReceiver stage hpc _ _ =>
      have hstage : stage.Agrees req (s.view req) := hat hpc
      exact agrees_goto (hitems hpc rfl) rfl hstage
  | responseWanted hpc _ _ => exact agrees_proceed (hitems hpc rfl) (hat hpc)
  | @closed stage hpc hclosed =>
      have hstage : stage.Agrees req (s.view req) := hat hpc
      have hnot : ¬ s.client.Ample req.maxNewTokens := by
        intro hample
        rw [hample.isClosed] at hclosed
        cases hclosed
      refine agrees_abandon ?_ ?_
      · exact hitems hpc rfl
      · exact hstage.unanswered.ended_of_not_ample rfl hnot
  | stillOpen hpc _ => exact agrees_proceed (hitems hpc rfl) (hat hpc)
  | acquire hpc =>
      have hblank : s.view req = .blank := hat hpc
      unfold acquire
      split
      · have hview : State.view req { s with owner := .task, pc := .checkShutdown .locked } =
            s.view req := view_congr rfl (hitems hpc rfl).symm rfl rfl
        exact hview.trans hblank
      · exact agrees_goto (hitems hpc rfl) rfl hblank
  | create hpc => exact agrees_create model hpc (hat hpc)
  | prefill hpc => exact agrees_prefill (hitems hpc rfl) (hat hpc)
  | forward hpc => exact agrees_forward (hitems hpc rfl) (hat hpc)
  | sampleToken hpc => exact agrees_sampleToken hpc (hat hpc)
  | @sendItems serving items hpc =>
      obtain ⟨hgoing, hended⟩ := hat hpc
      cases items with
      | nil =>
          apply agrees_enterLoop
          · exact hitems hpc rfl
          · exact hgoing
          · exact hended
      | cons item rest =>
          unfold sendItems State.Agrees
          rw [view_send hpc]
          refine ⟨hgoing, fun hdone ↦ (hended hdone).congr ?_ id⟩
          exact fun hample ↦ ⟨hample.limit_pos, hample.limit_lt, hample.receiverOpen⟩
  | answer hpc => exact agrees_answer hpc (hat hpc)

omit [Kernels α] in
/-- What somebody else does changes what is owed at most. -/
theorem Pc.Agrees.congr {req : GenerationRequest α} {client client' : Client} {view : View}
    {pc : Pc α} (hagrees : pc.Agrees req client view)
    (hample : client'.Ample req.maxNewTokens → client.Ample req.maxNewTokens)
    (hdone : client.responseDone = true → client'.responseDone = true) :
    pc.Agrees req client' view := by
  cases pc with
  | returned => exact Ended.congr hagrees hample hdone
  | sendItems serving _ => exact ⟨hagrees.1, fun hover ↦ (hagrees.2 hover).congr hample hdone⟩
  | _ => exact hagrees

theorem agrees_step {action : Action} (hagrees : s.Agrees req)
    (hstep : step model req action s = some s') : s'.Agrees req := by
  cases action with
  | task => exact agrees_task hagrees (taskStep_of_next hstep)
  | client action =>
      obtain ⟨client, hact, rfl⟩ := Option.map_eq_some_iff.mp hstep
      have hview : State.view req { s with client := client } = s.view req :=
        view_congr (Client.act_sent hact) rfl rfl rfl
      obtain ⟨-, hdone⟩ := Client.act_signals hact
      unfold State.Agrees
      rw [hview]
      exact hagrees.congr (Client.Ample.of_act hact) hdone
  | shutdown =>
      obtain rfl := Option.some.inj hstep
      exact hagrees
  | lockModel =>
      simp only [step] at hstep
      split at hstep
      · obtain rfl := Option.some.inj hstep
        exact hagrees
      · cases hstep
  | unlockModel =>
      simp only [step] at hstep
      split at hstep
      · obtain rfl := Option.some.inj hstep
        exact hagrees
      · cases hstep

/-- **The ledger is kept in every run of the task.** -/
theorem agrees_reachable {capacity : ℕ}
    (hreach : Reaches model req Anything (init capacity) s) : s.Agrees req := by
  have hblank : (init capacity : State α).view req = .blank := rfl
  have hstart : (init capacity : State α).Agrees req := hblank
  exact hreach.invariant (fun _ _ _ _ hbefore _ hnext ↦ agrees_step hbefore hnext) hstart

/-- The channel of the task carries tokens and then at most one terminal item. -/
theorem wellFormed_reachable {capacity : ℕ}
    (hreach : Reaches model req Anything (init capacity) s) : WellFormed s.client.sent := by
  have hformed : WellFormed (s.view req).outgoing := by
    rcases (agrees_reachable hreach).stands with hunanswered | hended
    · exact hunanswered.wellFormed
    · exact hended.wellFormed
  exact hformed.of_append

/-- The size of the channel never changes. -/
theorem capacity_reachable {capacity : ℕ}
    (hreach : Reaches model req Anything (init capacity) s) : s.client.capacity = capacity := by
  induction hreach with
  | refl => rfl
  | @step _ _ action _ _ hnext ih =>
      refine Eq.trans ?_ ih
      cases action with
      | task => exact (framed_task (taskStep_of_next hnext)).capacity
      | client action =>
          obtain ⟨client, hact, rfl⟩ := Option.map_eq_some_iff.mp hnext
          exact Client.act_capacity hact
      | shutdown => exact Option.some.inj hnext ▸ rfl
      | lockModel | unlockModel =>
          simp only [step] at hnext
          split at hnext
          · exact Option.some.inj hnext ▸ rfl
          · cases hnext

end Step

end Naive

end HotBatch
