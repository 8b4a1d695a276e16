import HotBatch.Scheduler.Disconnects
import HotBatch.Server.NaiveRun

/-!
# Matched stops and the count of disconnects

The naive task reads the two signals in the same order as the scheduler, and the same connections
escape its count. Without the condition on the interleaving a matched stop can be counted.
-/

namespace HotBatch

namespace Naive

variable {α : Type} [Kernels α] {model : SmallTransformer α} {req : GenerationRequest α}
  {s s' : State α}

/-- The update that the task is about to hand over. -/
def State.due (s : State α) : List StreamItem :=
  match s.pc with
  | .sampleToken serving logits => serving.seq.due logits 0
  | _ => []

def Pc.isReading : Pc α → Bool
  | checkClosed _ => true
  | _ => false

/-- `response_done` has been read, and the receiver is about to be read. -/
def State.BetweenReads (s : State α) : Prop := s.pc.isReading = true ∨ s.due ≠ []

instance (s : State α) : Decidable s.BetweenReads := inferInstanceAs (Decidable (_ ∨ _))

/-- The connection acts in order; the other tasks and the operator do what they like. -/
def StopsInOrder (s : State α) : Action → Prop
  | .client action => s.client.InOrder action
  | .task | .shutdown | .lockModel | .unlockModel => True

/-- The receiver does not go between two reads, and updates find room. -/
def Unraced (s : State α) : Action → Prop
  | .client .dropReceiver => ¬ s.BetweenReads
  | .task => s.due.length ≤ s.client.room
  | .client _ | .shutdown | .lockModel | .unlockModel => True

instance (s : State α) (action : Action) : Decidable (StopsInOrder s action) :=
  match action with
  | .client _ => inferInstanceAs (Decidable (Client.InOrder _ _))
  | .task | .shutdown | .lockModel | .unlockModel => isTrue trivial

instance (s : State α) (action : Action) : Decidable (Unraced s action) :=
  match action with
  | .client .dropReceiver => inferInstanceAs (Decidable (¬ _))
  | .task => inferInstanceAs (Decidable (_ ≤ _))
  | .client .recv | .client .cancelDone | .shutdown | .lockModel | .unlockModel => isTrue trivial

/-- Nothing is about to be read. -/
def Pc.IsElsewhere : Pc α → Prop
  | checkClosed _ | sampleToken _ _ => False
  | _ => True

theorem not_betweenReads (hpc : s.pc.IsElsewhere) : ¬ s.BetweenReads := by
  intro hbetween
  unfold State.BetweenReads Pc.isReading State.due at hbetween
  cases hsame : s.pc with
  | checkClosed _ | sampleToken _ _ =>
      rw [hsame] at hpc
      exact hpc
  | _ => simp [hsame] at hbetween

/-- The task has counted nothing, and its receiver is not dropped between two reads. -/
structure Uncounted (s : State α) : Prop where
  cancelled : s.metrics.cancelledSequences = []
  done_of_closed : s.client.receiverOpen = false → s.client.responseDone = true
  open_of_betweenReads : s.BetweenReads → s.client.receiverOpen = true

namespace Uncounted

theorem framed (huncounted : Uncounted s) (hframed : Framed s s')
    (hcancelled : s'.metrics.cancelledSequences = s.metrics.cancelledSequences)
    (hbetween : s'.BetweenReads → s.client.receiverOpen = true) : Uncounted s' where
  cancelled := hcancelled.trans huncounted.cancelled
  done_of_closed := by
    rw [hframed.receiverOpen, hframed.responseDone]
    exact huncounted.done_of_closed
  open_of_betweenReads := by
    rw [hframed.receiverOpen]
    exact hbetween

/-- The task has gone on to where it reads nothing. -/
theorem elsewhere (huncounted : Uncounted s) (hframed : Framed s s')
    (hcancelled : s'.metrics.cancelledSequences = s.metrics.cancelledSequences)
    (hpc : s'.pc.IsElsewhere) : Uncounted s' :=
  huncounted.framed hframed hcancelled fun hbetween ↦ absurd hbetween (not_betweenReads hpc)

/-- When `response_done` is not set, the receiver is open. -/
theorem open_of_not_done (huncounted : Uncounted s) (hdone : s.client.responseDone = false) :
    s.client.receiverOpen = true := by
  by_contra hclosed
  rw [huncounted.done_of_closed (Bool.not_eq_true _ ▸ hclosed)] at hdone
  cases hdone

/-- Going on is safe while the receiver is open. -/
theorem proceed (huncounted : Uncounted s) (hopen : s.client.receiverOpen = true) {stage : Stage α}
    (hframed : Framed s (proceed stage s)) : Uncounted (proceed stage s) := by
  refine huncounted.framed hframed ?_ fun _ ↦ hopen
  cases stage with
  | prefilled serving =>
      unfold Naive.proceed enterLoop
      dsimp only
      split <;> rfl
  | entry | waiting | locked | created _ | looping _ | passed _ _ => rfl

end Uncounted

omit [Kernels α] in
theorem cancelled_abandon (stage : Stage α) (s : State α) :
    (abandon stage s).metrics.cancelledSequences = s.metrics.cancelledSequences ∧
      (abandon stage s).pc = .returned := by
  cases stage <;> exact ⟨rfl, rfl⟩

omit [Kernels α] in
theorem cancelled_endTurn (serving : Serving α) (s : State α) :
    (endTurn serving s).metrics.cancelledSequences = s.metrics.cancelledSequences := by
  unfold endTurn enterLoop
  split <;> rfl

omit [Kernels α] in
theorem isElsewhere_endTurn (serving : Serving α) (s : State α) :
    (endTurn serving s).pc.IsElsewhere := by
  unfold endTurn enterLoop
  split <;> trivial

theorem uncounted_sampleToken {serving : Serving α} {logits : List (LogitRow α)}
    (hpc : s.pc = .sampleToken serving logits) (huncounted : Uncounted s)
    (hroom : s.due.length ≤ s.client.room) : Uncounted (sampleToken serving logits s) := by
  have hframed := framed_sampleToken hpc
  have hdue : s.due = serving.seq.due logits 0 := by
    unfold State.due
    rw [hpc]
  unfold Sequence.due at hdue
  unfold sampleToken at hframed ⊢
  cases hrow : logitRow logits 0 with
  | error err =>
      rw [hrow] at hframed
      exact huncounted.elsewhere hframed rfl trivial
  | ok row =>
      rw [hrow] at hdue hframed
      dsimp only at hdue hframed ⊢
      cases hadvance : serving.seq.advance row with
      | none =>
          rw [hadvance] at hframed
          exact huncounted.elsewhere hframed rfl trivial
      | some result =>
          obtain ⟨tokens, stepped⟩ := result
          rw [hadvance] at hdue hframed
          dsimp only at hdue hframed ⊢
          have hdelivered : s.client.tryReserveMany
              (updateItems tokens stepped.finishReason).length = true := by
            rw [← hdue]
            refine Client.tryReserveMany_length.mpr fun hsome ↦ ⟨?_, hroom⟩
            exact huncounted.open_of_betweenReads (Or.inr hsome)
          rw [hdelivered, if_pos rfl] at hframed ⊢
          exact huncounted.elsewhere hframed rfl trivial

/-- **A step of the task does not count an orderly connection whose updates find room.** -/
theorem uncounted_task (huncounted : Uncounted s) (hroom : s.due.length ≤ s.client.room)
    (hstep : TaskStep model req s s') : Uncounted s' := by
  have hframed := framed_task hstep
  cases hstep with
  | shutdown _ _ =>
      refine huncounted.elsewhere hframed ?_ trivial
      unfold State.leave
      dsimp only
      split <;> rfl
  | goesOn _ _ => exact huncounted.elsewhere hframed rfl trivial
  | @responseDone stage _ _ =>
      obtain ⟨hcancelled, hpc⟩ := cancelled_abandon stage s
      exact huncounted.elsewhere hframed hcancelled (hpc ▸ trivial)
  | looksAtReceiver _ hdone _ =>
      exact huncounted.framed hframed rfl fun _ ↦ huncounted.open_of_not_done hdone
  | responseWanted _ hdone _ => exact huncounted.proceed (huncounted.open_of_not_done hdone) hframed
  | @closed stage hpc hclosed =>
      unfold Client.isClosed at hclosed
      rw [huncounted.open_of_betweenReads (Or.inl (by rw [hpc]; rfl))] at hclosed
      cases hclosed
  | @stillOpen stage hpc _ =>
      exact huncounted.proceed (huncounted.open_of_betweenReads (Or.inl (by rw [hpc]; rfl))) hframed
  | acquire _ =>
      unfold acquire at hframed ⊢
      split
      · rename_i hfree
        rw [if_pos hfree] at hframed
        exact huncounted.elsewhere hframed rfl trivial
      · rename_i hheld
        rw [if_neg hheld] at hframed
        exact huncounted.elsewhere hframed rfl trivial
  | create _ =>
      refine huncounted.elsewhere hframed ?_ ?_
      · unfold create
        split <;> rfl
      · unfold create
        split <;> trivial
  | prefill _ =>
      refine huncounted.elsewhere hframed ?_ ?_
      · unfold prefill
        split <;> rfl
      · unfold prefill
        split <;> trivial
  | forward _ =>
      refine huncounted.elsewhere hframed ?_ ?_
      · unfold forward
        split <;> rfl
      · unfold forward
        split <;> trivial
  | sampleToken hpc => exact uncounted_sampleToken hpc huncounted hroom
  | @sendItems serving items _ =>
      cases items with
      | nil =>
          exact huncounted.elsewhere hframed (cancelled_endTurn serving s)
            (isElsewhere_endTurn serving s)
      | cons item rest => exact huncounted.elsewhere hframed rfl trivial
  | answer _ => exact huncounted.elsewhere hframed rfl trivial

theorem uncounted_step {action : Action} (huncounted : Uncounted s)
    (hinOrder : StopsInOrder s action) (hunraced : Unraced s action)
    (hstep : step model req action s = some s') : Uncounted s' := by
  have hkeeps : ∀ {after : State α}, after.client = s.client → after.metrics = s.metrics →
      after.pc = s.pc → Uncounted after := by
    intro after hclient hmetrics hpc
    constructor
    · rw [hmetrics]
      exact huncounted.cancelled
    · rw [hclient]
      exact huncounted.done_of_closed
    · unfold State.BetweenReads State.due
      rw [hclient, hpc]
      exact huncounted.open_of_betweenReads
  cases action with
  | task => exact uncounted_task huncounted hunraced (taskStep_of_next hstep)
  | shutdown => exact Option.some.inj hstep ▸ hkeeps rfl rfl rfl
  | lockModel =>
      change (if _ then _ else _) = _ at hstep
      split at hstep
      · exact Option.some.inj hstep ▸ hkeeps rfl rfl rfl
      · cases hstep
  | unlockModel =>
      change (if _ then _ else _) = _ at hstep
      split at hstep
      · exact Option.some.inj hstep ▸ hkeeps rfl rfl rfl
      · cases hstep
  | client action =>
      obtain ⟨client, hact, rfl⟩ := Option.map_eq_some_iff.mp hstep
      constructor
      case cancelled => exact huncounted.cancelled
      case done_of_closed =>
        cases action with
        | recv =>
            obtain ⟨rfl, -⟩ := Client.act_recv hact
            exact huncounted.done_of_closed
        | cancelDone => exact Option.some.inj hact ▸ fun _ ↦ rfl
        | dropReceiver => exact Option.some.inj hact ▸ fun _ ↦ hinOrder
      case open_of_betweenReads =>
        cases action with
        | recv =>
            obtain ⟨rfl, -⟩ := Client.act_recv hact
            exact huncounted.open_of_betweenReads
        | cancelDone => exact Option.some.inj hact ▸ huncounted.open_of_betweenReads
        | dropReceiver => exact fun hbetween ↦ absurd hbetween hunraced

theorem uncounted_reachable {room : ℕ}
    (hreach : Reaches model req (fun s action ↦ StopsInOrder s action ∧ Unraced s action)
      (init room) s) : Uncounted s := by
  refine hreach.invariant ?_ ?_
  · rintro before after action - huncounted ⟨hinOrder, hunraced⟩ hnext
    exact uncounted_step huncounted hinOrder hunraced hnext
  · refine ⟨rfl, fun hclosed ↦ (nomatch hclosed), ?_⟩
    exact fun hbetween ↦ absurd hbetween (not_betweenReads trivial)

/-- A receiver that is gone between two reads and an update that finds no room are counted by the next
step of the task. -/
theorem counted_of_raced
    (hraced : s.BetweenReads ∧ s.client.receiverOpen = false ∨ s.client.room < s.due.length)
    (hnext : next model req s = some s') : s'.metrics.cancelledSequences ≠ [] := by
  have hrefused : s.due ≠ [] → (s.client.receiverOpen = true → ¬ s.due.length ≤ s.client.room) →
      s'.metrics.cancelledSequences ≠ [] := by
    intro hdue hlost
    have hrefused : ¬ s.client.tryReserveMany s.due.length = true := by
      intro hreserved
      obtain ⟨hopen, hroom⟩ := Client.tryReserveMany_length.mp hreserved hdue
      exact hlost hopen hroom
    cases hpc : s.pc with
    | sampleToken serving logits =>
        unfold State.due Sequence.due at hdue hrefused
        unfold next at hnext
        rw [hpc] at hdue hrefused hnext
        obtain rfl := Option.some.inj hnext
        unfold sampleToken
        cases hrow : logitRow logits 0 with
        | error err => simp [hrow] at hdue
        | ok row =>
            cases hadvance : serving.seq.advance row with
            | none => simp [hrow, hadvance] at hdue
            | some result =>
                obtain ⟨tokens, stepped⟩ := result
                simp only [hrow, hadvance] at hrefused
                dsimp only
                rw [hadvance]
                dsimp only
                rw [if_neg hrefused, cancelled_endTurn]
                exact List.append_ne_nil_of_right_ne_nil _ (List.cons_ne_nil _ _)
    | _ =>
        unfold State.due at hdue
        simp [hpc] at hdue
  rcases hraced with ⟨hreading | hdue, hclosed⟩ | hfull
  · cases hpc : s.pc with
    | checkClosed stage =>
        unfold next Client.isClosed at hnext
        rw [hpc] at hnext
        dsimp only at hnext
        rw [hclosed] at hnext
        obtain rfl := Option.some.inj hnext
        rw [Bool.not_false, if_pos rfl, (cancelled_abandon _ _).1]
        exact List.append_ne_nil_of_right_ne_nil _ (List.cons_ne_nil _ _)
    | _ =>
        rw [hpc] at hreading
        cases hreading
  · exact hrefused hdue fun hopen ↦ absurd (hclosed.symm.trans hopen) Bool.false_ne_true
  · have hdue : s.due ≠ [] := by
      intro hnone
      rw [hnone] at hfull
      exact Nat.not_lt_zero _ hfull
    exact hrefused hdue fun _ ↦ Nat.not_le.mpr hfull

end Naive

variable {α : Type} [Kernels α]

/-- **A matched stop that is not raced is not counted as a disconnect**, by either engine: in every
run in which the connection cancels `response_done` after it has got a token and drops the receiver
after that, in which the receiver does not go between the two reads of the engine, and in which
updates find room. Where the receiver does go there, or an update finds no room, the next step of the
engine counts it. -/
theorem matched_stop_uncounted (scheduler : Scheduler α)
    (maxSeqs maxSeqLen numLayers nHeads headDim maxDepth : ℕ) (capacity : ClientId → ℕ)
    (client : ClientId) (model : SmallTransformer α) (req : GenerationRequest α) (room : ℕ) :
    ((∀ s, Scheduler.Reaches scheduler
          (fun s action ↦ Scheduler.StopsInOrder client s action ∧ Scheduler.Unraced client s action)
          (Scheduler.init (.new maxSeqs maxSeqLen numLayers nHeads headDim) maxDepth capacity) s →
        s.metrics.cancelledSequences.count client = 0) ∧
      ∀ s late s', (s.BetweenReads client ∧ (s.clients client).receiverOpen = false ∨
          (s.clients client).room < (s.due client).length) →
        Scheduler.next scheduler late s = some s' →
        s'.metrics.cancelledSequences.count client =
          s.metrics.cancelledSequences.count client + 1) ∧
    (∀ s, Naive.Reaches model req
          (fun s action ↦ Naive.StopsInOrder s action ∧ Naive.Unraced s action) (Naive.init room) s →
        s.metrics.cancelledSequences = []) ∧
      ∀ s s' : Naive.State α,
        (s.BetweenReads ∧ s.client.receiverOpen = false ∨ s.client.room < s.due.length) →
        Naive.next model req s = some s' → s'.metrics.cancelledSequences ≠ [] := by
  refine ⟨⟨?_, ?_⟩, ?_, ?_⟩
  · exact fun s hreach ↦ (Scheduler.uncounted_reachable hreach).cancelled
  · exact fun s late s' hraced hnext ↦ Scheduler.counted_of_raced hraced hnext
  · exact fun s hreach ↦ (Naive.uncounted_reachable hreach).cancelled
  · exact fun s s' hraced hnext ↦ Naive.counted_of_raced hraced hnext

namespace Scheduler

/-- The connection takes the first token, finds a stop in it, and leaves. -/
def stopActions : List (Action ℚ) :=
  [.client 0 .recv, .client 0 .cancelDone, .client 0 .dropReceiver]

/-- The connection leaves while the scheduler is at the head of its loop. -/
def tinyStopped : State ℚ :=
  (Transition.run (step tinyScheduler)
    (fun s action ↦ StopsInOrder 0 s action ∧ Unraced 0 s action)
    (tinyActions ++ List.replicate 7 (.sched []) ++ stopActions ++ List.replicate 6 (.sched []))
    tinyStart).getD tinyStart

/-- The connection has left between the two reads of the next iteration. -/
def tinyRaced : State ℚ :=
  (Transition.run (step tinyScheduler) (StopsInOrder 0)
    (tinyActions ++ List.replicate 9 (.sched []) ++ stopActions) tinyStart).getD tinyStart

/-- A matched stop can be counted as a disconnect. -/
theorem matched_stop_counted :
    Reaches tinyScheduler (StopsInOrder 0) tinyStart tinyRaced ∧
      (tinyRaced.clients 0).responseDone = true ∧
      (step tinyScheduler (.sched []) tinyRaced).map
        (fun s ↦ s.metrics.cancelledSequences.count 0) = some 1 :=
  ⟨Transition.reaches_getD_run (by decide +kernel) tinyStart, by decide +kernel, by decide +kernel⟩

end Scheduler

namespace Naive

def tinyReq : GenerationRequest ℚ := ⟨"a", [1], tinyConfig, 0, 0, 0⟩

def stopActions : List Action := [.client .recv, .client .cancelDone, .client .dropReceiver]

/-- The connection leaves before the second pass, after which both signals are read again. -/
def tinyStopped : State ℚ :=
  (Transition.run (step (.scripted tinyScripted) tinyReq)
    (fun s action ↦ StopsInOrder s action ∧ Unraced s action)
    (List.replicate 28 .task ++ stopActions ++ List.replicate 3 .task) (init 5)).getD (init 5)

/-- The connection has left between the two reads in front of the second pass. -/
def tinyRaced : State ℚ :=
  (Transition.run (step (.scripted tinyScripted) tinyReq) StopsInOrder
    (List.replicate 27 .task ++ stopActions) (init 5)).getD (init 5)

end Naive

theorem matched_stop_uncounted_tinyStopped :
    (Scheduler.tinyStopped.clients 0).receiverOpen = false ∧
      Scheduler.tinyStopped.metrics.cancelledSequences.count 0 = 0 ∧
      Naive.tinyStopped.client.receiverOpen = false ∧
      Naive.tinyStopped.metrics.cancelledSequences = [] ∧
      (∃ s, Scheduler.next Scheduler.tinyScheduler [] Scheduler.tinyRaced = some s ∧
        s.metrics.cancelledSequences.count 0 = 1) ∧
      ∃ s, Naive.next (.scripted tinyScripted) Naive.tinyReq Naive.tinyRaced = some s ∧
        s.metrics.cancelledSequences ≠ [] := by
  obtain ⟨⟨hscheduler, hcounted⟩, hnaive, hnaiveCounted⟩ :=
    matched_stop_uncounted Scheduler.tinyScheduler 2 8 12 12 64 4 (fun _ ↦ 5) 0
      (.scripted tinyScripted) Naive.tinyReq 5
  refine ⟨by decide +kernel, ?_, by decide +kernel, ?_, ?_, ?_⟩
  · apply hscheduler
    exact Transition.reaches_getD_run (by decide +kernel) Scheduler.tinyStart
  · apply hnaive
    exact Transition.reaches_getD_run (by decide +kernel) (Naive.init 5)
  · obtain ⟨s, hnext⟩ := Option.isSome_iff_exists.mp (by decide +kernel :
      (Scheduler.next Scheduler.tinyScheduler [] Scheduler.tinyRaced).isSome = true)
    refine ⟨s, hnext, ?_⟩
    rw [hcounted Scheduler.tinyRaced [] s (Or.inl (by decide +kernel)) hnext]
    decide +kernel
  · obtain ⟨s, hnext⟩ := Option.isSome_iff_exists.mp (by decide +kernel :
      (Naive.next (.scripted tinyScripted) Naive.tinyReq Naive.tinyRaced).isSome = true)
    exact ⟨s, hnext, hnaiveCounted Naive.tinyRaced s (Or.inl (by decide +kernel)) hnext⟩

end HotBatch
