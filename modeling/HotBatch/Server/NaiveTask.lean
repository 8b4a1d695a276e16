import HotBatch.Core.Model
import HotBatch.Foundation.Transition
import HotBatch.Scheduler.Machine

/-!
# The naive task as a state machine

`run_naive_request` serves one request alone, with a cache of its own and the model behind a mutex.
A program counter stands in front of every point where it reads or writes something shared: the
shutdown token, `response_done`, the receiver, the mutex and the channel. The other actions are those
of the connection, of the other tasks that want the model, and of the operator.

The task looks at `response_done` in all of its stages and at the receiver in some of them only. The
`select!` polls its branches in their order and starts again whenever it is woken up.
-/

namespace HotBatch

namespace Naive

/-- The sequence of the task and its cache. -/
structure Serving (α : Type) where
  seq : Sequence α
  kvCache : SlabKvCache (KvTensor α)

/-- The places where the task looks at the signals. -/
inductive Stage (α : Type) where
  | entry
  | waiting
  | locked
  | created (serving : Serving α)
  | prefilled (serving : Serving α)
  | looping (serving : Serving α)
  | passed (serving : Serving α) (logits : List (LogitRow α))

inductive Pc (α : Type) where
  | checkShutdown (stage : Stage α)
  | checkDone (stage : Stage α)
  | checkClosed (stage : Stage α)
  | acquire
  | create
  | prefill (serving : Serving α)
  | forward (serving : Serving α)
  | sampleToken (serving : Serving α) (logits : List (LogitRow α))
  | sendItems (serving : Serving α) (items : List StreamItem)
  | answer (message : String)
  | returned
  | panicked

/-- Who holds the mutex around the model. -/
inductive Owner where
  | nobody
  | task
  | other
  deriving DecidableEq

/-- `ended` is what the task had when it returned; no step reads the history. -/
structure History (α : Type) where
  updates : List Update
  ended : Option (Serving α)

structure State (α : Type) where
  pc : Pc α
  client : Client
  shutdown : Bool
  owner : Owner
  metrics : SchedulerMetrics
  history : History α

inductive Action where
  | task
  | client (action : ClientAction)
  | shutdown
  | lockModel
  | unlockModel
  deriving DecidableEq

variable {α : Type}

/-- The task as `NaiveEngine::submit` spawns it. -/
def init (capacity : ℕ) : State α where
  pc := .checkShutdown .entry
  client := .new capacity
  shutdown := false
  owner := .nobody
  metrics := .new
  history := ⟨[], none⟩

namespace Stage

def serving : Stage α → Option (Serving α)
  | entry | waiting | locked => none
  | created serving | prefilled serving | looping serving | passed serving _ => some serving

/-- The stages where the receiver is looked at too. -/
def readsClosed : Stage α → Bool
  | entry | waiting | locked | looping _ => true
  | created _ | prefilled _ | passed _ _ => false

end Stage

def Serving.cancel (serving : Serving α) : Serving α := { serving with seq := serving.seq.cancel }

namespace State

def goto (pc : Pc α) (s : State α) : State α := { s with pc := pc }

/-- The function returns: the slot of its sequence is freed, and the model is released. -/
def leave (serving : Option (Serving α)) (pc : Pc α) (s : State α) : State α :=
  { s with
    pc := pc
    owner := if s.owner = .task then .nobody else s.owner
    metrics := if serving.isSome then s.metrics.setRunning 0 else s.metrics
    history := { s.history with
      ended := serving.map fun serving ↦
        { serving with kvCache := serving.kvCache.free serving.seq.kvHandle } } }

def recordCancelled (client : ClientId) (s : State α) : State α :=
  { s with metrics := s.metrics.recordCancelled [client] }

@[simp]
theorem goto_pc (pc : Pc α) (s : State α) : (s.goto pc).pc = pc := rfl

@[simp]
theorem leave_pc (serving : Option (Serving α)) (pc : Pc α) (s : State α) :
    (s.leave serving pc).pc = pc := rfl

end State

/-- `response_done` was set or the receiver was gone. -/
def abandon (stage : Stage α) (s : State α) : State α :=
  match stage with
  | .entry | .waiting | .locked => s.leave none .returned
  | .created serving | .prefilled serving => s.leave (some serving) .returned
  | .looping serving | .passed serving _ => s.leave (some serving.cancel) .returned

/-- The loop condition `!seq.is_done()`. -/
def enterLoop (serving : Serving α) (s : State α) : State α :=
  if serving.seq.isDone then s.leave (some serving) .returned
  else s.goto (.checkShutdown (.looping serving))

/-- No signal was set. -/
def proceed (stage : Stage α) (s : State α) : State α :=
  match stage with
  | .entry => s.goto (.checkShutdown .waiting)
  | .waiting => s.goto .acquire
  | .locked => s.goto .create
  | .created serving => s.goto (.prefill serving)
  | .prefilled serving => enterLoop { serving with seq := serving.seq.markRunning } s
  | .looping serving => s.goto (.forward serving)
  | .passed serving logits => s.goto (.sampleToken serving logits)

/-- The end of an iteration. -/
def endTurn (serving : Serving α) (s : State α) : State α :=
  enterLoop serving
    { s with metrics := s.metrics.recordStep 1 (if serving.seq.isDone then 0 else 1) }

/-- The lock branch of the `select!`. -/
def acquire (s : State α) : State α :=
  if s.owner = .nobody then { s with owner := .task, pc := .checkShutdown .locked }
  else s.goto (.checkShutdown .waiting)

/-- `max_seq_len` of the task's own cache. -/
def maxSeqLen (req : GenerationRequest α) : ℕ :=
  max (Usize.saturatingAdd req.promptLen req.maxNewTokens) 1

/-- The cache of the task has a single slot. -/
def newCache (model : SmallTransformer α) (req : GenerationRequest α) : SlabKvCache (KvTensor α) :=
  .new 1 (maxSeqLen req) model.kvShape.1 model.kvShape.2.1 model.kvShape.2.2

def create (model : SmallTransformer α) (req : GenerationRequest α) (s : State α) : State α :=
  match Sequence.new req (newCache model req) with
  | (.error err, _) => s.leave none (.answer err.message)
  | (.ok seq, kvCache) =>
      { s with metrics := s.metrics.setRunning 1, pc := .checkShutdown (.created ⟨seq, kvCache⟩) }

def answer (message : String) (s : State α) : State α :=
  { s with client := s.client.trySendError message, pc := .returned }

/-- Put the next message into its reserved place. -/
def sendItems (serving : Serving α) (items : List StreamItem) (s : State α) : State α :=
  match items with
  | [] => endTurn serving s
  | item :: rest => { s with client := s.client.send item, pc := .sendItems serving rest }

variable [Kernels α]

def prefill (model : SmallTransformer α) (serving : Serving α) (s : State α) : State α :=
  match model.prefill serving.seq.promptTokens serving.seq.kvHandle serving.kvCache with
  | (.error err, kvCache) => s.leave (some { serving with kvCache := kvCache }) (.answer err.message)
  | (.ok (), kvCache) => s.goto (.checkShutdown (.prefilled { serving with kvCache := kvCache }))

def forward (model : SmallTransformer α) (serving : Serving α) (s : State α) : State α :=
  match model.forward [serving.seq.decodeInput] serving.kvCache with
  | (.error err, kvCache) => s.leave (some { serving with kvCache := kvCache }) (.answer err.message)
  | (.ok logits, kvCache) =>
      s.goto (.checkShutdown (.passed { serving with kvCache := kvCache } logits))

/-- From `sample` to `try_reserve_many`. -/
def sampleToken (serving : Serving α) (logits : List (LogitRow α)) (s : State α) : State α :=
  match logitRow logits 0 with
  | .error err => s.leave (some serving) (.answer err.message)
  | .ok row =>
      match serving.seq.advance row with
      | none => s.goto .panicked
      | some (tokens, stepped) =>
          let items := updateItems tokens stepped.finishReason
          let delivered := s.client.tryReserveMany items.length
          let s := { s with
            metrics := s.metrics.recordToken
            history := { s.history with updates := s.history.updates ++
              [Update.mk serving.seq.client tokens stepped.finishReason delivered] } }
          if delivered then s.goto (.sendItems { serving with seq := stepped } items)
          else endTurn { serving with seq := stepped.cancel } (s.recordCancelled serving.seq.client)

/-- The next step of the task; none when it has returned. -/
def next (model : SmallTransformer α) (req : GenerationRequest α) (s : State α) : Option (State α) :=
  match s.pc with
  | .checkShutdown stage =>
      some (if s.shutdown then s.leave stage.serving (.answer Scheduler.shutdownMessage)
        else s.goto (.checkDone stage))
  | .checkDone stage =>
      some (if s.client.responseDone then abandon stage s
        else if stage.readsClosed then s.goto (.checkClosed stage) else proceed stage s)
  | .checkClosed stage =>
      some (if s.client.isClosed then abandon stage (s.recordCancelled req.client)
        else proceed stage s)
  | .acquire => some (acquire s)
  | .create => some (create model req s)
  | .prefill serving => some (prefill model serving s)
  | .forward serving => some (forward model serving s)
  | .sampleToken serving logits => some (sampleToken serving logits s)
  | .sendItems serving items => some (sendItems serving items s)
  | .answer message => some (answer message s)
  | .returned => none
  | .panicked => none

/-- The step of an action, where it is possible. -/
def step (model : SmallTransformer α) (req : GenerationRequest α) (action : Action) (s : State α) :
    Option (State α) :=
  match action with
  | .task => next model req s
  | .client action => (s.client.act action).map fun client ↦ { s with client := client }
  | .shutdown => some { s with shutdown := true }
  | .lockModel => if s.owner = .nobody then some { s with owner := .other } else none
  | .unlockModel => if s.owner = .other then some { s with owner := .nobody } else none

abbrev Reaches (model : SmallTransformer α) (req : GenerationRequest α)
    (allowed : State α → Action → Prop) (start : State α) : State α → Prop :=
  Transition.Reaches (step model req) allowed start

/-! ## What a step can do -/

/-- Everything that a step of the task can be. -/
inductive TaskStep (model : SmallTransformer α) (req : GenerationRequest α) (s : State α) :
    State α → Prop
  | shutdown {stage : Stage α} (hpc : s.pc = .checkShutdown stage) (hshutdown : s.shutdown = true) :
      TaskStep model req s (s.leave stage.serving (.answer Scheduler.shutdownMessage))
  | goesOn {stage : Stage α} (hpc : s.pc = .checkShutdown stage) (hshutdown : s.shutdown = false) :
      TaskStep model req s (s.goto (.checkDone stage))
  | responseDone {stage : Stage α} (hpc : s.pc = .checkDone stage)
      (hdone : s.client.responseDone = true) : TaskStep model req s (abandon stage s)
  | looksAtReceiver {stage : Stage α} (hpc : s.pc = .checkDone stage)
      (hdone : s.client.responseDone = false) (hreads : stage.readsClosed = true) :
      TaskStep model req s (s.goto (.checkClosed stage))
  | responseWanted {stage : Stage α} (hpc : s.pc = .checkDone stage)
      (hdone : s.client.responseDone = false) (hreads : stage.readsClosed = false) :
      TaskStep model req s (proceed stage s)
  | closed {stage : Stage α} (hpc : s.pc = .checkClosed stage) (hclosed : s.client.isClosed = true) :
      TaskStep model req s (abandon stage (s.recordCancelled req.client))
  | stillOpen {stage : Stage α} (hpc : s.pc = .checkClosed stage)
      (hclosed : s.client.isClosed = false) : TaskStep model req s (proceed stage s)
  | acquire (hpc : s.pc = .acquire) : TaskStep model req s (acquire s)
  | create (hpc : s.pc = .create) : TaskStep model req s (create model req s)
  | prefill {serving : Serving α} (hpc : s.pc = .prefill serving) :
      TaskStep model req s (prefill model serving s)
  | forward {serving : Serving α} (hpc : s.pc = .forward serving) :
      TaskStep model req s (forward model serving s)
  | sampleToken {serving : Serving α} {logits : List (LogitRow α)}
      (hpc : s.pc = .sampleToken serving logits) :
      TaskStep model req s (sampleToken serving logits s)
  | sendItems {serving : Serving α} {items : List StreamItem} (hpc : s.pc = .sendItems serving items) :
      TaskStep model req s (sendItems serving items s)
  | answer {message : String} (hpc : s.pc = .answer message) : TaskStep model req s (answer message s)

theorem taskStep_of_next {model : SmallTransformer α} {req : GenerationRequest α} {s s' : State α}
    (hnext : next model req s = some s') : TaskStep model req s s' := by
  unfold next at hnext
  split at hnext
  case h_1 stage hpc =>
      obtain rfl := Option.some.inj hnext
      cases hshutdown : s.shutdown with
      | true => exact .shutdown hpc hshutdown
      | false => exact .goesOn hpc hshutdown
  case h_2 stage hpc =>
      obtain rfl := Option.some.inj hnext
      cases hdone : s.client.responseDone with
      | true => exact .responseDone hpc hdone
      | false =>
          cases hreads : stage.readsClosed with
          | true => exact .looksAtReceiver hpc hdone hreads
          | false => exact .responseWanted hpc hdone hreads
  case h_3 stage hpc =>
      obtain rfl := Option.some.inj hnext
      cases hclosed : s.client.isClosed with
      | true => exact .closed hpc hclosed
      | false => exact .stillOpen hpc hclosed
  case h_4 hpc => exact Option.some.inj hnext ▸ .acquire hpc
  case h_5 hpc => exact Option.some.inj hnext ▸ .create hpc
  case h_6 serving hpc => exact Option.some.inj hnext ▸ .prefill hpc
  case h_7 serving hpc => exact Option.some.inj hnext ▸ .forward hpc
  case h_8 serving logits hpc => exact Option.some.inj hnext ▸ .sampleToken hpc
  case h_9 serving items hpc => exact Option.some.inj hnext ▸ .sendItems hpc
  case h_10 message hpc => exact Option.some.inj hnext ▸ .answer hpc
  case h_11 => cases hnext
  case h_12 => cases hnext

/-- Everything of this is the next step. -/
theorem next_of_taskStep {model : SmallTransformer α} {req : GenerationRequest α} {s s' : State α}
    (hstep : TaskStep model req s s') : next model req s = some s' := by
  unfold next
  cases hstep with
  | shutdown hpc hshutdown | goesOn hpc hshutdown =>
      rw [hpc, hshutdown]
      rfl
  | responseDone hpc hdone =>
      rw [hpc, hdone]
      rfl
  | looksAtReceiver hpc hdone hreads | responseWanted hpc hdone hreads =>
      rw [hpc, hdone]
      dsimp only
      rw [hreads]
      rfl
  | closed hpc hclosed | stillOpen hpc hclosed =>
      rw [hpc, hclosed]
      rfl
  | acquire hpc | create hpc | prefill hpc | forward hpc | sampleToken hpc | sendItems hpc
  | answer hpc => rw [hpc]

/-- Only a task that has returned or panicked has no next step. -/
theorem next_isSome (model : SmallTransformer α) (req : GenerationRequest α) {s : State α}
    (hreturned : s.pc ≠ .returned) (hpanicked : s.pc ≠ .panicked) :
    ∃ s', next model req s = some s' := by
  unfold next
  split
  case h_11 hpc => exact absurd hpc hreturned
  case h_12 hpc => exact absurd hpc hpanicked
  all_goals exact ⟨_, rfl⟩

end Naive

end HotBatch
