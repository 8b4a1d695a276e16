import HotBatch.Core.Model
import HotBatch.Foundation.Transition
import HotBatch.Scheduler.Client
import HotBatch.Scheduler.Queue

/-!
# The scheduler as a state machine

`Scheduler::run` shares the queue, the channels and the cancellation tokens with the rest of the
server, so it is modelled as a machine. A program counter stands in front of every point where the
loop reads or writes something shared, and one step takes it to the next such point; what it does
in between is private to the scheduler. The other actions are those of the submitters, of the
connections and of the operator who shuts the server down, and they may come between any two steps.

`History` records what the program itself forgets: which requests were accepted, what became of
them, and every update handed to `try_send_tokens`. No step reads it, except that a submitted
request comes with a channel of its own. Latency histograms and the utilization gauge are left out.
-/

namespace HotBatch

structure SchedulerConfig where
  maxRunningSeqs : ℕ
  maxNewTokens : ℕ
  maxSeqLen : ℕ

/-- The counters and gauges. `cancelled_sequences` is kept as the list of the requests it was
incremented for. -/
structure SchedulerMetrics where
  tokensGenerated : ℕ
  schedulerSteps : ℕ
  sharedDecodeSteps : ℕ
  cancelledSequences : List ClientId
  batchSize : ℕ
  runningSequences : ℕ
  queueDepth : ℕ

namespace SchedulerMetrics

def new : SchedulerMetrics := ⟨0, 0, 0, [], 0, 0, 0⟩

def recordStep (batchSize runningAfter : ℕ) (metrics : SchedulerMetrics) : SchedulerMetrics :=
  { metrics with
    schedulerSteps := metrics.schedulerSteps + 1
    sharedDecodeSteps := metrics.sharedDecodeSteps + if 1 < batchSize then 1 else 0
    batchSize := batchSize
    runningSequences := runningAfter }

def recordToken (metrics : SchedulerMetrics) : SchedulerMetrics :=
  { metrics with tokensGenerated := metrics.tokensGenerated + 1 }

def recordCancelled (clients : List ClientId) (metrics : SchedulerMetrics) : SchedulerMetrics :=
  { metrics with cancelledSequences := metrics.cancelledSequences ++ clients }

def setRunning (running : ℕ) (metrics : SchedulerMetrics) : SchedulerMetrics :=
  { metrics with runningSequences := running }

def setQueueDepth (depth : ℕ) (metrics : SchedulerMetrics) : SchedulerMetrics :=
  { metrics with queueDepth := depth }

end SchedulerMetrics

/-- A request whose sender the scheduler has dropped, before or after it became a sequence. -/
inductive Resolved (α : Type) where
  | request (req : GenerationRequest α)
  | sequence (seq : Sequence α)

def Resolved.client {α : Type} : Resolved α → ClientId
  | request req => req.client
  | sequence seq => seq.client

/-- One call of `try_send_tokens` and its result. -/
structure Update where
  client : ClientId
  tokens : List Token
  finishReason : Option FinishReason
  delivered : Bool
  deriving DecidableEq

/-- The messages of an update. -/
def Update.items (update : Update) : List StreamItem :=
  updateItems update.tokens update.finishReason

structure History (α : Type) where
  accepted : List (GenerationRequest α)
  refused : List ClientId
  resolved : List (Resolved α)
  updates : List Update

/-- The fixed parts of a scheduler. -/
structure Scheduler (α : Type) where
  config : SchedulerConfig
  model : SmallTransformer α

namespace Scheduler

/-- The places where the loop reads `response_done` of one request and then `is_closed`. -/
inductive Site (α : Type) where
  | removing (index : ℕ)
  | popped (req : GenerationRequest α)
  | allocated (seq : Sequence α)
  | prefilled (seq : Sequence α)
  | delivering (index : ℕ) (logits : List (LogitRow α))

/-- Where the loop stands. A loop over `running` is at `index`. -/
inductive Pc (α : Type) where
  | loopHead
  | checkDone (site : Site α)
  | checkClosed (site : Site α) (client : ClientId)
  | admission
  | admitRequest (req : GenerationRequest α)
  | prefill (seq : Sequence α)
  | evict (index : ℕ)
  | idleCheck
  | parked
  | forward
  | failBatch (index : ℕ) (message : String)
  | sampleToken (index : ℕ) (logits : List (LogitRow α))
  | sendItems (index : ℕ) (logits : List (LogitRow α)) (items : List StreamItem)
  | closeQueue
  | answerQueued (drained : List (GenerationRequest α))
  | answerRunning
  | returned
  | panicked

structure State (α : Type) where
  pc : Pc α
  running : List (Sequence α)
  kvCache : SlabKvCache (KvTensor α)
  queue : RequestQueue α
  clients : ClientId → Client
  shutdown : Bool
  /-- A wakeup stored in `notify`. -/
  permit : Bool
  /-- Submitters between their push and their `notify_one`. -/
  pendingNotifies : ℕ
  metrics : SchedulerMetrics
  history : History α

/-- One step of somebody. The scans of the queue read the receivers one after the other: `late`
are the clients whose receiver was still open when the scan passed them. -/
inductive Action (α : Type) where
  | sched (late : List ClientId)
  | schedShutdown
  | submit (req : GenerationRequest α) (late : List ClientId)
  | notify
  | client (client : ClientId) (action : ClientAction)
  | shutdown

variable {α : Type}

/-- `RequestQueue::new` and `Scheduler::new`, with a channel for every client to come. -/
def init (kvCache : SlabKvCache (KvTensor α)) (maxDepth : ℕ) (capacity : ClientId → ℕ) :
    State α where
  pc := .loopHead
  running := []
  kvCache := kvCache
  queue := .new maxDepth
  clients := fun client ↦ .new (capacity client)
  shutdown := false
  permit := false
  pendingNotifies := 0
  metrics := .new
  history := ⟨[], [], [], []⟩

def shutdownMessage : String := "generation scheduler is shutting down"

def validateRequest (scheduler : Scheduler α) (kvCache : SlabKvCache (KvTensor α))
    (req : GenerationRequest α) : Except String Unit :=
  if req.promptTokens.isEmpty then .error "request prompt must contain at least one token"
  else if req.maxNewTokens = 0 then .error "request max_new_tokens must be greater than zero"
  else if scheduler.config.maxNewTokens < req.maxNewTokens then
    .error s!"request max_new_tokens={req.maxNewTokens} exceeds scheduler limit {scheduler.config.maxNewTokens}"
  else
    let maxSeqLen := min (min scheduler.config.maxSeqLen kvCache.maxSequenceLen)
      scheduler.model.maxPositions
    match Usize.checkedAdd req.promptLen req.maxNewTokens with
    | none => .error "request sequence length overflowed capacity accounting"
    | some requiredTokens =>
        if maxSeqLen < requiredTokens then
          .error s!"request requires {requiredTokens} tokens but sequence capacity is {maxSeqLen}"
        else .ok ()

/-! ## Effects on the state -/

namespace State

def goto (pc : Pc α) (s : State α) : State α := { s with pc := pc }

/-- A write to one channel. -/
def updateClient (client : ClientId) (f : Client → Client) (s : State α) : State α :=
  { s with clients := Function.update s.clients client (f (s.clients client)) }

def trySendError (client : ClientId) (message : String) (s : State α) : State α :=
  s.updateClient client (Client.trySendError message)

def recordCancelled (clients : List ClientId) (s : State α) : State α :=
  { s with metrics := s.metrics.recordCancelled clients }

/-- The senders of these requests are dropped. -/
def resolve (resolved : List (Resolved α)) (s : State α) : State α :=
  { s with history := { s.history with resolved := s.history.resolved ++ resolved } }

/-- A sequence that never got into `running` gives its slot back. -/
def release (seq : Sequence α) (s : State α) : State α :=
  { s with kvCache := s.kvCache.free seq.kvHandle }.resolve [.sequence seq]

def updateRunning (index : ℕ) (f : Sequence α → Sequence α) (s : State α) : State α :=
  { s with running := s.running.modify index f }

/-- The slots of these sequences are freed in order. -/
def freeSequences (done : List (Sequence α)) (kvCache : SlabKvCache (KvTensor α)) :
    SlabKvCache (KvTensor α) :=
  done.foldl (fun (kvCache : SlabKvCache (KvTensor α)) (seq : Sequence α) ↦
    kvCache.free seq.kvHandle) kvCache

def reapDoneSequences (s : State α) : State α :=
  let done := s.running.filter Sequence.isDone
  let running := s.running.filter fun seq ↦ !seq.isDone
  { s with
    running := running
    kvCache := freeSequences done s.kvCache
    metrics := s.metrics.setRunning running.length }.resolve (done.map .sequence)

/-- The queue operations count the requests that they prune. -/
def prune (pruned : List (GenerationRequest α)) (queue : RequestQueue α) (s : State α) : State α :=
  { s with
    queue := queue
    metrics := (s.metrics.recordCancelled (pruned.map GenerationRequest.client)).setQueueDepth
      queue.requests.length }.resolve (pruned.map .request)

/-- What a scan of the queue reads of the receivers. -/
def isOpen (s : State α) (late : List ClientId) (client : ClientId) : Bool :=
  !(s.clients client).isClosed || late.contains client

end State

/-- The end of a decode step: `reap_done_sequences` and `record_step`. -/
def endStep (s : State α) : State α :=
  let batchSize := s.running.length
  let s := s.reapDoneSequences
  { s with metrics := s.metrics.recordStep batchSize s.running.length, pc := .loopHead }

/-! ## The two checks -/

/-- The request that is being checked; none at the end of a loop over `running`. -/
def Site.client (running : List (Sequence α)) : Site α → Option ClientId
  | removing index => (running[index]?).map Sequence.client
  | popped req => some req.client
  | allocated seq => some seq.client
  | prefilled seq => some seq.client
  | delivering index _ => (running[index]?).map Sequence.client

/-- `response_done` was set or the receiver was gone. -/
def abandon (site : Site α) (s : State α) : State α :=
  match site with
  | .removing index =>
      (s.updateRunning index Sequence.cancel).goto (.checkDone (.removing (index + 1)))
  | .popped req => (s.resolve [.request req]).goto .admission
  | .allocated seq => (s.release seq.cancel).goto .admission
  | .prefilled seq => (s.release seq.cancel).goto .admission
  | .delivering index logits =>
      (s.updateRunning index Sequence.cancel).goto (.checkDone (.delivering (index + 1) logits))

/-- Neither was. -/
def proceed (site : Site α) (s : State α) : State α :=
  match site with
  | .removing index => s.goto (.checkDone (.removing (index + 1)))
  | .popped req => s.goto (.admitRequest req)
  | .allocated seq => s.goto (.prefill seq)
  | .prefilled seq => { s with running := s.running ++ [seq], pc := .admission }
  | .delivering index logits => s.goto (.sampleToken index logits)

/-- The loop over `running` has ended. -/
def endLoop (site : Site α) (s : State α) : State α :=
  match site with
  | .delivering _ _ => endStep s
  | _ => s.reapDoneSequences.goto .admission

/-! ## Admission and eviction -/

/-- The loop condition of admission. -/
def mayAdmit (scheduler : Scheduler α) (s : State α) : Bool :=
  decide (s.running.length < scheduler.config.maxRunningSeqs) &&
    decide (s.kvCache.allocatedSlots < s.kvCache.maxSequences)

def endAdmission (s : State α) : State α :=
  { s with metrics := s.metrics.setRunning s.running.length, pc := .evict 0 }

def tryPop (late : List ClientId) (s : State α) : State α :=
  match s.queue.tryPop (s.isOpen late) with
  | (none, queue) => endAdmission (s.prune (s.queue.pruned (s.isOpen late)) queue)
  | (some req, queue) =>
      (s.prune (s.queue.pruned (s.isOpen late)) queue).goto (.checkDone (.popped req))

/-- Validation and `Sequence::new`. -/
def admitRequest (scheduler : Scheduler α) (req : GenerationRequest α) (s : State α) : State α :=
  match validateRequest scheduler s.kvCache req with
  | .error message =>
      ((s.trySendError req.client message).resolve [.request req]).goto .admission
  | .ok () =>
      match Sequence.new req s.kvCache with
      | (.error err, kvCache) =>
          (({ s with kvCache := kvCache }.trySendError req.client
            s!"failed to admit request {req.id}: {err.message}").resolve [.request req]).goto .admission
      | (.ok seq, kvCache) => { s with kvCache := kvCache, pc := .checkDone (.allocated seq) }

def evictAt (scheduler : Scheduler α) (index : ℕ) (s : State α) : State α :=
  match s.running[index]? with
  | none =>
      let s := s.reapDoneSequences
      s.goto (if s.running.isEmpty then .idleCheck else .forward)
  | some seq =>
      let s :=
        if scheduler.model.maxPositions ≤ seq.decodePosition then
          (s.trySendError seq.client
            s!"decode position {seq.decodePosition} exceeds model capacity {scheduler.model.maxPositions} for request {seq.id}").updateRunning
            index Sequence.fail
        else s
      s.goto (.evict (index + 1))

def failBatchAt (index : ℕ) (message : String) (s : State α) : State α :=
  match s.running[index]? with
  | none => endStep s
  | some seq =>
      ((s.trySendError seq.client message).updateRunning index Sequence.fail).goto
        (.failBatch (index + 1) message)

/-! ## Shutdown -/

def closeQueue (s : State α) : State α :=
  let (drained, queue) := s.queue.closeAndDrain
  { s with
    queue := queue
    metrics := s.metrics.setQueueDepth 0
    pc := .answerQueued drained }

def answerQueued (drained : List (GenerationRequest α)) (s : State α) : State α :=
  match drained with
  | [] => s.goto .answerRunning
  | req :: rest =>
      ((s.trySendError req.client shutdownMessage).resolve [.request req]).goto (.answerQueued rest)

def answerRunning (s : State α) : State α :=
  match s.running with
  | [] => { s with metrics := s.metrics.setRunning 0, pc := .returned }
  | seq :: rest =>
      (({ s with running := rest }.trySendError seq.client shutdownMessage).release seq).goto
        .answerRunning

/-! ## Model passes -/

variable [Kernels α]

def prefill (scheduler : Scheduler α) (seq : Sequence α) (s : State α) : State α :=
  match scheduler.model.prefill seq.promptTokens seq.kvHandle s.kvCache with
  | (.error err, kvCache) =>
      (({ s with kvCache := kvCache }.trySendError seq.client
        s!"failed to prefill request {seq.id}: {err.message}").release seq.fail).goto .admission
  | (.ok (), kvCache) =>
      { s with kvCache := kvCache, pc := .checkDone (.prefilled seq.markRunning) }

def forward (scheduler : Scheduler α) (s : State α) : State α :=
  match scheduler.model.forward (s.running.map Sequence.decodeInput) s.kvCache with
  | (.error err, kvCache) =>
      { s with kvCache := kvCache, pc := .failBatch 0 s!"decode batch failed: {err.message}" }
  | (.ok logits, kvCache) =>
      { s with kvCache := kvCache, pc := .checkDone (.delivering 0 logits) }

/-- The delivery of one row, up to `try_reserve_many`. -/
def sampleToken (index : ℕ) (logits : List (LogitRow α)) (s : State α) : State α :=
  match s.running[index]? with
  | none => endStep s
  | some seq =>
      match logitRow logits index with
      | .error err =>
          ((s.trySendError seq.client
            s!"decode row failed for request {seq.id}: {err.message}").updateRunning index
              Sequence.fail).goto (.checkDone (.delivering (index + 1) logits))
      | .ok row =>
          match seq.advance row with
          | none => s.goto .panicked
          | some (tokens, stepped) =>
              let items := updateItems tokens stepped.finishReason
              let delivered := (s.clients seq.client).tryReserveMany items.length
              let s := { s with
                running := s.running.set index (if delivered then stepped else stepped.cancel)
                metrics := s.metrics.recordToken
                history := { s.history with updates := s.history.updates ++
                  [Update.mk seq.client tokens stepped.finishReason delivered] } }
              if delivered then s.goto (.sendItems index logits items)
              else (s.recordCancelled [seq.client]).goto
                (.checkDone (.delivering (index + 1) logits))

/-- The messages of an update go into their reserved places one by one. -/
def sendItems (index : ℕ) (logits : List (LogitRow α)) (items : List StreamItem) (s : State α) :
    State α :=
  match s.running[index]?, items with
  | some seq, item :: rest =>
      (s.updateClient seq.client (Client.send item)).goto (.sendItems index logits rest)
  | _, _ => s.goto (.checkDone (.delivering (index + 1) logits))

/-! ## The machine -/

/-- The next step of `Scheduler::run`; none when it waits or has ended. -/
def next (scheduler : Scheduler α) (late : List ClientId) (s : State α) : Option (State α) :=
  match s.pc with
  | .loopHead => some (s.goto (if s.shutdown then .closeQueue else .checkDone (.removing 0)))
  | .checkDone site =>
      match site.client s.running with
      | none => some (endLoop site s)
      | some client =>
          some (if (s.clients client).responseDone then abandon site s
            else s.goto (.checkClosed site client))
  | .checkClosed site client =>
      some (if (s.clients client).isClosed then abandon site (s.recordCancelled [client])
        else proceed site s)
  | .admission => some (if mayAdmit scheduler s then tryPop late s else endAdmission s)
  | .admitRequest req => some (admitRequest scheduler req s)
  | .prefill seq => some (prefill scheduler seq s)
  | .evict index => some (evictAt scheduler index s)
  | .idleCheck => some (s.goto (if s.queue.requests.isEmpty then .parked else .loopHead))
  | .parked => if s.permit then some { s with permit := false, pc := .idleCheck } else none
  | .forward => some (forward scheduler s)
  | .failBatch index message => some (failBatchAt index message s)
  | .sampleToken index logits => some (sampleToken index logits s)
  | .sendItems index logits items => some (sendItems index logits items s)
  | .closeQueue => some (closeQueue s)
  | .answerQueued drained => some (answerQueued drained s)
  | .answerRunning => some (answerRunning s)
  | .returned => none
  | .panicked => none

/-- The shutdown branch of the `select!` while the scheduler is idle. -/
def nextShutdown (s : State α) : Option (State α) :=
  match s.pc with
  | .idleCheck | .parked => if s.shutdown then some (s.goto .closeQueue) else none
  | _ => none

/-- `submit` has returned `QueueFull`. -/
def refuse (req : GenerationRequest α) (s : State α) : State α :=
  { s with history := { s.history with refused := s.history.refused ++ [req.client] } }

/-- `submit` has pushed the request and is about to call `notify_one`. -/
def accept (req : GenerationRequest α) (s : State α) : State α :=
  { s with
    pendingNotifies := s.pendingNotifies + 1
    history := { s.history with accepted := s.history.accepted ++ [req] } }

/-- `submit` of a request with a channel of its own. -/
def submit (req : GenerationRequest α) (late : List ClientId) (s : State α) : Option (State α) :=
  if req.client ∈ s.history.refused ∨ req.client ∈ s.history.accepted.map GenerationRequest.client
  then none
  else
    let pruned := s.queue.pruned (s.isOpen late)
    match s.queue.submit (s.isOpen late) req with
    | (false, queue) => some (refuse req (s.prune pruned queue))
    | (true, queue) => some (accept req (s.prune pruned queue))

/-- The step of an action, where it is possible. -/
def step (scheduler : Scheduler α) (action : Action α) (s : State α) : Option (State α) :=
  match action with
  | .sched late => next scheduler late s
  | .schedShutdown => nextShutdown s
  | .submit req late => submit req late s
  | .notify =>
      if s.pendingNotifies = 0 then none
      else some { s with permit := true, pendingNotifies := s.pendingNotifies - 1 }
  | .client client action =>
      ((s.clients client).act action).map fun after ↦
        { s with clients := Function.update s.clients client after }
  | .shutdown => some { s with shutdown := true }

/-- The states of all runs of a scheduler over a new cache whose steps are all allowed. -/
abbrev Reaches (scheduler : Scheduler α) (allowed : State α → Action α → Prop)
    (start : State α) : State α → Prop :=
  Transition.Reaches (step scheduler) allowed start

/-- A step without condition. -/
def Anything : State α → Action α → Prop := fun _ _ ↦ True

instance (s : State α) (action : Action α) : Decidable (Anything s action) := isTrue trivial

end Scheduler

end HotBatch
