import HotBatch.Foundation.Permits
import HotBatch.Server.Api
import HotBatch.Server.NaiveLedger

/-!
# The naive engine

All calls of `NaiveEngine::submit` and the tasks they spawn, around one admission counter, one mutex
and one shutdown token. A call looks at the token, takes a permit, looks at the token again and spawns
its task; the task is the one of `run_naive_request`, and drops its permit when it ends, in whatever
way. Calls are known by their tickets, the order of their arrival. Every step of every call may come
between any two steps of another.
-/

namespace HotBatch

/-- `model` stands for what the mutex protects, which no request changes. -/
structure NaiveEngine (α : Type) where
  model : SmallTransformer α
  maxQueueDepth : ℕ

namespace NaiveEngine

inductive NaiveSubmitError where
  | queueFull
  | unavailable
  deriving DecidableEq

/-- How far a call of `submit` has come, and then the task that it has spawned. -/
inductive Stage where
  | entered
  | acquiring
  | admitted
  | withdrawn
  | refused (err : NaiveSubmitError)
  | spawned
  | unwinding
  | finished
  deriving DecidableEq

/-- A permit is in scope. -/
def Stage.HoldsPermit : Stage → Prop
  | admitted | withdrawn | spawned | unwinding => True
  | entered | acquiring | refused _ | finished => False

/-- `submit` has returned a handle. -/
def Stage.IsAccepted : Stage → Prop
  | spawned | unwinding | finished => True
  | entered | acquiring | admitted | withdrawn | refused _ => False

/-- A call with the task that it spawns or would spawn. -/
structure Call (α : Type) where
  req : GenerationRequest α
  stage : Stage
  pc : Naive.Pc α
  client : Client
  history : Naive.History α

/-- `owner` is the call that holds the mutex around the model; `permits` is what has become of the
permits, which no step reads. -/
structure State (α : Type) where
  calls : List (Call α)
  accepted : ℕ
  owner : Option ℕ
  shutdown : Bool
  metrics : SchedulerMetrics
  permits : Permits ℕ

inductive Action (α : Type) where
  | submit (req : GenerationRequest α) (capacity : ℕ)
  | call (ticket : ℕ)
  | client (ticket : ℕ) (action : ClientAction)
  | shutdown

variable {α : Type}

/-- `NaiveEngine::new`. -/
def init : State α where
  calls := []
  accepted := 0
  owner := none
  shutdown := false
  metrics := .new
  permits := .none

/-- A call of `submit` with a fresh channel. -/
def Call.new (req : GenerationRequest α) (capacity : ℕ) : Call α where
  req := req
  stage := .entered
  pc := .checkShutdown .entry
  client := .new capacity
  history := ⟨[], none⟩

/-- The mutex as the call sees it. -/
def ownerFor (ticket : ℕ) : Option ℕ → Naive.Owner
  | none => .nobody
  | some holder => if holder = ticket then .task else .other

namespace State

def putCall (ticket : ℕ) (call : Call α) (s : State α) : State α :=
  { s with calls := s.calls.set ticket call }

/-- The task of a call, with what it shares with the others. -/
def task (ticket : ℕ) (call : Call α) (s : State α) : Naive.State α where
  pc := call.pc
  client := call.client
  shutdown := s.shutdown
  owner := ownerFor ticket s.owner
  metrics := s.metrics
  history := call.history

/-- What a step of its task makes of a call and of what is shared. -/
def putTask (ticket : ℕ) (call : Call α) (task : Naive.State α) (s : State α) : State α :=
  { s with
    calls := s.calls.set ticket
      { call with pc := task.pc, client := task.client, history := task.history }
    owner :=
      match task.owner with
      | .nobody => none
      | .task => some ticket
      | .other => s.owner
    metrics := task.metrics }

/-- `AdmissionPermit::drop`. -/
def dropPermit (ticket : ℕ) (s : State α) : State α :=
  { s with
    accepted := s.accepted - 1
    metrics := s.metrics.setQueueDepth (s.accepted - 1 - 1)
    permits := s.permits.release ticket }

end State

/-- `try_acquire`, and what `submit` makes of its result. -/
def acquirePermit (engine : NaiveEngine α) (ticket : ℕ) (call : Call α) (s : State α) : State α :=
  match tryAcquire engine.maxQueueDepth s.accepted with
  | none => s.putCall ticket { call with stage := .refused .queueFull }
  | some accepted =>
      { s.putCall ticket { call with stage := .admitted } with
        accepted := accepted
        metrics := s.metrics.setQueueDepth (accepted - 1)
        permits := s.permits.acquire ticket }

/-- `run_naive_request` has returned: the permit of the task goes out of scope. When it panics, the
guard of the model does so first. -/
def endTask (ticket : ℕ) (call : Call α) (s : State α) : State α :=
  match call.pc with
  | .panicked =>
      { s.putCall ticket { call with stage := .unwinding } with
        owner := if s.owner = some ticket then none else s.owner }
  | _ => (s.putCall ticket { call with stage := .finished }).dropPermit ticket

section Next

variable [Kernels α]

/-- The task takes a step, or it is over. -/
def runTask (engine : NaiveEngine α) (ticket : ℕ) (call : Call α) (s : State α) : State α :=
  match Naive.next engine.model call.req (s.task ticket call) with
  | some task => s.putTask ticket call task
  | none => endTask ticket call s

/-- The next step of a call; none when `submit` has returned an error or the task is gone. -/
def callStep (engine : NaiveEngine α) (ticket : ℕ) (call : Call α) (s : State α) :
    Option (State α) :=
  match call.stage with
  | .entered =>
      let stage := if s.shutdown then .refused .unavailable else .acquiring
      some (s.putCall ticket { call with stage := stage })
  | .acquiring => some (acquirePermit engine ticket call s)
  | .admitted =>
      let stage := if s.shutdown then .withdrawn else .spawned
      some (s.putCall ticket { call with stage := stage })
  | .withdrawn =>
      some ((s.putCall ticket { call with stage := .refused .unavailable }).dropPermit ticket)
  | .spawned => some (runTask engine ticket call s)
  | .unwinding => some ((s.putCall ticket { call with stage := .finished }).dropPermit ticket)
  | .refused _ | .finished => none

def step (engine : NaiveEngine α) (action : Action α) (s : State α) : Option (State α) :=
  match action with
  | .submit req capacity => some { s with calls := s.calls ++ [.new req capacity] }
  | .call ticket => s.calls[ticket]?.bind fun call ↦ callStep engine ticket call s
  | .client ticket action =>
      s.calls[ticket]?.bind fun call ↦ (call.client.act action).map fun client ↦
        s.putCall ticket { call with client := client }
  | .shutdown => some { s with shutdown := true }

end Next

/-- A step without condition. -/
def Anything : State α → Action α → Prop := fun _ _ ↦ True

abbrev Reaches [Kernels α] (engine : NaiveEngine α) (allowed : State α → Action α → Prop)
    (start : State α) : State α → Prop :=
  Transition.Reaches (step engine) allowed start

/-! ## What a step can do -/

/-- Everything that a step of a call can be. -/
inductive CallStep [Kernels α] (engine : NaiveEngine α) (ticket : ℕ) (call : Call α) (s : State α) :
    State α → Prop
  | unavailable (hstage : call.stage = .entered) (hshutdown : s.shutdown = true) :
      CallStep engine ticket call s (s.putCall ticket { call with stage := .refused .unavailable })
  | goesOn (hstage : call.stage = .entered) (hshutdown : s.shutdown = false) :
      CallStep engine ticket call s (s.putCall ticket { call with stage := .acquiring })
  | queueFull (hstage : call.stage = .acquiring)
      (hfull : tryAcquire engine.maxQueueDepth s.accepted = none) :
      CallStep engine ticket call s (s.putCall ticket { call with stage := .refused .queueFull })
  | acquire {accepted : ℕ} (hstage : call.stage = .acquiring)
      (hroom : tryAcquire engine.maxQueueDepth s.accepted = some accepted) :
      CallStep engine ticket call s { s.putCall ticket { call with stage := .admitted } with
        accepted := accepted
        metrics := s.metrics.setQueueDepth (accepted - 1)
        permits := s.permits.acquire ticket }
  | withdraw (hstage : call.stage = .admitted) (hshutdown : s.shutdown = true) :
      CallStep engine ticket call s (s.putCall ticket { call with stage := .withdrawn })
  | spawn (hstage : call.stage = .admitted) (hshutdown : s.shutdown = false) :
      CallStep engine ticket call s (s.putCall ticket { call with stage := .spawned })
  | giveBack (hstage : call.stage = .withdrawn) :
      CallStep engine ticket call s
        ((s.putCall ticket { call with stage := .refused .unavailable }).dropPermit ticket)
  | task {task : Naive.State α} (hstage : call.stage = .spawned)
      (hnext : Naive.next engine.model call.req (s.task ticket call) = some task) :
      CallStep engine ticket call s (s.putTask ticket call task)
  | panic (hstage : call.stage = .spawned) (hpc : call.pc = .panicked) :
      CallStep engine ticket call s { s.putCall ticket { call with stage := .unwinding } with
        owner := if s.owner = some ticket then none else s.owner }
  | finish (hstage : call.stage = .spawned) (hpc : call.pc = .returned) :
      CallStep engine ticket call s
        ((s.putCall ticket { call with stage := .finished }).dropPermit ticket)
  | unwind (hstage : call.stage = .unwinding) :
      CallStep engine ticket call s
        ((s.putCall ticket { call with stage := .finished }).dropPermit ticket)

theorem endTask_of_returned (ticket : ℕ) {call : Call α} (hpc : call.pc = .returned) (s : State α) :
    endTask ticket call s =
      (s.putCall ticket { call with stage := .finished }).dropPermit ticket := by
  obtain ⟨req, stage, pc, client, history⟩ := call
  obtain rfl : pc = .returned := hpc
  rfl

theorem endTask_of_panicked (ticket : ℕ) {call : Call α} (hpc : call.pc = .panicked) (s : State α) :
    endTask ticket call s = { s.putCall ticket { call with stage := .unwinding } with
      owner := if s.owner = some ticket then none else s.owner } := by
  obtain ⟨req, stage, pc, client, history⟩ := call
  obtain rfl : pc = .panicked := hpc
  rfl

theorem callStep_cases [Kernels α] {engine : NaiveEngine α} {ticket : ℕ} {call : Call α}
    {s s' : State α} (hstep : callStep engine ticket call s = some s') :
    CallStep engine ticket call s s' := by
  unfold callStep at hstep
  split at hstep
  case h_1 hstage =>
      obtain rfl := Option.some.inj hstep
      cases hshutdown : s.shutdown with
      | true => exact .unavailable hstage hshutdown
      | false => exact .goesOn hstage hshutdown
  case h_2 hstage =>
      obtain rfl := Option.some.inj hstep
      unfold acquirePermit
      cases hroom : tryAcquire engine.maxQueueDepth s.accepted with
      | none => exact .queueFull hstage hroom
      | some accepted => exact .acquire hstage hroom
  case h_3 hstage =>
      obtain rfl := Option.some.inj hstep
      cases hshutdown : s.shutdown with
      | true => exact .withdraw hstage hshutdown
      | false => exact .spawn hstage hshutdown
  case h_4 hstage => exact Option.some.inj hstep ▸ .giveBack hstage
  case h_5 hstage =>
      obtain rfl := Option.some.inj hstep
      unfold runTask
      cases hnext : Naive.next engine.model call.req (s.task ticket call) with
      | some task => exact .task hstage hnext
      | none =>
          have hover : call.pc = .returned ∨ call.pc = .panicked := by
            by_contra hnot
            obtain ⟨hreturned, hpanicked⟩ := not_or.mp hnot
            obtain ⟨task, hsome⟩ := Naive.next_isSome engine.model call.req
              (show (s.task ticket call).pc ≠ _ from hreturned) hpanicked
            rw [hnext] at hsome
            cases hsome
          rcases hover with hpc | hpc
          · exact endTask_of_returned ticket hpc s ▸ .finish hstage hpc
          · exact endTask_of_panicked ticket hpc s ▸ .panic hstage hpc
  case h_6 hstage => exact Option.some.inj hstep ▸ .unwind hstage
  case h_7 => cases hstep
  case h_8 => cases hstep

end NaiveEngine

end HotBatch
