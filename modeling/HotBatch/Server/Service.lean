import HotBatch.Scheduler.Stopping
import HotBatch.Server.Handlers
import HotBatch.Server.Limits

/-!
# The service

The continuous server as a whole: the scheduler, the handlers of any number of calls and the flag
`alive`, which the task around the scheduler takes back when `run` has returned. A handler is cut at
every point where it reads or writes something shared, so the steps of all parties may come in any
order; the client of a call is its number. A connection acts only once its response has begun.

`found` records what `RequestQueue::submit` has seen. No step reads it.
-/

namespace HotBatch.Service

variable {α : Type}

/-- Where a handler stands, and what it has in hand. -/
inductive Stage (α : Type) where
  | received
  | checking (prompt : Str) (params : SubmitParams α)
  | rechecking (params : SubmitParams α) (submission : Submission α)
  | enqueuing (params : SubmitParams α) (submission : Submission α)
  /-- Between the push and `notify_one`. -/
  | notifying (params : SubmitParams α) (submission : Submission α)
  /-- `submit` has failed, and `is_closed` is to tell why. -/
  | classifying
  | failed (error : ApiError)
  | serving (params : SubmitParams α) (submission : Submission α)

structure Call (α : Type) where
  id : String
  request : ApiRequest α
  stage : Stage α
  /-- Whether the queue was closed, and how many live requests it held. -/
  found : Option (Bool × ℕ)

def Call.goto (stage : Stage α) (call : Call α) : Call α := { call with stage := stage }

structure State (α : Type) where
  engine : Scheduler.State α
  alive : Bool
  calls : List (Call α)

inductive Action (α : Type) where
  | call (id : String) (request : ApiRequest α)
  | handler (client : ClientId) (late : List ClientId)
  | engine (late : List ClientId)
  | engineShutdown
  /-- The task around `run` ends. -/
  | engineEnded
  | connection (client : ClientId) (action : ClientAction)
  | shutdown

def init (kvCache : SlabKvCache (KvTensor α)) (maxDepth : ℕ) (capacity : ClientId → ℕ) : State α where
  engine := Scheduler.init kvCache maxDepth capacity
  alive := true
  calls := []

/-- The new call would ask for a channel of this size. -/
def fits [Scalar α] [FiniteCheck α] (app : AppState α) (request : ApiRequest α) (capacity : ℕ) : Bool :=
  match request.input app with
  | .error _ => true
  | .ok (_, params) => capacity == max 2 (min (params.maxTokens + 1) responseChannelCapacity)

variable [Kernels α] [FiniteCheck α]

/-- The next step of a handler: the call and the engine after it. -/
def handle (scheduler : Scheduler α) (app : AppState α) (client : ClientId) (late : List ClientId)
    (alive : Bool) (engine : Scheduler.State α) (call : Call α) :
    Option (Call α × Scheduler.State α) :=
  match call.stage with
  | .received =>
      match call.request.input app with
      | .error err => some (call.goto (.failed err), engine)
      | .ok (prompt, params) => some (call.goto (.checking prompt params), engine)
  | .checking prompt params =>
      if alive then
        match buildRequest app call.id client prompt params with
        | .error err => some (call.goto (.failed err), engine)
        | .ok submission => some (call.goto (.rechecking params submission), engine)
      else some (call.goto (.failed .unavailable), engine)
  | .rechecking params submission =>
      if alive then some (call.goto (.enqueuing params submission), engine)
      else some (call.goto (.failed .unavailable), engine)
  | .enqueuing params submission =>
      let isOpen := engine.isOpen late
      (Scheduler.submit submission.request late engine).map fun after ↦
        ({ call with
            stage := if (engine.queue.submit isOpen submission.request).1 then
                .notifying params submission
              else .classifying
            found := some (engine.queue.closed, (engine.queue.retainOpen isOpen).requests.length) },
          after)
  | .notifying params submission =>
      (Scheduler.step scheduler .notify engine).map fun after ↦
        (call.goto (.serving params submission), after)
  | .classifying =>
      some (call.goto (.failed (if engine.queue.closed then .unavailable else .queueFull)), engine)
  | .failed _ => none
  | .serving _ _ => none

/-- A step of the engine of the service. -/
def stepEngine (scheduler : Scheduler α) (action : Scheduler.Action α) (s : State α) :
    Option (State α) :=
  (Scheduler.step scheduler action s.engine).map fun engine ↦ { s with engine := engine }

def step (scheduler : Scheduler α) (app : AppState α) (action : Action α) (s : State α) :
    Option (State α) :=
  match action with
  | .call id request =>
      if fits app request (s.engine.clients s.calls.length).capacity then
        some { s with calls := s.calls ++ [⟨id, request, .received, none⟩] }
      else none
  | .handler client late =>
      match s.calls[client]? with
      | none => none
      | some call =>
          (handle scheduler app client late s.alive s.engine call).map fun after ↦
            { s with calls := s.calls.set client after.1, engine := after.2 }
  | .engine late => stepEngine scheduler (.sched late) s
  | .engineShutdown => stepEngine scheduler .schedShutdown s
  | .engineEnded =>
      match s.engine.pc with
      | .returned => if s.alive then some { s with alive := false } else none
      | _ => none
  | .connection client action =>
      match s.calls[client]?.map Call.stage with
      | some (.serving _ _) => stepEngine scheduler (.client client action) s
      | _ => none
  | .shutdown => stepEngine scheduler .shutdown s

/-- The states of all runs whose steps are allowed. -/
abbrev Reaches (scheduler : Scheduler α) (app : AppState α) (allowed : State α → Action α → Prop)
    (start : State α) : State α → Prop :=
  Transition.Reaches (step scheduler app) allowed start

def Anything : State α → Action α → Prop := fun _ _ ↦ True

/-! ## What a step can do -/

/-- Everything that a step of a handler can be. -/
inductive Handled (scheduler : Scheduler α) (app : AppState α) (client : ClientId)
    (alive : Bool) (engine : Scheduler.State α) (call : Call α) : Call α → Scheduler.State α → Prop
  | invalid {err : ApiError} (hstage : call.stage = .received)
      (herror : call.request.input app = .error err) :
      Handled scheduler app client alive engine call (call.goto (.failed err)) engine
  | valid {prompt : Str} {params : SubmitParams α} (hstage : call.stage = .received)
      (hinput : call.request.input app = .ok (prompt, params)) :
      Handled scheduler app client alive engine call (call.goto (.checking prompt params)) engine
  | dead (hstage : (∃ prompt params, call.stage = .checking prompt params) ∨
        ∃ params submission, call.stage = .rechecking params submission)
      (halive : alive = false) :
      Handled scheduler app client alive engine call (call.goto (.failed .unavailable)) engine
  | unbuilt {prompt : Str} {params : SubmitParams α} {err : ApiError}
      (hstage : call.stage = .checking prompt params)
      (herror : buildRequest app call.id client prompt params = .error err) :
      Handled scheduler app client alive engine call (call.goto (.failed err)) engine
  | built {prompt : Str} {params : SubmitParams α} {submission : Submission α}
      (hstage : call.stage = .checking prompt params)
      (hbuild : buildRequest app call.id client prompt params = .ok submission) :
      Handled scheduler app client alive engine call (call.goto (.rechecking params submission)) engine
  | alive {params : SubmitParams α} {submission : Submission α}
      (hstage : call.stage = .rechecking params submission) (halive : alive = true) :
      Handled scheduler app client alive engine call (call.goto (.enqueuing params submission)) engine
  | accepted {params : SubmitParams α} {submission : Submission α} {late : List ClientId}
      (hstage : call.stage = .enqueuing params submission)
      (hstep : Scheduler.step scheduler (.submit submission.request late) engine =
        some (Scheduler.accept submission.request
          (engine.prune (engine.queue.pruned (engine.isOpen late))
            ((engine.queue.retainOpen (engine.isOpen late)).push submission.request))))
      (hnew : submission.request.client ∉ engine.history.refused ∧
        submission.request.client ∉ engine.history.accepted.map GenerationRequest.client)
      (hopen : engine.queue.closed = false)
      (hroom : (engine.queue.retainOpen (engine.isOpen late)).requests.length < engine.queue.maxDepth) :
      Handled scheduler app client alive engine call
        { call with
          stage := .notifying params submission
          found := some (false, (engine.queue.retainOpen (engine.isOpen late)).requests.length) }
        (Scheduler.accept submission.request (engine.prune (engine.queue.pruned (engine.isOpen late))
          ((engine.queue.retainOpen (engine.isOpen late)).push submission.request)))
  | refused {params : SubmitParams α} {submission : Submission α} {late : List ClientId}
      (hstage : call.stage = .enqueuing params submission)
      (hstep : Scheduler.step scheduler (.submit submission.request late) engine =
        some (Scheduler.refuse submission.request
          (engine.prune (engine.queue.pruned (engine.isOpen late))
            (engine.queue.retainOpen (engine.isOpen late)))))
      (hnew : submission.request.client ∉ engine.history.refused ∧
        submission.request.client ∉ engine.history.accepted.map GenerationRequest.client)
      (hrefused : engine.queue.closed = true ∨ engine.queue.maxDepth ≤
        (engine.queue.retainOpen (engine.isOpen late)).requests.length) :
      Handled scheduler app client alive engine call
        { call with
          stage := .classifying
          found := some (engine.queue.closed,
            (engine.queue.retainOpen (engine.isOpen late)).requests.length) }
        (Scheduler.refuse submission.request (engine.prune
          (engine.queue.pruned (engine.isOpen late)) (engine.queue.retainOpen (engine.isOpen late))))
  | notified {params : SubmitParams α} {submission : Submission α}
      (hstage : call.stage = .notifying params submission) (hpending : engine.pendingNotifies ≠ 0) :
      Handled scheduler app client alive engine call (call.goto (.serving params submission))
        { engine with permit := true, pendingNotifies := engine.pendingNotifies - 1 }
  | classified (hstage : call.stage = .classifying) :
      Handled scheduler app client alive engine call
        (call.goto (.failed (if engine.queue.closed then .unavailable else .queueFull))) engine

theorem handled_of_handle {scheduler : Scheduler α} {app : AppState α} {client : ClientId}
    {late : List ClientId} {alive : Bool} {engine engine' : Scheduler.State α} {call call' : Call α}
    (hhandle : handle scheduler app client late alive engine call = some (call', engine')) :
    Handled scheduler app client alive engine call call' engine' := by
  unfold handle at hhandle
  split at hhandle
  · rename_i hstage
    split at hhandle
    · rename_i herror
      cases hhandle
      exact .invalid hstage herror
    · rename_i hinput
      cases hhandle
      exact .valid hstage hinput
  · rename_i hstage
    split at hhandle
    · split at hhandle
      · rename_i herror
        cases hhandle
        exact .unbuilt hstage herror
      · rename_i hbuild
        cases hhandle
        exact .built hstage hbuild
    · rename_i halive
      cases hhandle
      exact .dead (Or.inl ⟨_, _, hstage⟩) (Bool.not_eq_true _ ▸ halive)
  · rename_i hstage
    split at hhandle
    · rename_i halive
      cases hhandle
      exact .alive hstage halive
    · rename_i halive
      cases hhandle
      exact .dead (Or.inr ⟨_, _, hstage⟩) (Bool.not_eq_true _ ▸ halive)
  · rename_i params submission hstage
    obtain ⟨after, hsubmit, hafter⟩ := Option.map_eq_some_iff.mp hhandle
    cases hafter
    have hstep : Scheduler.step scheduler (.submit submission.request late) engine = some engine' :=
      hsubmit
    unfold Scheduler.submit at hsubmit
    split at hsubmit
    · cases hsubmit
    · rename_i hnew
      rw [not_or] at hnew
      dsimp only at hsubmit
      rcases RequestQueue.submit_cases (engine.isOpen late) submission.request engine.queue with
        ⟨hqueue, hrefused⟩ | ⟨hqueue, hopen, hroom⟩
      · rw [hqueue] at hsubmit ⊢
        obtain rfl := Option.some.inj hsubmit
        exact .refused hstage hstep hnew hrefused
      · rw [hqueue] at hsubmit ⊢
        obtain rfl := Option.some.inj hsubmit
        rw [hopen]
        exact .accepted hstage hstep hnew hopen hroom
  · rename_i hstage
    obtain ⟨after, hnotify, hafter⟩ := Option.map_eq_some_iff.mp hhandle
    cases hafter
    cases Scheduler.step_cases hnotify with
    | notify hpending => exact .notified hstage hpending
  · rename_i hstage
    cases hhandle
    exact .classified hstage
  · cases hhandle
  · cases hhandle

/-- The step of the engine that an action is. -/
def Action.inner : Action α → Option (Scheduler.Action α)
  | engine late => some (.sched late)
  | engineShutdown => some .schedShutdown
  | connection client action => some (.client client action)
  | shutdown => some .shutdown
  | call _ _ | handler _ _ | engineEnded => none

/-- Everything that a step of the service can be. -/
inductive Step (scheduler : Scheduler α) (app : AppState α) (s : State α) : Action α → State α → Prop
  | call {id : String} {request : ApiRequest α}
      (hfits : fits app request (s.engine.clients s.calls.length).capacity = true) :
      Step scheduler app s (.call id request)
        { s with calls := s.calls ++ [⟨id, request, .received, none⟩] }
  | handler {client : ClientId} {late : List ClientId} {call call' : Call α}
      {engine' : Scheduler.State α} (hcall : s.calls[client]? = some call)
      (hhandled : Handled scheduler app client s.alive s.engine call call' engine') :
      Step scheduler app s (.handler client late)
        { s with calls := s.calls.set client call', engine := engine' }
  | engine {action : Action α} {inner : Scheduler.Action α} {engine' : Scheduler.State α}
      (hinner : action.inner = some inner) (hengine : Scheduler.step scheduler inner s.engine = some engine') :
      Step scheduler app s action { s with engine := engine' }
  | ended (hpc : s.engine.pc = .returned) (halive : s.alive = true) :
      Step scheduler app s .engineEnded { s with alive := false }

omit [FiniteCheck α] in
theorem exists_of_stepEngine {scheduler : Scheduler α} {action : Scheduler.Action α} {s s' : State α}
    (hstep : stepEngine scheduler action s = some s') :
    ∃ engine', Scheduler.step scheduler action s.engine = some engine' ∧
      s' = { s with engine := engine' } := by
  obtain ⟨engine', hengine, rfl⟩ := Option.map_eq_some_iff.mp hstep
  exact ⟨engine', hengine, rfl⟩

theorem step_cases {scheduler : Scheduler α} {app : AppState α} {action : Action α} {s s' : State α}
    (hstep : step scheduler app action s = some s') : Step scheduler app s action s' := by
  cases action with
  | call id request =>
      change (if _ then _ else _) = _ at hstep
      split at hstep
      · rename_i hfits
        exact Option.some.inj hstep ▸ .call hfits
      · cases hstep
  | handler client late =>
      unfold step at hstep
      dsimp only at hstep
      split at hstep
      · cases hstep
      · rename_i call hcall
        obtain ⟨after, hhandle, rfl⟩ := Option.map_eq_some_iff.mp hstep
        exact .handler hcall (handled_of_handle hhandle)
  | engine late =>
      obtain ⟨engine', hengine, rfl⟩ := exists_of_stepEngine hstep
      exact .engine rfl hengine
  | engineShutdown =>
      obtain ⟨engine', hengine, rfl⟩ := exists_of_stepEngine hstep
      exact .engine rfl hengine
  | engineEnded =>
      unfold step at hstep
      dsimp only at hstep
      split at hstep
      · rename_i hpc
        split at hstep
        · rename_i halive
          exact Option.some.inj hstep ▸ .ended hpc halive
        · cases hstep
      · cases hstep
  | connection client action =>
      unfold step at hstep
      dsimp only at hstep
      split at hstep
      · obtain ⟨engine', hengine, rfl⟩ := exists_of_stepEngine hstep
        exact .engine rfl hengine
      · cases hstep
  | shutdown =>
      obtain ⟨engine', hengine, rfl⟩ := exists_of_stepEngine hstep
      exact .engine rfl hengine

/-! ## The engine of the service is the scheduler -/

section Engine

variable {scheduler : Scheduler α} {app : AppState α} {client : ClientId} {alive : Bool}
  {engine engine' : Scheduler.State α} {call call' : Call α}

/-- The call has this request in hand, if the action is a submission. -/
def Call.Submits (call : Call α) : Scheduler.Action α → Prop
  | .submit req _ => ∃ params submission,
      call.stage = .enqueuing params submission ∧ submission.request = req
  | _ => True

/-- What is submitted comes from one of the calls. -/
def State.Submits (s : State α) : Scheduler.Action α → Prop
  | .submit req late => ∃ (client : ClientId) (call : Call α),
      s.calls[client]? = some call ∧ call.Submits (.submit req late)
  | _ => True

/-- A handler leaves the engine alone or takes a step of a submitter. -/
theorem Handled.engine_step (hhandled : Handled scheduler app client alive engine call call' engine') :
    engine' = engine ∨ ∃ action, call.Submits action ∧
      Scheduler.step scheduler action engine = some engine' := by
  cases hhandled with
  | accepted hstage hstep _ _ _ => exact Or.inr ⟨.submit _ _, ⟨_, _, hstage, rfl⟩, hstep⟩
  | refused hstage hstep _ _ => exact Or.inr ⟨.submit _ _, ⟨_, _, hstage, rfl⟩, hstep⟩
  | notified _ hpending =>
      refine Or.inr ⟨.notify, trivial, ?_⟩
      exact if_neg hpending
  | invalid _ _ | valid _ _ | dead _ _ | unbuilt _ _ | built _ _ | alive _ _ | classified _ =>
      exact Or.inl rfl

theorem Step.engine_step {s s' : State α} {action : Action α} (hstep : Step scheduler app s action s') :
    s'.engine = s.engine ∨ ∃ inner, s.Submits inner ∧
      Scheduler.step scheduler inner s.engine = some s'.engine := by
  cases hstep with
  | call _ => exact Or.inl rfl
  | @handler client _ call _ _ hcall hhandled =>
      rcases hhandled.engine_step with heq | ⟨inner, hsubmits, hinner⟩
      · exact Or.inl heq
      · refine Or.inr ⟨inner, ?_, hinner⟩
        cases inner with
        | submit _ _ => exact ⟨client, call, hcall, hsubmits⟩
        | sched _ | schedShutdown | notify | client _ _ | shutdown => trivial
  | @engine _ inner _ hinner hengine =>
      refine Or.inr ⟨inner, ?_, hengine⟩
      cases inner with
      | submit _ _ => cases action <;> cases hinner
      | sched _ | schedShutdown | notify | client _ _ | shutdown => trivial
  | ended _ _ => exact Or.inl rfl

/-- **The service runs the scheduler.** -/
theorem engine_reachable {kvCache : SlabKvCache (KvTensor α)} {maxDepth : ℕ} {capacity : ClientId → ℕ}
    {s : State α} (hreach : Reaches scheduler app Anything (init kvCache maxDepth capacity) s) :
    Scheduler.Reaches scheduler Scheduler.Anything (Scheduler.init kvCache maxDepth capacity)
      s.engine := by
  induction hreach with
  | refl => exact .refl
  | step _ _ hnext ih =>
      rcases (step_cases hnext).engine_step with heq | ⟨inner, -, hinner⟩
      · rw [heq]
        exact ih
      · exact ih.step trivial hinner

theorem Step.lasts {s s' : State α} {action : Action α} (hstep : Step scheduler app s action s') :
    Scheduler.Lasts s.engine s'.engine := by
  rcases hstep.engine_step with heq | ⟨inner, -, hinner⟩
  · rw [heq]
    exact .refl _
  · exact Scheduler.lasts_step hinner

theorem lasts_reaches {allowed : State α → Action α → Prop} {s s' : State α}
    (hrun : Reaches scheduler app allowed s s') : Scheduler.Lasts s.engine s'.engine := by
  induction hrun with
  | refl => exact .refl _
  | step _ _ hnext ih => exact ih.trans (step_cases hnext).lasts

end Engine

/-! ## What is known of a call -/

section Calls

/-- The request has been validated and made. -/
def Call.Made (app : AppState α) (client : ClientId) (params : SubmitParams α)
    (submission : Submission α) (call : Call α) : Prop :=
  ∃ prompt, call.request.input app = .ok (prompt, params) ∧
    buildRequest app call.id client prompt params = .ok submission

/-- Why a call fails. -/
inductive Call.Explains (app : AppState α) (maxDepth : ℕ) (client : ClientId)
    (engine : Scheduler.State α) (call : Call α) : ApiError → Prop
  | invalid {err : ApiError} (herror : call.request.input app = .error err) :
      Call.Explains app maxDepth client engine call err
  | unbuilt {prompt : Str} {params : SubmitParams α} {err : ApiError}
      (hinput : call.request.input app = .ok (prompt, params))
      (herror : buildRequest app call.id client prompt params = .error err) :
      Call.Explains app maxDepth client engine call err
  | unavailable (hshutdown : engine.shutdown = true) :
      Call.Explains app maxDepth client engine call .unavailable
  | queueFull {live : ℕ} (hfound : call.found = some (false, live)) (hfull : maxDepth ≤ live) :
      Call.Explains app maxDepth client engine call .queueFull

def Call.Sound (app : AppState α) (maxDepth : ℕ) (client : ClientId) (engine : Scheduler.State α)
    (call : Call α) : Prop :=
  match call.stage with
  | .received => call.found = none
  | .checking prompt params => call.request.input app = .ok (prompt, params) ∧ call.found = none
  | .rechecking params submission | .enqueuing params submission =>
      call.Made app client params submission ∧ call.found = none
  | .notifying params submission | .serving params submission =>
      call.Made app client params submission ∧ submission.request ∈ engine.history.accepted ∧
        ∃ live, call.found = some (false, live) ∧ live < maxDepth
  | .classifying => ∃ closed live, call.found = some (closed, live) ∧
      (closed = true → engine.queue.closed = true) ∧ (closed = false → maxDepth ≤ live)
  | .failed err => call.Explains app maxDepth client engine err

variable {scheduler : Scheduler α} {app : AppState α} {maxDepth : ℕ} {client : ClientId}
  {engine engine' : Scheduler.State α} {call call' : Call α}

theorem Call.Explains.mono {err : ApiError} (hlasts : Scheduler.Lasts engine engine')
    (hexplains : call.Explains app maxDepth client engine err) :
    call.Explains app maxDepth client engine' err := by
  cases hexplains with
  | invalid herror => exact .invalid herror
  | unbuilt hinput herror => exact .unbuilt hinput herror
  | unavailable hshutdown => exact .unavailable (hlasts.shutdown hshutdown)
  | queueFull hfound hfull => exact .queueFull hfound hfull

theorem Call.Sound.mono (hlasts : Scheduler.Lasts engine engine')
    (hsound : call.Sound app maxDepth client engine) : call.Sound app maxDepth client engine' := by
  unfold Call.Sound at hsound ⊢
  cases hstage : call.stage with
  | received | checking _ _ | rechecking _ _ | enqueuing _ _ =>
      rw [hstage] at hsound
      exact hsound
  | notifying _ _ | serving _ _ =>
      rw [hstage] at hsound
      obtain ⟨hmade, haccepted, hfound⟩ := hsound
      exact ⟨hmade, hlasts.accepted haccepted, hfound⟩
  | classifying =>
      rw [hstage] at hsound
      obtain ⟨closed, live, hfound, hclosed, hfull⟩ := hsound
      exact ⟨closed, live, hfound, fun h ↦ hlasts.closed (hclosed h), hfull⟩
  | failed err =>
      rw [hstage] at hsound
      exact hsound.mono hlasts

/-- A request that has been handed over is the call's own, and the engine has accepted it. -/
theorem Call.Sound.handedOver {params : SubmitParams α} {submission : Submission α}
    (hsound : call.Sound app maxDepth client engine)
    (hstage : call.stage = .notifying params submission ∨ call.stage = .serving params submission) :
    call.Made app client params submission ∧ submission.request.client = client ∧
      submission.request ∈ engine.history.accepted := by
  have hmade : call.Made app client params submission ∧
      submission.request ∈ engine.history.accepted := by
    unfold Call.Sound at hsound
    rcases hstage with hstage | hstage
    · rw [hstage] at hsound
      exact ⟨hsound.1, hsound.2.1⟩
    · rw [hstage] at hsound
      exact ⟨hsound.1, hsound.2.1⟩
  obtain ⟨prompt, -, hbuild⟩ := hmade.1
  exact ⟨hmade.1, (channel_of_buildRequest hbuild).1, hmade.2⟩

/-- A handler that still has its request in hand has not submitted it. -/
theorem Handled.sound {alive : Bool} (hhandled : Handled scheduler app client alive engine call call' engine')
    (hsound : call.Sound app maxDepth client engine)
    (hdead : alive = false → engine.shutdown = true)
    (hclosed : engine.queue.closed = true → engine.shutdown = true)
    (hdepth : engine.queue.maxDepth = maxDepth) :
    call'.Sound app maxDepth client engine' := by
  unfold Call.Sound at hsound
  cases hhandled with
  | invalid hstage herror => exact .invalid herror
  | valid hstage hinput =>
      rw [hstage] at hsound
      exact ⟨hinput, hsound⟩
  | dead hstage halive => exact .unavailable (hdead halive)
  | unbuilt hstage herror =>
      rw [hstage] at hsound
      exact .unbuilt hsound.1 herror
  | built hstage hbuild =>
      rw [hstage] at hsound
      exact ⟨⟨_, hsound.1, hbuild⟩, hsound.2⟩
  | alive hstage halive =>
      rw [hstage] at hsound
      exact hsound
  | accepted hstage hstep hnew hopen hroom =>
      rw [hstage] at hsound
      refine ⟨hsound.1, List.mem_append_right _ (List.mem_singleton.mpr rfl), _, rfl, ?_⟩
      rwa [hdepth] at hroom
  | refused hstage hstep hnew hrefused =>
      rw [hstage] at hsound
      refine ⟨_, _, rfl, id, fun hopen ↦ ?_⟩
      rw [← hdepth]
      refine hrefused.resolve_left ?_
      rw [hopen]
      exact Bool.false_ne_true
  | notified hstage hpending =>
      rw [hstage] at hsound
      exact hsound
  | classified hstage =>
      rw [hstage] at hsound
      obtain ⟨closed, live, hfound, hstillClosed, hfull⟩ := hsound
      cases hnow : engine.queue.closed with
      | true => exact .unavailable (hclosed hnow)
      | false =>
          have hopen : closed = false := by
            cases closed with
            | true => exact absurd (hnow.symm.trans (hstillClosed rfl)) Bool.false_ne_true
            | false => rfl
          rw [hopen] at hfound
          exact .queueFull hfound (hfull hopen)

/-- A request that has been handed over stays with its call. -/
theorem Handled.handedOver {alive : Bool}
    (hhandled : Handled scheduler app client alive engine call call' engine')
    {params : SubmitParams α} {submission : Submission α}
    (hstage : call.stage = .notifying params submission ∨ call.stage = .serving params submission) :
    call'.stage = .serving params submission := by
  have hnot : ∀ {stage : Stage α}, call.stage = stage → stage = .notifying params submission ∨
      stage = .serving params submission := fun heq ↦ heq ▸ hstage
  cases hhandled with
  | notified hcalled _ =>
      rcases hnot hcalled with heq | heq
      · injection heq with hparams hsubmission
        rw [hparams, hsubmission]
        rfl
      · cases heq
  | dead hcalled _ =>
      rcases hcalled with ⟨_, _, hcalled⟩ | ⟨_, _, hcalled⟩ <;> rcases hnot hcalled with heq | heq <;>
        cases heq
  | invalid hcalled _ | valid hcalled _ | unbuilt hcalled _ | built hcalled _ | alive hcalled _
  | accepted hcalled _ _ _ _ | refused hcalled _ _ _ | classified hcalled =>
      rcases hnot hcalled with heq | heq <;> cases heq

theorem Handled.found {alive : Bool}
    (hhandled : Handled scheduler app client alive engine call call' engine')
    (hfound : call.found.isSome = true) : call'.found.isSome = true := by
  cases hhandled with
  | accepted _ _ _ _ _ | refused _ _ _ _ => rfl
  | invalid _ _ | valid _ _ | dead _ _ | unbuilt _ _ | built _ _ | alive _ _ | notified _ _
  | classified _ => exact hfound

theorem Handled.request_eq {alive : Bool}
    (hhandled : Handled scheduler app client alive engine call call' engine') :
    call'.request = call.request := by
  cases hhandled <;> rfl

def Call.isNotifying (call : Call α) : Bool :=
  match call.stage with
  | .notifying _ _ => true
  | _ => false

omit [Kernels α] [FiniteCheck α] in
theorem isNotifying_of_stage {params : SubmitParams α} {submission : Submission α}
    (hstage : call.stage = .notifying params submission) : call.isNotifying = true := by
  unfold Call.isNotifying
  rw [hstage]

/-- The wakeups on their way are those of the handlers between push and `notify_one`. -/
theorem Handled.notifies {alive : Bool}
    (hhandled : Handled scheduler app client alive engine call call' engine') :
    engine'.pendingNotifies + (if call.isNotifying then 1 else 0) =
      engine.pendingNotifies + if call'.isNotifying then 1 else 0 := by
  have hidle : ∀ {stage : Stage α}, call.stage = stage → (∀ params submission,
      stage ≠ .notifying params submission) → call.isNotifying = false := by
    intro stage hstage hnot
    unfold Call.isNotifying
    split
    · rename_i params submission hnotifying
      exact absurd (hstage.symm.trans hnotifying) (hnot params submission)
    · rfl
  cases hhandled with
  | notified hstage hpending =>
      rw [isNotifying_of_stage hstage]
      exact Nat.sub_add_cancel (Nat.pos_of_ne_zero hpending)
  | accepted hstage _ _ _ _ =>
      rw [hidle hstage nofun]
      rfl
  | dead hstage _ =>
      rcases hstage with ⟨_, _, hstage⟩ | ⟨_, _, hstage⟩
      · rw [hidle hstage nofun]
        rfl
      · rw [hidle hstage nofun]
        rfl
  | invalid hstage _ | valid hstage _ | unbuilt hstage _ | built hstage _ | alive hstage _
  | refused hstage _ _ _ | classified hstage =>
      rw [hidle hstage nofun]
      rfl

end Calls

/-! ## The invariant of the service -/

/-- What the calls know of the engine and the engine of the calls. -/
structure Linked (app : AppState α) (maxDepth : ℕ) (s : State α) : Prop where
  maxDepth_eq : s.engine.queue.maxDepth = maxDepth
  calls : ∀ (client : ClientId) (call : Call α), s.calls[client]? = some call →
    call.Sound app maxDepth client s.engine
  accepted : ∀ req ∈ s.engine.history.accepted, ∃ call params submission,
    s.calls[req.client]? = some call ∧ submission.request = req ∧
      (call.stage = .notifying params submission ∨ call.stage = .serving params submission)
  refused : ∀ client ∈ s.engine.history.refused, ∃ call, s.calls[client]? = some call ∧
    call.found.isSome = true
  notifies : s.engine.pendingNotifies = s.calls.countP Call.isNotifying
  alive : s.alive = false → s.engine.pc = .returned

section Invariant

variable {scheduler : Scheduler α} {app : AppState α} {maxDepth : ℕ} {s s' : State α}

omit [FiniteCheck α] in
/-- What the engine does by itself is no business of the submitters. -/
theorem inner_step {action : Action α} {inner : Scheduler.Action α}
    {engine engine' : Scheduler.State α} (hinner : action.inner = some inner)
    (hengine : Scheduler.step scheduler inner engine = some engine') :
    engine'.history.accepted = engine.history.accepted ∧
      engine'.history.refused = engine.history.refused ∧
      engine'.pendingNotifies = engine.pendingNotifies := by
  cases Scheduler.step_cases hengine with
  | sched hsched =>
      obtain ⟨hrefused, hpending⟩ := Scheduler.submitters_schedStep hsched
      exact ⟨(Scheduler.effect_schedStep hsched).accepted_eq, hrefused, hpending⟩
  | schedShutdown _ _ | client _ | shutdown => exact ⟨rfl, rfl, rfl⟩
  | refuse _ _ | accept _ _ _ | notify _ => cases action <;> cases hinner

omit [Kernels α] [FiniteCheck α] in
theorem getElem?_calls_set {client : ClientId} {call : Call α} (call' : Call α) (other : ClientId)
    (hcall : s.calls[client]? = some call) : (s.calls.set client call')[other]? =
      if other = client then some call' else s.calls[other]? := by
  have hlt : client < s.calls.length := (List.getElem?_eq_some_iff.mp hcall).1
  by_cases heq : other = client
  · rw [heq, if_pos rfl, List.getElem?_set_self hlt]
  · rw [if_neg heq, List.getElem?_set_ne (Ne.symm heq)]

/-- The request in the hands of a handler is its own, and `submit` has not been called. -/
theorem Linked.client_eq (hlinked : Linked app maxDepth s) {client : ClientId} {call : Call α}
    (hcall : s.calls[client]? = some call) {params : SubmitParams α} {submission : Submission α}
    (hstage : call.stage = .enqueuing params submission) : submission.request.client = client := by
  have hsound := hlinked.calls client call hcall
  unfold Call.Sound at hsound
  rw [hstage] at hsound
  obtain ⟨⟨prompt, -, hbuild⟩, -⟩ := hsound
  exact (channel_of_buildRequest hbuild).1

/-- Before `submit` the engine has never heard of the call. -/
theorem Linked.unsubmitted (hlinked : Linked app maxDepth s) {client : ClientId} {call : Call α}
    (hcall : s.calls[client]? = some call) (hfound : call.found = none) :
    client ∉ s.engine.history.refused ∧
      client ∉ s.engine.history.accepted.map GenerationRequest.client := by
  constructor
  · intro hrefused
    obtain ⟨other, hother, hsome⟩ := hlinked.refused client hrefused
    obtain rfl : other = call := Option.some.inj (hother.symm.trans hcall)
    rw [hfound] at hsome
    cases hsome
  · intro haccepted
    obtain ⟨req, hreq, hsame⟩ := List.mem_map.mp haccepted
    obtain ⟨other, _, _, hother, -, hhanded⟩ := hlinked.accepted req hreq
    rw [hsame] at hother
    obtain rfl : other = call := Option.some.inj (hother.symm.trans hcall)
    have hsound := hlinked.calls client other hcall
    unfold Call.Sound at hsound
    rcases hhanded with hstage | hstage
    · rw [hstage] at hsound
      obtain ⟨-, -, live, hlive, -⟩ := hsound
      cases hfound.symm.trans hlive
    · rw [hstage] at hsound
      obtain ⟨-, -, live, hlive, -⟩ := hsound
      cases hfound.symm.trans hlive

theorem Linked.fresh (hlinked : Linked app maxDepth s) {client : ClientId} {call : Call α}
    (hcall : s.calls[client]? = some call) {params : SubmitParams α} {submission : Submission α}
    (hstage : call.stage = .enqueuing params submission) :
    submission.request.client ∉ s.engine.history.refused ∧
      submission.request.client ∉ s.engine.history.accepted.map GenerationRequest.client := by
  have hsound := hlinked.calls client call hcall
  unfold Call.Sound at hsound
  rw [hstage] at hsound
  rw [hlinked.client_eq hcall hstage]
  exact hlinked.unsubmitted hcall hsound.2

section Handlers

variable {client : ClientId} {call call' : Call α} {engine' : Scheduler.State α}
  (hlinked : Linked app maxDepth s) (hcall : s.calls[client]? = some call)
  (hhandled : Handled scheduler app client s.alive s.engine call call' engine')

include hlinked hcall hhandled

/-- The handler that hands a request over is the one that made it. -/
theorem accepted_handled : ∀ req ∈ engine'.history.accepted, ∃ call params submission,
    (s.calls.set client call')[req.client]? = some call ∧ submission.request = req ∧
      (call.stage = .notifying params submission ∨ call.stage = .serving params submission) := by
  have hset := fun other ↦ getElem?_calls_set call' other hcall
  have hkept : ∀ req ∈ s.engine.history.accepted, ∃ call params submission,
      (s.calls.set client call')[req.client]? = some call ∧ submission.request = req ∧
        (call.stage = .notifying params submission ∨ call.stage = .serving params submission) := by
    intro req hreq
    obtain ⟨other, params, submission, hother, hrequest, hstage⟩ := hlinked.accepted req hreq
    rw [hset]
    by_cases heq : req.client = client
    · rw [heq, hcall] at hother
      obtain rfl := Option.some.inj hother
      rw [if_pos heq]
      exact ⟨call', params, submission, rfl, hrequest, Or.inr (hhandled.handedOver hstage)⟩
    · rw [if_neg heq]
      exact ⟨other, params, submission, hother, hrequest, hstage⟩
  cases hhandled with
  | @accepted params submission _ hstage _ _ _ _ =>
      intro req hreq
      rcases List.mem_append.mp hreq with hbefore | hnew
      · exact hkept req hbefore
      · obtain rfl := List.mem_singleton.mp hnew
        rw [hset, if_pos (hlinked.client_eq hcall hstage)]
        exact ⟨_, params, submission, rfl, rfl, Or.inl rfl⟩
  | invalid _ _ | valid _ _ | dead _ _ | unbuilt _ _ | built _ _ | alive _ _ | refused _ _ _ _
  | notified _ _ | classified _ => exact hkept

theorem refused_handled : ∀ other ∈ engine'.history.refused, ∃ call,
    (s.calls.set client call')[other]? = some call ∧ call.found.isSome = true := by
  have hset := fun other ↦ getElem?_calls_set call' other hcall
  have hkept : ∀ other ∈ s.engine.history.refused, ∃ call,
      (s.calls.set client call')[other]? = some call ∧ call.found.isSome = true := by
    intro other hrefused
    obtain ⟨before, hbefore, hfound⟩ := hlinked.refused other hrefused
    rw [hset]
    by_cases heq : other = client
    · rw [heq, hcall] at hbefore
      obtain rfl := Option.some.inj hbefore
      rw [if_pos heq]
      exact ⟨call', rfl, hhandled.found hfound⟩
    · rw [if_neg heq]
      exact ⟨before, hbefore, hfound⟩
  cases hhandled with
  | @refused params submission _ hstage _ _ _ =>
      intro other hother
      rcases List.mem_append.mp hother with hbefore | hnew
      · exact hkept other hbefore
      · obtain rfl := List.mem_singleton.mp hnew
        rw [hset, if_pos (hlinked.client_eq hcall hstage)]
        exact ⟨_, rfl, rfl⟩
  | invalid _ _ | valid _ _ | dead _ _ | unbuilt _ _ | built _ _ | alive _ _ | accepted _ _ _ _ _
  | notified _ _ | classified _ => exact hkept

theorem notifies_handled :
    engine'.pendingNotifies = (s.calls.set client call').countP Call.isNotifying := by
  have hlt : client < s.calls.length := (List.getElem?_eq_some_iff.mp hcall).1
  have hsame : s.calls[client] = call := (List.getElem?_eq_some_iff.mp hcall).2
  have hnotifies := hhandled.notifies
  have hcount : (if call.isNotifying then 1 else 0) ≤ s.engine.pendingNotifies := by
    rw [hlinked.notifies]
    split
    · rename_i hnotifying
      exact List.countP_pos_iff.mpr ⟨call, List.mem_of_getElem? hcall, hnotifying⟩
    · exact Nat.zero_le _
  rw [List.countP_set hlt, hsame, ← hlinked.notifies]
  omega

end Handlers

/-- **Every step of anybody keeps calls and engine in line.** -/
theorem linked_step {action : Action α} (hlinked : Linked app maxDepth s)
    (hdead : s.alive = false → s.engine.shutdown = true)
    (hclosed : s.engine.queue.closed = true → s.engine.shutdown = true)
    (hstep : Step scheduler app s action s') : Linked app maxDepth s' := by
  have hlasts := hstep.lasts
  have halive : s'.alive = s.alive → s'.alive = false → s'.engine.pc = .returned := fun heq hnot ↦
    hlasts.returned (hlinked.alive (heq ▸ hnot))
  cases hstep with
  | @call id request _ =>
      have hold : ∀ {client : ClientId} {call : Call α}, s.calls[client]? = some call →
          (s.calls ++ [⟨id, request, .received, none⟩])[client]? = some call := by
        intro client call hcall
        rw [List.getElem?_append_left (List.getElem?_eq_some_iff.mp hcall).1]
        exact hcall
      refine ⟨hlinked.maxDepth_eq, ?_, ?_, ?_, ?_, halive rfl⟩
      · intro client call hcall
        rw [List.getElem?_append] at hcall
        split at hcall
        · exact hlinked.calls client call hcall
        · obtain rfl := List.mem_singleton.mp (List.mem_of_getElem? hcall)
          exact rfl
      · intro req hreq
        obtain ⟨call, params, submission, hcall, hrest⟩ := hlinked.accepted req hreq
        exact ⟨call, params, submission, hold hcall, hrest⟩
      · intro client hrefused
        obtain ⟨call, hcall, hfound⟩ := hlinked.refused client hrefused
        exact ⟨call, hold hcall, hfound⟩
      · rw [List.countP_append]
        exact hlinked.notifies
  | @handler client late call call' engine' hcall hhandled =>
      refine ⟨hlasts.maxDepth_eq.trans hlinked.maxDepth_eq, ?_, accepted_handled hlinked hcall hhandled,
        refused_handled hlinked hcall hhandled, notifies_handled hlinked hcall hhandled, halive rfl⟩
      intro other others hothers
      rw [getElem?_calls_set _ _ hcall] at hothers
      split at hothers
      · rename_i heq
        obtain rfl := Option.some.inj hothers
        rw [heq]
        exact hhandled.sound (hlinked.calls client call hcall) hdead hclosed hlinked.maxDepth_eq
      · exact (hlinked.calls other others hothers).mono hlasts
  | engine hinner hengine =>
      obtain ⟨haccepted, hrefused, hpending⟩ := inner_step hinner hengine
      refine ⟨hlasts.maxDepth_eq.trans hlinked.maxDepth_eq, ?_, ?_, ?_, ?_, halive rfl⟩
      · exact fun client call hcall ↦ (hlinked.calls client call hcall).mono hlasts
      · exact haccepted ▸ hlinked.accepted
      · exact hrefused ▸ hlinked.refused
      · exact hpending.trans hlinked.notifies
  | ended hpc _ =>
      exact ⟨hlinked.maxDepth_eq, hlinked.calls, hlinked.accepted, hlinked.refused,
        hlinked.notifies, fun _ ↦ hpc⟩

end Invariant

/-! ## A handler on its own -/

section Alone

variable {scheduler : Scheduler α} {app : AppState α} {maxDepth : ℕ} {s : State α}
  {client : ClientId} {call : Call α} {late : List ClientId}

/-- What `submit_prompt` reads while nobody else moves. -/
def State.moment (late : List ClientId) (s : State α) : Moment α where
  alive := s.alive
  stillAlive := s.alive
  queue := s.engine.queue
  isOpen := s.engine.isOpen late
  queueClosed := s.engine.queue.closed
  shutdown := s.engine.shutdown
  accepted := 0
  stillShutdown := s.engine.shutdown

/-- Where the call stands after `submit_prompt`. -/
def Stage.ofResult (params : SubmitParams α) :
    Except ApiError (Submission α × ℕ × List Str) → Stage α
  | .error err => .failed err
  | .ok (submission, _, _) => .serving params submission

/-- Only this handler takes steps. -/
def Alone (client : ClientId) (late : List ClientId) : State α → Action α → Prop :=
  fun _ action ↦ action = .handler client late

/-- A step of the handler leads to a state from which it goes on. -/
theorem alone_step (call' : Call α) (engine' : Scheduler.State α) {stage : Stage α}
    (hcall : s.calls[client]? = some call)
    (hhandle : handle scheduler app client late s.alive s.engine call = some (call', engine'))
    (hrest : ({ s with calls := s.calls.set client call', engine := engine' } : State α).calls[client]? =
        some call' → ∃ s' call'', Reaches scheduler app (Alone client late)
          { s with calls := s.calls.set client call', engine := engine' } s' ∧
        s'.calls[client]? = some call'' ∧ call''.stage = stage) :
    ∃ s' call'', Reaches scheduler app (Alone client late) s s' ∧
      s'.calls[client]? = some call'' ∧ call''.stage = stage := by
  have hset : (s.calls.set client call')[client]? = some call' := by
    rw [getElem?_calls_set _ _ hcall, if_pos rfl]
  obtain ⟨s', call'', hrun, hend⟩ := hrest hset
  refine ⟨s', call'', ?_, hend⟩
  have hstep : step scheduler app (.handler client late) s =
      some { s with calls := s.calls.set client call', engine := engine' } := by
    unfold step
    dsimp only
    rw [hcall]
    dsimp only
    rw [hhandle]
    rfl
  exact Transition.Reaches.trans (.step .refl rfl hstep) hrun

theorem alone_end {stage : Stage α} (hcall : s.calls[client]? = some call) (hstage : call.stage = stage) :
    ∃ s' call', Reaches scheduler app (Alone client late) s s' ∧ s'.calls[client]? = some call' ∧
      call'.stage = stage :=
  ⟨s, call, .refl, hcall, hstage⟩

/-- From the hand-over on. -/
theorem alone_enqueuing (scheduler : Scheduler α) (late : List ClientId) {inner : Scheduler α}
    {kvCache : SlabKvCache (KvTensor α)} {depth : ℕ}
    (hengine : app.engine = .continuous inner kvCache depth) {params : SubmitParams α}
    {submission : Submission α} (hcall : s.calls[client]? = some call)
    (hstage : call.stage = .enqueuing params submission)
    (hfresh : submission.request.client ∉ s.engine.history.refused ∧
      submission.request.client ∉ s.engine.history.accepted.map GenerationRequest.client) :
    ∃ s' call', Reaches scheduler app (Alone client late) s s' ∧ s'.calls[client]? = some call' ∧
      call'.stage = .ofResult params
        ((enqueue app.engine (s.moment late) submission.request).map fun _ ↦
          (submission, submission.request.promptLen, params.stops)) := by
  rcases RequestQueue.submit_cases (s.engine.isOpen late) submission.request s.engine.queue with
    ⟨hqueue, -⟩ | ⟨hqueue, -⟩
  · have henqueue : enqueue app.engine (s.moment late) submission.request =
        .error (if s.engine.queue.closed then .unavailable else .queueFull) := by
      unfold enqueue State.moment
      rw [hengine]
      dsimp only
      rw [hqueue]
      cases s.engine.queue.closed <;> rfl
    rw [henqueue]
    have hhandle : ∃ call' engine', handle scheduler app client late s.alive s.engine call =
        some (call', engine') ∧ call'.stage = .classifying ∧
          engine'.queue.closed = s.engine.queue.closed := by
      unfold handle Scheduler.submit
      rw [hstage]
      dsimp only
      rw [if_neg (not_or.mpr hfresh), hqueue]
      exact ⟨_, _, rfl, rfl, rfl⟩
    obtain ⟨call', engine', hhandle, hstage', hclosed⟩ := hhandle
    refine alone_step call' engine' hcall hhandle fun hcall' ↦ ?_
    refine alone_step (call'.goto (.failed
      (if s.engine.queue.closed then .unavailable else .queueFull))) engine' hcall' ?_
      fun hcall'' ↦ alone_end hcall'' rfl
    unfold handle
    rw [hstage']
    dsimp only
    rw [hclosed]
  · have henqueue : enqueue app.engine (s.moment late) submission.request = .ok () := by
      unfold enqueue State.moment
      rw [hengine]
      dsimp only
      rw [hqueue]
      rfl
    rw [henqueue]
    have hhandle : ∃ call' engine', handle scheduler app client late s.alive s.engine call =
        some (call', engine') ∧ call'.stage = .notifying params submission ∧
          engine'.pendingNotifies ≠ 0 := by
      unfold handle Scheduler.submit
      rw [hstage]
      dsimp only
      rw [if_neg (not_or.mpr hfresh), hqueue]
      exact ⟨_, _, rfl, rfl, Nat.succ_ne_zero _⟩
    obtain ⟨call', engine', hhandle, hstage', hpending⟩ := hhandle
    refine alone_step call' engine' hcall hhandle fun hcall' ↦ ?_
    have hnotify : Scheduler.step scheduler .notify engine' = some
        { engine' with permit := true, pendingNotifies := engine'.pendingNotifies - 1 } :=
      if_neg hpending
    refine alone_step (call'.goto (.serving params submission))
      { engine' with permit := true, pendingNotifies := engine'.pendingNotifies - 1 } hcall' ?_
      fun hcall'' ↦ alone_end hcall'' rfl
    unfold handle
    rw [hstage']
    dsimp only
    rw [hnotify]
    rfl

/-- **Left alone, the handler does what `submit_prompt` does.** -/
theorem handler_alone {inner : Scheduler α} {kvCache : SlabKvCache (KvTensor α)} {depth : ℕ}
    (hengine : app.engine = .continuous inner kvCache depth) (hlinked : Linked app maxDepth s)
    (hcall : s.calls[client]? = some call) {prompt : Str} {params : SubmitParams α}
    (hstage : call.stage = .checking prompt params) :
    ∃ s' call', Reaches scheduler app (Alone client late) s s' ∧ s'.calls[client]? = some call' ∧
      call'.stage = .ofResult params
        (submitPrompt app (s.moment late) call.id client prompt params) := by
  have hfound : call.found = none := by
    have hsound := hlinked.calls client call hcall
    unfold Call.Sound at hsound
    rw [hstage] at hsound
    exact hsound.2
  unfold submitPrompt State.moment
  dsimp only
  by_cases halive : s.alive = true
  · rw [halive]
    cases hbuild : buildRequest app call.id client prompt params with
    | error err =>
        refine alone_step (call.goto (.failed err)) s.engine hcall ?_ fun hcall' ↦
          alone_end hcall' rfl
        unfold handle
        rw [hstage]
        dsimp only
        rw [if_pos halive, hbuild]
    | ok submission =>
        refine alone_step (call.goto (.rechecking params submission)) s.engine hcall ?_ ?_
        · unfold handle
          rw [hstage]
          dsimp only
          rw [if_pos halive, hbuild]
        · intro hcall'
          refine alone_step (call.goto (.enqueuing params submission)) s.engine hcall' ?_ ?_
          · unfold handle Call.goto
            dsimp only
            rw [if_pos halive]
          · intro hcall''
            have hunsubmitted := hlinked.unsubmitted hcall hfound
            have hclient := (channel_of_buildRequest hbuild).1
            obtain ⟨s', call', hrun, hcall', hend⟩ := alone_enqueuing scheduler late
              hengine hcall'' rfl (by rwa [hclient])
            refine ⟨s', call', hrun, hcall', hend.trans (congrArg (Stage.ofResult params) ?_)⟩
            unfold State.moment
            dsimp only
            rw [halive]
            cases enqueue app.engine _ submission.request <;> rfl
  · rw [Bool.not_eq_true] at halive
    rw [halive]
    refine alone_step (call.goto (.failed .unavailable)) s.engine hcall ?_ fun hcall' ↦
      alone_end hcall' rfl
    unfold handle
    rw [hstage, halive]
    rfl

end Alone

section Run

variable {scheduler : Scheduler α} {app : AppState α}
  {maxSeqs maxSeqLen numLayers nHeads headDim maxDepth : ℕ} {capacity : ClientId → ℕ}
  {s s' : State α}

/-- The reachable states of the service. -/
abbrev Reachable (scheduler : Scheduler α) (app : AppState α)
    (maxSeqs maxSeqLen numLayers nHeads headDim maxDepth : ℕ) (capacity : ClientId → ℕ)
    (s : State α) : Prop :=
  Reaches scheduler app Anything
    (init (.new maxSeqs maxSeqLen numLayers nHeads headDim) maxDepth capacity) s

theorem linked_reachable
    (hreach : Reachable scheduler app maxSeqs maxSeqLen numLayers nHeads headDim maxDepth capacity s) :
    Linked app maxDepth s := by
  refine hreach.invariant ?_ ?_
  · intro before after action hbefore hlinked _ hnext
    have hengine := engine_reachable hbefore
    have hclosed : before.engine.queue.closed = true → before.engine.shutdown = true := by
      intro hclosed
      by_contra hopen
      have hstays := Scheduler.staysOpen_reachable hengine (Bool.not_eq_true _ ▸ hopen)
      exact absurd (hstays.1.symm.trans hclosed) Bool.false_ne_true
    refine linked_step hlinked (fun hdead ↦ hclosed ?_) hclosed (step_cases hnext)
    have hplaced := Scheduler.placed_reachable hengine
    rw [hlinked.alive hdead] at hplaced
    exact hplaced.1.1
  · refine ⟨rfl, fun client call hcall ↦ ?_, ?_, ?_, rfl, fun hdead ↦ ?_⟩
    · cases List.getElem?_nil.symm.trans hcall
    · exact fun req hreq ↦ absurd hreq List.not_mem_nil
    · exact fun client hrefused ↦ absurd hrefused List.not_mem_nil
    · cases hdead

/-- What a client learns from the status of a failed call. -/
structure Told (app : AppState α) (maxDepth : ℕ) (s : State α) (client : ClientId) (call : Call α)
    (err : ApiError) : Prop where
  own : err.status ≠ 429 → err.status ≠ 503 → call.request.input app = .error err ∨
    ∃ prompt params, call.request.input app = .ok (prompt, params) ∧
      buildRequest app call.id client prompt params = .error err
  full : err.status = 429 → ∃ live, call.found = some (false, live) ∧ maxDepth ≤ live
  shutdown : err.status = 503 → s.engine.shutdown = true

theorem Call.Explains.told {client : ClientId} {call : Call α} {err : ApiError}
    (hexplains : call.Explains app maxDepth client s.engine err) : Told app maxDepth s client call err := by
  cases hexplains with
  | invalid herror =>
      have hown := status_of_input herror
      refine ⟨fun _ _ ↦ Or.inl herror, fun hfull ↦ ?_, fun hshutdown ↦ ?_⟩
      · rw [hfull] at hown
        exact absurd hown (by decide)
      · rw [hshutdown] at hown
        exact absurd hown (by decide)
  | unbuilt hinput herror =>
      have hown := status_of_buildRequest herror
      exact ⟨fun _ _ ↦ Or.inr ⟨_, _, hinput, herror⟩, fun h ↦ absurd h (by omega),
        fun h ↦ absurd h (by omega)⟩
  | unavailable hshutdown =>
      have hstatus : ApiError.unavailable.status = 503 := rfl
      exact ⟨fun _ h ↦ absurd hstatus h, fun h ↦ absurd (hstatus.symm.trans h) (by decide),
        fun _ ↦ hshutdown⟩
  | queueFull hfound hfull =>
      have hstatus : ApiError.queueFull.status = 429 := rfl
      exact ⟨fun h ↦ absurd hstatus h, fun _ ↦ ⟨_, hfound, hfull⟩,
        fun h ↦ absurd (hstatus.symm.trans h) (by decide)⟩

/-- Nothing is accepted by a queue that is closed. -/
theorem accepted_of_closed (hclosed : s.engine.queue.closed = true)
    (hreach : Reaches scheduler app Anything s s') :
    s'.engine.history.accepted = s.engine.history.accepted ∧ s'.engine.queue.closed = true := by
  induction hreach with
  | refl => exact ⟨rfl, hclosed⟩
  | step _ _ hnext ih =>
      have hlasts := (step_cases hnext).lasts
      refine ⟨?_, hlasts.closed ih.2⟩
      rw [← ih.1]
      cases step_cases hnext with
      | call _ | ended _ _ => rfl
      | engine hinner hengine => exact (inner_step hinner hengine).1
      | handler _ hhandled =>
          cases hhandled with
          | accepted _ _ _ hopen _ => exact absurd (hopen.symm.trans ih.2) Bool.false_ne_true
          | invalid _ _ | valid _ _ | dead _ _ | unbuilt _ _ | built _ _ | alive _ _
          | refused _ _ _ _ | notified _ _ | classified _ => rfl

/-- **Failures are what they say.** Whatever the order in which handlers, scheduler, connections and
the operator take their steps: a call that fails with 503 has met a server that is being shut down;
one that fails with 429 has met an open queue that was full of live requests, so a request that finds
the queue closed is never told to retry; any other failure is the request's own, and the same at any
other moment. The engine has accepted the requests of the calls that are being served or about to be,
each of them once, no other request, and none at all once its queue is closed. -/
theorem failures_explained (scheduler : Scheduler α) (app : AppState α)
    (maxSeqs maxSeqLen numLayers nHeads headDim maxDepth : ℕ) (capacity : ClientId → ℕ) :
    ∀ s, Reachable scheduler app maxSeqs maxSeqLen numLayers nHeads headDim maxDepth capacity s →
      (∀ (client : ClientId) (call : Call α), s.calls[client]? = some call →
        ∀ err, call.stage = .failed err → Told app maxDepth s client call err) ∧
      (∀ (client : ClientId) (call : Call α) params submission, s.calls[client]? = some call →
        call.stage = .notifying params submission ∨ call.stage = .serving params submission →
          call.Made app client params submission ∧ submission.request.client = client ∧
            submission.request ∈ s.engine.history.accepted) ∧
      (∀ req ∈ s.engine.history.accepted, ∃ call params submission,
        s.calls[req.client]? = some call ∧ submission.request = req ∧
          (call.stage = .notifying params submission ∨ call.stage = .serving params submission)) ∧
      (s.engine.history.accepted.map GenerationRequest.client).Nodup ∧
      (s.engine.queue.closed = true → ∀ s', Reaches scheduler app Anything s s' →
        s'.engine.history.accepted = s.engine.history.accepted) := by
  intro s hreach
  have hlinked := linked_reachable hreach
  refine ⟨?_, ?_, hlinked.accepted, (Scheduler.books_reachable (engine_reachable hreach)).nodup,
    fun hclosed s' hrun ↦ (accepted_of_closed hclosed hrun).1⟩
  · intro client call hcall err hstage
    have hsound := hlinked.calls client call hcall
    unfold Call.Sound at hsound
    rw [hstage] at hsound
    exact hsound.told
  · intro client call params submission hcall hstage
    exact (hlinked.calls client call hcall).handedOver hstage

end Run

instance (s : State α) (action : Action α) : Decidable (Anything s action) := isTrue trivial

def tinyScheduler : Scheduler ℚ := builtScheduler (tinyArgs .continuous) (.gpt2 tinyGpt2)

def tinyStart : State ℚ := init (.new 2 8 1 1 1) 4 fun _ ↦ 4

def tinyRequest : ApiRequest ℚ := .completion (.ok ⟨.string "hello".toList, tinyOptions, none⟩)

/-- A request without the content type of JSON. -/
def tinyUntyped : ApiRequest ℚ :=
  .completion (.error ⟨415, "Expected request with Content-Type: application/json"⟩)

/-- A queue of one place. The first call gets it, the second one finds it taken, the third one is not
JSON, and the fourth one comes after the shutdown. -/
def tinyNarrow : State ℚ := init (.new 2 8 1 1 1) 1 fun _ ↦ 4

def tinyLate : State ℚ :=
  (Transition.run (step tinyScheduler (tinyApp .continuous)) Anything
    ([.call "a" tinyRequest, .call "b" tinyRequest, .call "c" tinyUntyped] ++
      List.replicate 5 (.handler 0 []) ++ List.replicate 5 (.handler 1 []) ++
      [.handler 2 [], .shutdown] ++ List.replicate 5 (.engine []) ++
      [.engineEnded, .call "d" tinyRequest, .handler 3 [], .handler 3 []]) tinyNarrow).getD tinyNarrow

def Stage.failure : Stage α → Option ApiError
  | failed err => some err
  | _ => none

omit [Kernels α] [FiniteCheck α] in
theorem stage_of_failure {stage : Stage α} {err : ApiError} (hfailure : stage.failure = some err) :
    stage = .failed err := by
  cases stage with
  | failed _ => exact congrArg _ (Option.some.inj hfailure)
  | _ => cases hfailure

theorem failures_explained_tinyLate :
    (tinyLate.calls.map fun call ↦ call.stage.failure.map ApiError.status) =
        [none, some 429, some 415, some 503] ∧
      (∃ call params submission, tinyLate.calls[0]? = some call ∧
        (call.stage = .notifying params submission ∨ call.stage = .serving params submission) ∧
          submission.request ∈ tinyLate.engine.history.accepted) ∧
      (∃ call live, tinyLate.calls[1]? = some call ∧ call.found = some (false, live) ∧ 1 ≤ live) ∧
      (∃ call, tinyLate.calls[2]? = some call ∧ ∃ err, call.stage = .failed err ∧
        call.request.input (tinyApp .continuous) = .error err) ∧
      tinyLate.engine.shutdown = true := by
  have hreach : Reachable tinyScheduler (tinyApp .continuous) 2 8 1 1 1 1 (fun _ ↦ 4) tinyLate :=
    Transition.reaches_getD_run (by decide +kernel) tinyNarrow
  obtain ⟨hfailures, hhanded, haccepted, -⟩ := failures_explained tinyScheduler
    (tinyApp .continuous) 2 8 1 1 1 1 (fun _ ↦ 4) tinyLate hreach
  have hstatus : (tinyLate.calls.map fun call ↦ call.stage.failure.map ApiError.status) =
      [none, some 429, some 415, some 503] := by decide +kernel
  -- What the failure with the given status tells.
  have htold : ∀ (client : ClientId) (status : ℕ),
      (tinyLate.calls[client]?).bind (fun call ↦ call.stage.failure.map ApiError.status) =
          some status → ∃ call err, tinyLate.calls[client]? = some call ∧ call.stage = .failed err ∧
        err.status = status ∧ Told (tinyApp .continuous) 1 tinyLate client call err := by
    intro client status hclient
    obtain ⟨call, hcall, hcallStatus⟩ := Option.bind_eq_some_iff.mp hclient
    obtain ⟨err, herr, herrStatus⟩ := Option.map_eq_some_iff.mp hcallStatus
    have hstage := stage_of_failure herr
    exact ⟨call, err, hcall, hstage, herrStatus, hfailures client call hcall err hstage⟩
  refine ⟨hstatus, ?_, ?_, ?_, ?_⟩
  · obtain ⟨req, hreq, hclient⟩ : ∃ req ∈ tinyLate.engine.history.accepted, req.client = 0 := by
      have hclients : tinyLate.engine.history.accepted.map GenerationRequest.client = [0] := by
        decide +kernel
      exact List.mem_map.mp (hclients ▸ List.mem_cons_self)
    obtain ⟨call, params, submission, hcall, -, hstage⟩ := haccepted req hreq
    rw [hclient] at hcall
    exact ⟨call, params, submission, hcall, hstage,
      (hhanded 0 call params submission hcall hstage).2.2⟩
  · obtain ⟨call, err, hcall, -, herr, told⟩ := htold 1 429 (by decide +kernel)
    obtain ⟨live, hfound, hfull⟩ := told.full herr
    exact ⟨call, live, hcall, hfound, hfull⟩
  · obtain ⟨call, err, hcall, hstage, herr, told⟩ := htold 2 415 (by decide +kernel)
    rcases told.own (by omega) (by omega) with hinput | ⟨prompt, params, -, hbuild⟩
    · exact ⟨call, hcall, err, hstage, hinput⟩
    · have hstatus := status_of_buildRequest hbuild
      omega
  · obtain ⟨call, err, -, -, herr, told⟩ := htold 3 503 (by decide +kernel)
    exact told.shutdown herr

end HotBatch.Service
