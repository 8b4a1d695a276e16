import HotBatch.Server.NaiveEngine

/-!
# Admission to the naive engine

The counter counts the live permits in every run, so that a call is refused exactly when all of them
are out, and every way out of a task gives its permit back. The task of a call is in a run of the task
alone, in which the other calls are those who take the model, so that whatever holds of one task in
every run holds of all of them.
-/

namespace HotBatch

namespace Naive

variable {α : Type}

/-- The same task, whatever has been recorded. -/
structure SameTask (s u : State α) : Prop where
  pc : u.pc = s.pc
  client : u.client = s.client
  shutdown : u.shutdown = s.shutdown
  owner : u.owner = s.owner
  history : u.history = s.history

section SameTask

variable {s u : State α}

theorem sameTask_goto (hsame : SameTask s u) (pc : Pc α) : SameTask (s.goto pc) (u.goto pc) :=
  ⟨rfl, hsame.client, hsame.shutdown, hsame.owner, hsame.history⟩

theorem sameTask_leave (hsame : SameTask s u) (serving : Option (Serving α)) (pc : Pc α) :
    SameTask (s.leave serving pc) (u.leave serving pc) := by
  refine ⟨rfl, hsame.client, hsame.shutdown, ?_, ?_⟩
  · unfold State.leave
    rw [hsame.owner]
  · unfold State.leave
    rw [hsame.history]

theorem sameTask_abandon (hsame : SameTask s u) (stage : Stage α) :
    SameTask (abandon stage s) (abandon stage u) := by
  cases stage <;> exact sameTask_leave hsame _ _

theorem sameTask_enterLoop (hsame : SameTask s u) (serving : Serving α) :
    SameTask (enterLoop serving s) (enterLoop serving u) := by
  unfold enterLoop
  split
  · exact sameTask_leave hsame _ _
  · exact sameTask_goto hsame _

theorem sameTask_proceed (hsame : SameTask s u) (stage : Stage α) :
    SameTask (proceed stage s) (proceed stage u) := by
  cases stage with
  | prefilled _ => exact sameTask_enterLoop hsame _
  | entry | waiting | locked | created _ | looping _ | passed _ _ => exact sameTask_goto hsame _

theorem sameTask_endTurn (hsame : SameTask s u) (serving : Serving α) :
    SameTask (endTurn serving s) (endTurn serving u) := by
  apply sameTask_enterLoop
  exact ⟨hsame.pc, hsame.client, hsame.shutdown, hsame.owner, hsame.history⟩

theorem sameTask_acquire (hsame : SameTask s u) : SameTask (acquire s) (acquire u) := by
  unfold acquire
  rw [hsame.owner]
  split
  · exact ⟨rfl, hsame.client, hsame.shutdown, rfl, hsame.history⟩
  · exact sameTask_goto hsame _

theorem sameTask_create (hsame : SameTask s u) (model : SmallTransformer α)
    (req : GenerationRequest α) : SameTask (create model req s) (create model req u) := by
  unfold create
  split
  · exact sameTask_leave hsame _ _
  · exact ⟨rfl, hsame.client, hsame.shutdown, hsame.owner, hsame.history⟩

theorem sameTask_answer (hsame : SameTask s u) (message : String) :
    SameTask (answer message s) (answer message u) := by
  unfold answer
  rw [hsame.client]
  exact ⟨rfl, rfl, hsame.shutdown, hsame.owner, hsame.history⟩

theorem sameTask_sendItems (hsame : SameTask s u) (serving : Serving α) (items : List StreamItem) :
    SameTask (sendItems serving items s) (sendItems serving items u) := by
  cases items with
  | nil => exact sameTask_endTurn hsame serving
  | cons item rest =>
      unfold sendItems
      rw [hsame.client]
      exact ⟨rfl, rfl, hsame.shutdown, hsame.owner, hsame.history⟩

variable [Kernels α]

theorem sameTask_prefill (hsame : SameTask s u) (model : SmallTransformer α) (serving : Serving α) :
    SameTask (prefill model serving s) (prefill model serving u) := by
  unfold prefill
  split
  · exact sameTask_leave hsame _ _
  · exact sameTask_goto hsame _

theorem sameTask_forward (hsame : SameTask s u) (model : SmallTransformer α) (serving : Serving α) :
    SameTask (forward model serving s) (forward model serving u) := by
  unfold forward
  split
  · exact sameTask_leave hsame _ _
  · exact sameTask_goto hsame _

theorem sameTask_sampleToken (hsame : SameTask s u) (serving : Serving α)
    (logits : List (LogitRow α)) :
    SameTask (sampleToken serving logits s) (sampleToken serving logits u) := by
  unfold sampleToken
  split
  · exact sameTask_leave hsame _ _
  split
  · exact sameTask_goto hsame _
  dsimp only
  rw [hsame.client, hsame.history]
  split
  · exact ⟨rfl, rfl, hsame.shutdown, hsame.owner, rfl⟩
  · apply sameTask_endTurn
    exact ⟨hsame.pc, rfl, hsame.shutdown, hsame.owner, rfl⟩

/-- Nothing the task does depends on what has been recorded. -/
theorem sameTask_next {model : SmallTransformer α} {req : GenerationRequest α} {s' : State α}
    (hsame : SameTask s u) (hnext : next model req s = some s') :
    ∃ u', next model req u = some u' ∧ SameTask s' u' := by
  have hpcs : ∀ {pc : Pc α}, s.pc = pc → u.pc = pc := hsame.pc.trans
  cases taskStep_of_next hnext with
  | shutdown hpc hshutdown =>
      exact ⟨_, next_of_taskStep (.shutdown (hpcs hpc) (hsame.shutdown.trans hshutdown)),
        sameTask_leave hsame _ _⟩
  | goesOn hpc hshutdown =>
      exact ⟨_, next_of_taskStep (.goesOn (hpcs hpc) (hsame.shutdown.trans hshutdown)),
        sameTask_goto hsame _⟩
  | responseDone hpc hdone =>
      exact ⟨_, next_of_taskStep (.responseDone (hpcs hpc) (hsame.client ▸ hdone)),
        sameTask_abandon hsame _⟩
  | looksAtReceiver hpc hdone hreads =>
      exact ⟨_, next_of_taskStep (.looksAtReceiver (hpcs hpc) (hsame.client ▸ hdone) hreads),
        sameTask_goto hsame _⟩
  | responseWanted hpc hdone hreads =>
      exact ⟨_, next_of_taskStep (.responseWanted (hpcs hpc) (hsame.client ▸ hdone) hreads),
        sameTask_proceed hsame _⟩
  | closed hpc hclosed =>
      refine ⟨_, next_of_taskStep (.closed (hpcs hpc) (hsame.client ▸ hclosed)), ?_⟩
      apply sameTask_abandon
      exact ⟨hsame.pc, hsame.client, hsame.shutdown, hsame.owner, hsame.history⟩
  | stillOpen hpc hclosed =>
      exact ⟨_, next_of_taskStep (.stillOpen (hpcs hpc) (hsame.client ▸ hclosed)),
        sameTask_proceed hsame _⟩
  | acquire hpc => exact ⟨_, next_of_taskStep (.acquire (hpcs hpc)), sameTask_acquire hsame⟩
  | create hpc => exact ⟨_, next_of_taskStep (.create (hpcs hpc)), sameTask_create hsame _ _⟩
  | prefill hpc => exact ⟨_, next_of_taskStep (.prefill (hpcs hpc)), sameTask_prefill hsame _ _⟩
  | forward hpc => exact ⟨_, next_of_taskStep (.forward (hpcs hpc)), sameTask_forward hsame _ _⟩
  | sampleToken hpc =>
      exact ⟨_, next_of_taskStep (.sampleToken (hpcs hpc)), sameTask_sampleToken hsame _ _⟩
  | sendItems hpc =>
      exact ⟨_, next_of_taskStep (.sendItems (hpcs hpc)), sameTask_sendItems hsame _ _⟩
  | answer hpc => exact ⟨_, next_of_taskStep (.answer (hpcs hpc)), sameTask_answer hsame _⟩

end SameTask

/-- What a step of the task may do to what it shares with other tasks: it takes the model when it is
free, and gives back its own. -/
structure Contained (s s' : State α) : Prop where
  owner : s'.owner = s.owner ∨ s.owner = .nobody ∧ s'.owner = .task ∨
    s.owner = .task ∧ s'.owner = .nobody
  queueDepth : s'.metrics.queueDepth = s.metrics.queueDepth

section Contained

variable {s s' : State α}

theorem contained_goto (pc : Pc α) (s : State α) : Contained s (s.goto pc) := ⟨Or.inl rfl, rfl⟩

theorem contained_leave (serving : Option (Serving α)) (pc : Pc α) (s : State α) :
    Contained s (s.leave serving pc) := by
  unfold State.leave
  constructor
  · by_cases howner : s.owner = .task
    · exact Or.inr (Or.inr ⟨howner, if_pos howner⟩)
    · exact Or.inl (if_neg howner)
  · dsimp only
    split <;> rfl

theorem contained_abandon (stage : Stage α) (s : State α) : Contained s (abandon stage s) := by
  cases stage <;> exact contained_leave _ _ s

theorem contained_enterLoop (serving : Serving α) (s : State α) :
    Contained s (enterLoop serving s) := by
  unfold enterLoop
  split
  · exact contained_leave _ _ s
  · exact contained_goto _ s

theorem contained_proceed (stage : Stage α) (s : State α) : Contained s (proceed stage s) := by
  cases stage with
  | prefilled _ => exact contained_enterLoop _ s
  | entry | waiting | locked | created _ | looping _ | passed _ _ => exact contained_goto _ s

/-- Counting a step is all that the end of a turn adds. -/
theorem contained_endTurn (serving : Serving α) (s : State α) : Contained s (endTurn serving s) := by
  obtain ⟨howner, hdepth⟩ := contained_enterLoop serving
    { s with metrics := s.metrics.recordStep 1 (if serving.seq.isDone then 0 else 1) }
  exact ⟨howner, hdepth⟩

variable [Kernels α]

theorem contained_sampleToken (serving : Serving α) (logits : List (LogitRow α)) (s : State α) :
    Contained s (sampleToken serving logits s) := by
  unfold sampleToken
  split
  · exact contained_leave _ _ s
  split
  · exact contained_goto _ s
  rename_i tokens stepped _
  dsimp only
  split
  · exact ⟨Or.inl rfl, rfl⟩
  · obtain ⟨howner, hdepth⟩ := contained_endTurn { serving with seq := stepped.cancel }
      { s with
        metrics := s.metrics.recordToken.recordCancelled [serving.seq.client]
        history := { s.history with updates := s.history.updates ++
          [Update.mk serving.seq.client tokens stepped.finishReason (s.client.tryReserveMany
            (updateItems tokens stepped.finishReason).length)] } }
    exact ⟨howner, hdepth⟩

theorem contained_task {model : SmallTransformer α} {req : GenerationRequest α}
    (hstep : TaskStep model req s s') : Contained s s' := by
  cases hstep with
  | shutdown _ _ => exact contained_leave _ _ s
  | goesOn _ _ | looksAtReceiver _ _ _ => exact contained_goto _ s
  | responseDone _ _ => exact contained_abandon _ s
  | responseWanted _ _ _ | stillOpen _ _ => exact contained_proceed _ s
  | @closed stage _ _ =>
      obtain ⟨howner, hdepth⟩ := contained_abandon stage (s.recordCancelled req.client)
      exact ⟨howner, hdepth⟩
  | acquire _ =>
      unfold acquire
      split
      · rename_i hfree
        exact ⟨Or.inr (Or.inl ⟨hfree, rfl⟩), rfl⟩
      · exact contained_goto _ s
  | create _ =>
      unfold create
      split
      · exact contained_leave _ _ s
      · exact ⟨Or.inl rfl, rfl⟩
  | prefill _ =>
      unfold prefill
      split
      · exact contained_leave _ _ s
      · exact contained_goto _ s
  | forward _ =>
      unfold forward
      split
      · exact contained_leave _ _ s
      · exact contained_goto _ s
  | sampleToken _ => exact contained_sampleToken _ _ s
  | @sendItems serving items _ =>
      cases items with
      | nil => exact contained_endTurn serving s
      | cons item rest => exact ⟨Or.inl rfl, rfl⟩
  | answer _ => exact ⟨Or.inl rfl, rfl⟩

end Contained

end Naive

namespace NaiveEngine

variable {α : Type}

/-- A call that has been replaced, or one of the others. -/
theorem getElem?_set_cases {calls : List (Call α)} {ticket other : ℕ} {call found : Call α}
    (hfound : (calls.set ticket call)[other]? = some found) :
    other = ticket ∧ found = call ∨ other ≠ ticket ∧ calls[other]? = some found := by
  by_cases hother : ticket = other
  · subst hother
    rw [List.getElem?_set_self'] at hfound
    obtain ⟨_, -, rfl⟩ := Option.map_eq_some_iff.mp hfound
    exact Or.inl ⟨rfl, rfl⟩
  · rw [List.getElem?_set_ne hother] at hfound
    exact Or.inr ⟨Ne.symm hother, hfound⟩

theorem lt_length_of_getElem? {calls : List (Call α)} {ticket : ℕ} {call : Call α}
    (hcall : calls[ticket]? = some call) : ticket < calls.length :=
  (List.getElem?_eq_some_iff.mp hcall).1

/-! ## The task of a call -/

/-- The task does nothing any more. -/
def Stage.IsOver : Stage → Prop
  | unwinding | finished => True
  | entered | acquiring | admitted | withdrawn | refused _ | spawned => False

/-- Who the call shares the model with is the environment of its task. -/
structure Tracks (s : State α) (ticket : ℕ) (call : Call α) (u : Naive.State α) : Prop where
  pc : u.pc = call.pc
  client : u.client = call.client
  history : u.history = call.history
  shared : ¬ call.stage.IsOver → u.shutdown = s.shutdown ∧ u.owner = ownerFor ticket s.owner

section Tasks

variable [Kernels α] {engine : NaiveEngine α} {s s' : State α} {ticket : ℕ} {call call' : Call α}

/-- The task of the call is in a run of the task alone. -/
def Tracked (engine : NaiveEngine α) (s : State α) (ticket : ℕ) (call : Call α) : Prop :=
  ∃ capacity u, Naive.Reaches engine.model call.req Naive.Anything (Naive.init capacity) u ∧
    Tracks s ticket call u

/-- Every task is in a run of the task alone, and the model is nobody's or that of a call. -/
structure Projects (engine : NaiveEngine α) (s : State α) : Prop where
  owner_lt : ∀ holder, s.owner = some holder → holder < s.calls.length
  tracked : ∀ ticket call, s.calls[ticket]? = some call → Tracked engine s ticket call

/-- What a call can do to the mutex. -/
def OwnerMoves (ticket : ℕ) (before after : Option ℕ) : Prop :=
  after = before ∨ before = none ∧ after = some ticket ∨ before = some ticket ∧ after = none

/-- The others see that the model is taken or given back. -/
theorem Tracked.other (htracked : Tracked engine s ticket call) {other : ℕ} (hother : ticket ≠ other)
    (hshutdown : s'.shutdown = s.shutdown) (howner : OwnerMoves other s.owner s'.owner) :
    Tracked engine s' ticket call := by
  obtain ⟨capacity, u, hreach, hpc, hclient, hhistory, hshared⟩ := htracked
  by_cases hover : call.stage.IsOver
  · exact ⟨capacity, u, hreach, hpc, hclient, hhistory, absurd hover⟩
  obtain ⟨hsameShutdown, hsameOwner⟩ := hshared hover
  have hshutdown' := hsameShutdown.trans hshutdown.symm
  have hheld : ownerFor ticket (some other) = .other := if_neg (Ne.symm hother)
  rcases howner with hsame | ⟨hbefore, hafter⟩ | ⟨hbefore, hafter⟩
  · exact ⟨capacity, u, hreach, hpc, hclient, hhistory, fun _ ↦ ⟨hshutdown', hsame ▸ hsameOwner⟩⟩
  · rw [hbefore] at hsameOwner
    have hlock : Naive.step engine.model call.req .lockModel u =
        some { u with owner := .other } := if_pos hsameOwner
    refine ⟨capacity, _, hreach.step trivial hlock, hpc, hclient, hhistory, fun _ ↦ ⟨hshutdown', ?_⟩⟩
    rw [hafter, hheld]
  · rw [hbefore, hheld] at hsameOwner
    have hunlock : Naive.step engine.model call.req .unlockModel u =
        some { u with owner := .nobody } := if_pos hsameOwner
    refine ⟨capacity, _, hreach.step trivial hunlock, hpc, hclient, hhistory,
      fun _ ↦ ⟨hshutdown', ?_⟩⟩
    rw [hafter]
    rfl

/-- One call has taken a step. -/
theorem Projects.put (hprojects : Projects engine s) (hcall : s.calls[ticket]? = some call)
    (hcalls : s'.calls = s.calls.set ticket call') (hshutdown : s'.shutdown = s.shutdown)
    (howner : OwnerMoves ticket s.owner s'.owner) (hself : Tracked engine s' ticket call') :
    Projects engine s' := by
  constructor
  · intro holder hholder
    rw [hcalls, List.length_set]
    rcases howner with hsame | ⟨-, hafter⟩ | ⟨-, hafter⟩
    · exact hprojects.owner_lt holder (hsame ▸ hholder)
    · obtain rfl := Option.some.inj (hafter.symm.trans hholder)
      exact lt_length_of_getElem? hcall
    · cases hafter.symm.trans hholder
  · intro other found hfound
    rw [hcalls] at hfound
    rcases getElem?_set_cases hfound with ⟨rfl, rfl⟩ | ⟨hother, hold⟩
    · exact hself
    · exact (hprojects.tracked other found hold).other hother hshutdown howner

/-- Admission does not touch the task. -/
theorem Tracked.restage (htracked : Tracked engine s ticket call) {stage : Stage}
    (hover : ¬ stage.IsOver → ¬ call.stage.IsOver ∧ s'.owner = s.owner)
    (hshutdown : s'.shutdown = s.shutdown) :
    Tracked engine s' ticket { call with stage := stage } := by
  obtain ⟨capacity, u, hreach, hpc, hclient, hhistory, hshared⟩ := htracked
  refine ⟨capacity, u, hreach, hpc, hclient, hhistory, fun hnot ↦ ?_⟩
  obtain ⟨hbefore, howner⟩ := hover hnot
  rw [hshutdown, howner]
  exact hshared hbefore

omit [Kernels α] in
/-- The mutex after a step of the task, as the task and the others see it. -/
theorem ownerFor_putTask {task : Naive.State α}
    (hcontained : Naive.Contained (s.task ticket call) task) :
    ownerFor ticket (s.putTask ticket call task).owner = task.owner ∧
      OwnerMoves ticket s.owner (s.putTask ticket call task).owner := by
  have hbefore : (s.task ticket call).owner = ownerFor ticket s.owner := rfl
  have hself : ownerFor ticket (some ticket) = .task := if_pos rfl
  have howner := hcontained.owner
  rw [hbefore] at howner
  unfold State.putTask OwnerMoves
  cases hafter : task.owner with
  | nobody =>
      refine ⟨rfl, ?_⟩
      cases hholder : s.owner with
      | none => exact Or.inl rfl
      | some holder =>
          right
          right
          rw [hafter, hholder] at howner
          by_cases hsame : holder = ticket
          · exact ⟨congrArg some hsame, rfl⟩
          · have hother : ownerFor ticket (some holder) = .other := if_neg hsame
            rw [hother] at howner
            simp at howner
  | task =>
      refine ⟨hself, ?_⟩
      cases hholder : s.owner with
      | none => exact Or.inr (Or.inl ⟨rfl, rfl⟩)
      | some holder =>
          left
          rw [hafter, hholder] at howner
          by_cases hsame : holder = ticket
          · exact congrArg some hsame.symm
          · have hother : ownerFor ticket (some holder) = .other := if_neg hsame
            rw [hother] at howner
            simp at howner
  | other =>
      rw [hafter] at howner
      refine ⟨?_, Or.inl rfl⟩
      rcases howner with hsame | ⟨-, htaken⟩ | ⟨-, hfreed⟩
      · exact hsame.symm
      · cases htaken
      · cases hfreed

/-- A step of the task is a step of the task alone. -/
theorem Tracked.runTask (htracked : Tracked engine s ticket call) (hover : ¬ call.stage.IsOver)
    {task : Naive.State α}
    (hnext : Naive.next engine.model call.req (s.task ticket call) = some task) :
    Tracked engine (s.putTask ticket call task) ticket
      { call with pc := task.pc, client := task.client, history := task.history } := by
  obtain ⟨capacity, u, hreach, hpc, hclient, hhistory, hshared⟩ := htracked
  obtain ⟨hshutdown, howner⟩ := hshared hover
  have hsame : Naive.SameTask (s.task ticket call) u := ⟨hpc, hclient, hshutdown, howner, hhistory⟩
  have htask := Naive.taskStep_of_next hnext
  obtain ⟨u', hnext', hsame'⟩ := Naive.sameTask_next hsame hnext
  have hstep : Naive.step engine.model call.req .task u = some u' := hnext'
  refine ⟨capacity, u', hreach.step trivial hstep, hsame'.pc, hsame'.client, hsame'.history,
    fun _ ↦ ⟨?_, ?_⟩⟩
  · exact hsame'.shutdown.trans (Naive.framed_task htask).shutdown
  · exact hsame'.owner.trans (ownerFor_putTask (Naive.contained_task htask)).1.symm

/-- The task of a new call finds the world as it is. -/
theorem Tracked.submit (howner : ∀ holder, s.owner = some holder → holder < s.calls.length)
    (req : GenerationRequest α) (capacity : ℕ) :
    Tracked engine { s with calls := s.calls ++ [.new req capacity] } s.calls.length
      (.new req capacity) := by
  have hshutdown : ∃ u, Naive.Reaches engine.model req Naive.Anything (Naive.init capacity) u ∧
      u = { Naive.init capacity with shutdown := s.shutdown } := by
    cases hdown : s.shutdown with
    | false => exact ⟨_, .refl, rfl⟩
    | true => exact ⟨_, Transition.Reaches.step .refl trivial
        (show Naive.step engine.model req .shutdown _ = some _ from rfl), rfl⟩
  obtain ⟨_, hreach, rfl⟩ := hshutdown
  cases hheld : s.owner with
  | none =>
      exact ⟨capacity, _, hreach, rfl, rfl, rfl, fun _ ↦ ⟨rfl, rfl⟩⟩
  | some holder =>
      have hlock : Naive.step engine.model req .lockModel
          { Naive.init capacity with shutdown := s.shutdown } =
            some { Naive.init capacity with shutdown := s.shutdown, owner := .other } := rfl
      have hother : ownerFor s.calls.length (some holder) = .other :=
        if_neg (howner holder hheld).ne
      exact ⟨capacity, _, hreach.step trivial hlock, rfl, rfl, rfl, fun _ ↦ ⟨rfl, hother.symm⟩⟩

/-- The operator shuts the server down under every task. -/
theorem Tracked.shutdown (htracked : Tracked engine s ticket call) :
    Tracked engine { s with shutdown := true } ticket call := by
  obtain ⟨capacity, u, hreach, hpc, hclient, hhistory, hshared⟩ := htracked
  refine ⟨capacity, { u with shutdown := true }, ?_, hpc, hclient, hhistory,
    fun hover ↦ ⟨rfl, (hshared hover).2⟩⟩
  exact hreach.step trivial
    (show Naive.step engine.model call.req .shutdown u = some { u with shutdown := true } from rfl)

/-- The connection of a call acts. -/
theorem Tracked.act (htracked : Tracked engine s ticket call) {action : ClientAction} {client : Client}
    (hact : call.client.act action = some client) :
    Tracked engine (s.putCall ticket { call with client := client }) ticket
      { call with client := client } := by
  obtain ⟨capacity, u, hreach, hpc, hclient, hhistory, hshared⟩ := htracked
  refine ⟨capacity, { u with client := client }, ?_, hpc, rfl, hhistory, hshared⟩
  have hstep : Naive.step engine.model call.req (.client action) u =
      some { u with client := client } := by
    refine Option.map_eq_some_iff.mpr ⟨client, ?_, rfl⟩
    rw [hclient]
    exact hact
  exact hreach.step trivial hstep

theorem projects_call (hprojects : Projects engine s) (hcall : s.calls[ticket]? = some call)
    (hstep : CallStep engine ticket call s s') : Projects engine s' := by
  have htracked := hprojects.tracked ticket call hcall
  have hrestage : ∀ {s' : State α} {stage : Stage},
      s'.calls = s.calls.set ticket { call with stage := stage } → s'.shutdown = s.shutdown →
      s'.owner = s.owner → (¬ stage.IsOver → ¬ call.stage.IsOver) → Projects engine s' := by
    intro s' stage hcalls hshutdown howner hover
    exact hprojects.put hcall hcalls hshutdown (Or.inl howner)
      (htracked.restage (fun hnot ↦ ⟨hover hnot, howner⟩) hshutdown)
  have hat : ∀ {stage : Stage}, call.stage = stage → ¬ stage.IsOver → ¬ call.stage.IsOver := by
    rintro _ rfl hnot
    exact hnot
  cases hstep with
  | unavailable hstage _ | goesOn hstage _ | queueFull hstage _ | acquire hstage _
  | withdraw hstage _ | spawn hstage _ | giveBack hstage =>
      exact hrestage rfl rfl rfl fun _ ↦ hat hstage id
  | finish _ _ | unwind _ => exact hrestage rfl rfl rfl fun hnot ↦ absurd trivial hnot
  | panic _ _ =>
      refine hprojects.put hcall rfl ?_ ?_ ?_
      · rfl
      · by_cases hself : s.owner = some ticket
        · exact Or.inr (Or.inr ⟨hself, if_pos hself⟩)
        · exact Or.inl (if_neg hself)
      · exact htracked.restage (fun hnot ↦ absurd trivial hnot) rfl
  | task hstage hnext =>
      have htask := Naive.taskStep_of_next hnext
      refine hprojects.put hcall rfl ?_ ?_ ?_
      · rfl
      · exact (ownerFor_putTask (Naive.contained_task htask)).2
      · exact htracked.runTask (hat hstage id) hnext

/-- **Every step of the engine is a step of every task, or of its environment.** -/
theorem projects_step {action : Action α} (hprojects : Projects engine s)
    (hstep : step engine action s = some s') : Projects engine s' := by
  cases action with
  | submit req capacity =>
      obtain rfl := Option.some.inj hstep
      constructor
      · intro holder hholder
        change holder < (s.calls ++ [_]).length
        rw [List.length_append]
        exact Nat.lt_succ_of_lt (hprojects.owner_lt holder hholder)
      · intro ticket call hcall
        change (s.calls ++ [_])[ticket]? = some call at hcall
        rw [List.getElem?_append] at hcall
        split at hcall
        · obtain ⟨capacity, u, hreach, hpc, hclient, hhistory, hshared⟩ :=
            hprojects.tracked ticket call hcall
          exact ⟨capacity, u, hreach, hpc, hclient, hhistory, hshared⟩
        · rw [List.getElem?_singleton] at hcall
          split at hcall
          · obtain rfl := Option.some.inj hcall
            obtain rfl : ticket = s.calls.length := by omega
            exact .submit hprojects.owner_lt req capacity
          · cases hcall
  | call ticket =>
      obtain ⟨call, hcall, hcallStep⟩ := Option.bind_eq_some_iff.mp hstep
      exact projects_call hprojects hcall (callStep_cases hcallStep)
  | client ticket action =>
      obtain ⟨call, hcall, hmap⟩ := Option.bind_eq_some_iff.mp hstep
      obtain ⟨client, hact, rfl⟩ := Option.map_eq_some_iff.mp hmap
      refine hprojects.put hcall rfl ?_ (Or.inl rfl) ?_
      · rfl
      · exact (hprojects.tracked ticket call hcall).act hact
  | shutdown =>
      obtain rfl := Option.some.inj hstep
      exact ⟨hprojects.owner_lt, fun ticket call hcall ↦
        (hprojects.tracked ticket call hcall).shutdown⟩

/-- **The tasks of the engine are tasks in runs of their own.** -/
theorem projects_reachable (hreach : Reaches engine Anything init s) : Projects engine s := by
  refine hreach.invariant (fun _ _ _ _ hbefore _ hnext ↦ projects_step hbefore hnext) ?_
  exact ⟨fun _ hholder ↦ (nomatch hholder), fun _ _ hcall ↦ (nomatch hcall)⟩

/-- A call whose task has the model is the owner of the mutex. -/
theorem Projects.owner_of_holdsModel (hprojects : Projects engine s)
    (hcall : s.calls[ticket]? = some call) (hspawned : call.stage = .spawned)
    (hholds : call.pc.HoldsModel) : s.owner = some ticket := by
  obtain ⟨capacity, u, hreach, hpc, -, -, hshared⟩ := hprojects.tracked ticket call hcall
  have hunderway : u.Underway := hreach.invariant
    (fun _ _ _ _ hbefore _ hnext ↦ Naive.underway_step hbefore hnext)
    (Naive.underway_init capacity)
  have howner := hunderway.owner (hpc ▸ hholds)
  rw [(hshared (hspawned ▸ id)).2] at howner
  cases hheld : s.owner with
  | none =>
      rw [hheld] at howner
      cases howner
  | some holder =>
      rw [hheld] at howner
      by_cases hsame : holder = ticket
      · exact congrArg some hsame
      · have hother : ownerFor ticket (some holder) = .other := if_neg hsame
        cases hother.symm.trans howner

theorem Projects.wellFormed (hprojects : Projects engine s) (hcall : s.calls[ticket]? = some call) :
    WellFormed call.client.sent := by
  obtain ⟨capacity, u, hreach, -, hclient, -⟩ := hprojects.tracked ticket call hcall
  exact hclient ▸ Naive.wellFormed_reachable hreach

end Tasks

/-! ## The permits -/

/-- What has become of the permit of a call at this stage. -/
def Stage.Agrees (permits : Permits ℕ) (shutdown : Bool) (ticket : ℕ) : Stage → Prop
  | entered | acquiring | refused .queueFull => ticket ∉ permits.acquired
  | admitted | spawned | unwinding => ticket ∈ permits.live
  | withdrawn => ticket ∈ permits.live ∧ shutdown = true
  | refused .unavailable => ticket ∉ permits.live ∧ shutdown = true
  | finished => ticket ∈ permits.released

theorem Stage.Agrees.congr {permits permits' : Permits ℕ} {shutdown shutdown' : Bool} {ticket : ℕ}
    {stage : Stage} (hagrees : stage.Agrees permits shutdown ticket)
    (hacquired : ticket ∈ permits'.acquired ↔ ticket ∈ permits.acquired)
    (hreleased : ticket ∈ permits'.released ↔ ticket ∈ permits.released)
    (hshutdown : shutdown = true → shutdown' = true) : stage.Agrees permits' shutdown' ticket := by
  have hlive : ticket ∈ permits'.live ↔ ticket ∈ permits.live := by
    rw [Permits.mem_live, Permits.mem_live, hacquired, hreleased]
  cases stage with
  | entered | acquiring => exact fun hmem ↦ hagrees (hacquired.mp hmem)
  | admitted | spawned | unwinding => exact hlive.mpr hagrees
  | withdrawn => exact ⟨hlive.mpr hagrees.1, hshutdown hagrees.2⟩
  | finished => exact hreleased.mpr hagrees
  | refused err =>
      cases err with
      | queueFull => exact fun hmem ↦ hagrees (hacquired.mp hmem)
      | unavailable => exact ⟨fun hmem ↦ hagrees.1 (hlive.mp hmem), hshutdown hagrees.2⟩

/-- The counter counts the live permits, and every permit is where its call is. -/
structure Accounts (engine : NaiveEngine α) (s : State α) : Prop where
  sound : s.permits.Sound
  accepted_eq : s.accepted = s.permits.live.length
  accepted_le : s.accepted ≤ engine.maxQueueDepth + 1
  queueDepth : s.metrics.queueDepth = s.accepted - 1
  known : ∀ ticket ∈ s.permits.acquired, ticket < s.calls.length
  agrees : ∀ (ticket : ℕ) (call : Call α), s.calls[ticket]? = some call →
    call.stage.Agrees s.permits s.shutdown ticket

/-- A counter that cannot overflow refuses when all permits are out, and only then. -/
theorem tryAcquire_eq_none {engine : NaiveEngine α} (hdepth : engine.maxQueueDepth < Usize.maxValue)
    {accepted : ℕ} (hle : accepted ≤ engine.maxQueueDepth + 1) :
    tryAcquire engine.maxQueueDepth accepted = none ↔ accepted = engine.maxQueueDepth + 1 := by
  unfold tryAcquire Usize.checkedAdd
  unfold Usize.maxValue at hdepth
  split_ifs with hfull hfits
  · exact iff_of_true rfl (Nat.le_antisymm hle hfull)
  · refine iff_of_false id ?_
    omega
  · refine iff_of_true rfl ?_
    omega

theorem tryAcquire_eq_some {maxQueueDepth accepted more : ℕ}
    (hroom : tryAcquire maxQueueDepth accepted = some more) :
    accepted ≤ maxQueueDepth ∧ more = accepted + 1 := by
  unfold tryAcquire at hroom
  split at hroom
  · cases hroom
  · rename_i hle
    exact ⟨Nat.not_lt.mp hle, (Usize.checkedAdd_eq_some.mp hroom).2⟩

namespace Accounts

variable {engine : NaiveEngine α} {s s' : State α} {ticket : ℕ} {call call' : Call α}

/-- Whoever has a permit is counted. -/
theorem accepted_pos (haccounts : Accounts engine s) (hlive : ticket ∈ s.permits.live) :
    0 < s.accepted :=
  haccounts.accepted_eq ▸ List.length_pos_of_mem hlive

/-- A call has gone on without its permit being touched. -/
theorem put (haccounts : Accounts engine s) (hcalls : s'.calls = s.calls.set ticket call')
    (hself : call'.stage.Agrees s.permits s.shutdown ticket) (hpermits : s'.permits = s.permits)
    (haccepted : s'.accepted = s.accepted) (hshutdown : s'.shutdown = s.shutdown)
    (hdepth : s'.metrics.queueDepth = s.metrics.queueDepth) : Accounts engine s' where
  sound := hpermits ▸ haccounts.sound
  accepted_eq := by rw [haccepted, hpermits, haccounts.accepted_eq]
  accepted_le := haccepted ▸ haccounts.accepted_le
  queueDepth := by rw [hdepth, haccepted, haccounts.queueDepth]
  known := by
    rw [hpermits, hcalls, List.length_set]
    exact haccounts.known
  agrees := by
    intro other found hfound
    rw [hcalls] at hfound
    rw [hpermits, hshutdown]
    rcases getElem?_set_cases hfound with ⟨rfl, rfl⟩ | ⟨-, hold⟩
    · exact hself
    · exact haccounts.agrees other found hold

/-- A permit is taken. -/
theorem acquire (haccounts : Accounts engine s) (hcall : s.calls[ticket]? = some call)
    (hstage : call.stage = .acquiring) {accepted : ℕ}
    (hroom : tryAcquire engine.maxQueueDepth s.accepted = some accepted) :
    Accounts engine { s.putCall ticket { call with stage := .admitted } with
      accepted := accepted
      metrics := s.metrics.setQueueDepth (accepted - 1)
      permits := s.permits.acquire ticket } := by
  obtain ⟨hle, rfl⟩ := tryAcquire_eq_some hroom
  have hnew : ticket ∉ s.permits.acquired := by
    have hagrees := haccounts.agrees ticket call hcall
    rw [hstage] at hagrees
    exact hagrees
  have hsound := haccounts.sound
  constructor
  case sound => exact hsound.acquire hnew
  case accepted_eq =>
    change s.accepted + 1 = (s.permits.acquire ticket).live.length
    rw [hsound.length_live_acquire hnew, haccounts.accepted_eq]
  case accepted_le => exact Nat.succ_le_succ hle
  case queueDepth => rfl
  case known =>
    intro other hother
    change other < (s.calls.set ticket _).length
    rw [List.length_set]
    rcases List.mem_append.mp hother with hold | hlast
    · exact haccounts.known other hold
    · exact List.mem_singleton.mp hlast ▸ lt_length_of_getElem? hcall
  case agrees =>
    intro other found hfound
    rcases getElem?_set_cases hfound with ⟨rfl, rfl⟩ | ⟨hother, hold⟩
    · exact hsound.mem_live_acquire hnew
    · have hsame := s.permits.mem_acquired_of_ne hother
      exact (haccounts.agrees other found hold).congr hsame Iff.rfl id

/-- A permit goes out of scope. -/
theorem drop (haccounts : Accounts engine s) (hlive : ticket ∈ s.permits.live)
    (hself : call'.stage.Agrees (s.permits.release ticket) s.shutdown ticket) :
    Accounts engine ((s.putCall ticket call').dropPermit ticket) := by
  have hsound := haccounts.sound
  have hlength := hsound.length_live_release hlive
  have heq := haccounts.accepted_eq
  constructor
  case sound => exact hsound.release hlive
  case accepted_eq =>
    change s.accepted - 1 = (s.permits.release ticket).live.length
    omega
  case accepted_le => exact (Nat.sub_le _ _).trans haccounts.accepted_le
  case queueDepth => rfl
  case known =>
    intro other hother
    change other < (s.calls.set ticket _).length
    rw [List.length_set]
    exact haccounts.known other hother
  case agrees =>
    intro other found hfound
    rcases getElem?_set_cases hfound with ⟨rfl, rfl⟩ | ⟨hother, hold⟩
    · exact hself
    · have hsame := s.permits.mem_released_of_ne hother
      exact (haccounts.agrees other found hold).congr Iff.rfl hsame id

end Accounts

section Steps

variable [Kernels α] {engine : NaiveEngine α} {s s' : State α} {ticket : ℕ} {call : Call α}

/-- **Every step of a call keeps the accounts.** -/
theorem accounts_call (haccounts : Accounts engine s) (hcall : s.calls[ticket]? = some call)
    (hstep : CallStep engine ticket call s s') : Accounts engine s' := by
  have hagrees := haccounts.agrees ticket call hcall
  have hdropped : ticket ∈ (s.permits.release ticket).released :=
    List.mem_append_right _ (List.mem_singleton_self _)
  cases hstep with
  | unavailable hstage hshutdown =>
      rw [hstage] at hagrees
      refine haccounts.put rfl ⟨?_, hshutdown⟩ rfl rfl rfl rfl
      exact fun hlive ↦ hagrees (Permits.mem_live.mp hlive).1
  | goesOn hstage _ | queueFull hstage _ =>
      rw [hstage] at hagrees
      exact haccounts.put rfl hagrees rfl rfl rfl rfl
  | acquire hstage hroom => exact haccounts.acquire hcall hstage hroom
  | withdraw hstage hshutdown =>
      rw [hstage] at hagrees
      exact haccounts.put rfl ⟨hagrees, hshutdown⟩ rfl rfl rfl rfl
  | spawn hstage _ =>
      rw [hstage] at hagrees
      exact haccounts.put rfl hagrees rfl rfl rfl rfl
  | giveBack hstage =>
      rw [hstage] at hagrees
      exact haccounts.drop hagrees.1 ⟨Permits.notMem_live_release, hagrees.2⟩
  | task hstage hnext =>
      have hcontained := Naive.contained_task (Naive.taskStep_of_next hnext)
      exact haccounts.put rfl hagrees rfl rfl rfl hcontained.queueDepth
  | panic hstage _ =>
      rw [hstage] at hagrees
      exact haccounts.put rfl hagrees rfl rfl rfl rfl
  | finish hstage _ =>
      rw [hstage] at hagrees
      exact haccounts.drop hagrees hdropped
  | unwind hstage =>
      rw [hstage] at hagrees
      exact haccounts.drop hagrees hdropped

theorem accounts_step {action : Action α} (haccounts : Accounts engine s)
    (hstep : step engine action s = some s') : Accounts engine s' := by
  cases action with
  | submit req capacity =>
      obtain rfl := Option.some.inj hstep
      refine ⟨haccounts.sound, haccounts.accepted_eq, haccounts.accepted_le, haccounts.queueDepth,
        fun ticket hacquired ↦ ?_, fun ticket call hcall ↦ ?_⟩
      · change ticket < (s.calls ++ [_]).length
        rw [List.length_append]
        exact Nat.lt_succ_of_lt (haccounts.known ticket hacquired)
      · change (s.calls ++ [_])[ticket]? = some call at hcall
        rw [List.getElem?_append] at hcall
        split at hcall
        · exact haccounts.agrees ticket call hcall
        · rename_i hlast
          rw [List.getElem?_singleton] at hcall
          split at hcall
          · obtain rfl := Option.some.inj hcall
            exact fun hacquired ↦ hlast (haccounts.known ticket hacquired)
          · cases hcall
  | call ticket =>
      obtain ⟨call, hcall, hcallStep⟩ := Option.bind_eq_some_iff.mp hstep
      exact accounts_call haccounts hcall (callStep_cases hcallStep)
  | client ticket action =>
      obtain ⟨call, hcall, hmap⟩ := Option.bind_eq_some_iff.mp hstep
      obtain ⟨client, -, rfl⟩ := Option.map_eq_some_iff.mp hmap
      exact haccounts.put rfl (haccounts.agrees ticket call hcall) rfl rfl rfl rfl
  | shutdown =>
      obtain rfl := Option.some.inj hstep
      refine ⟨haccounts.sound, haccounts.accepted_eq, haccounts.accepted_le, haccounts.queueDepth,
        haccounts.known, fun ticket call hcall ↦ ?_⟩
      exact (haccounts.agrees ticket call hcall).congr Iff.rfl Iff.rfl fun _ ↦ rfl

theorem accounts_reachable (hreach : Reaches engine Anything init s) : Accounts engine s := by
  refine hreach.invariant (fun _ _ _ _ hbefore _ hnext ↦ accounts_step hbefore hnext) ?_
  refine ⟨Permits.sound_none, rfl, Nat.zero_le _, rfl, ?_, ?_⟩
  · exact fun _ hacquired ↦ (nomatch hacquired)
  · exact fun _ _ hcall ↦ (nomatch hcall)

end Steps

/-! ## Admission and the life of a call -/

/-- The task of the call is between `model.lock()` and the end of `run_naive_request`. -/
def Call.RunsModel (call : Call α) : Prop := call.stage = .spawned ∧ call.pc.HoldsModel

/-- Nobody but this call takes a step. -/
def OnlyCall (ticket : ℕ) : State α → Action α → Prop
  | _, .call other => other = ticket
  | _, .submit _ _ | _, .client _ _ | _, .shutdown => False

/-- What a step may do to the counter and to the permits. -/
inductive Counted (s s' : State α) : Prop
  | same (hpermits : s'.permits = s.permits) (haccepted : s'.accepted = s.accepted)
  | acquired (ticket : ℕ) (hpermits : s'.permits = s.permits.acquire ticket)
      (haccepted : s'.accepted = s.accepted + 1)
  | released (ticket : ℕ) (hpermits : s'.permits = s.permits.release ticket)
      (haccepted : s'.accepted + 1 = s.accepted)

/-- What admission guarantees in a state, and for the steps from it. -/
structure Lifecycle [Kernels α] (engine : NaiveEngine α) (s : State α) : Prop where
  accepted_eq : s.accepted = s.permits.live.length
  accepted_le : s.accepted ≤ engine.maxQueueDepth + 1
  live_iff : ∀ (ticket : ℕ) (call : Call α), s.calls[ticket]? = some call →
    (ticket ∈ s.permits.live ↔ call.stage.HoldsPermit)
  counted : ∀ action s', step engine action s = some s' → Counted s s'
  queueFull : ∀ (ticket : ℕ) (call : Call α), s.calls[ticket]? = some call → call.stage = .acquiring →
    ∃ s' call', step engine (.call ticket) s = some s' ∧ s'.calls[ticket]? = some call' ∧
      (call'.stage = .refused .queueFull ↔ s.permits.live.length = engine.maxQueueDepth + 1)
  queueFull_only : ∀ action s' (ticket : ℕ) (call call' : Call α), step engine action s = some s' →
    s.calls[ticket]? = some call → s'.calls[ticket]? = some call' →
    call'.stage = .refused .queueFull → call.stage = .refused .queueFull ∨ call.stage = .acquiring
  unavailable : ∀ (ticket : ℕ) (call : Call α), s.calls[ticket]? = some call →
    call.stage = .refused .unavailable → s.shutdown = true ∧ ticket ∉ s.permits.live
  exclusive : ∀ (first second : ℕ) (call call' : Call α), s.calls[first]? = some call →
    s.calls[second]? = some call' → call.RunsModel → call'.RunsModel → first = second
  released : ∀ (ticket : ℕ) (call : Call α), s.calls[ticket]? = some call → call.stage.IsAccepted →
    s.permits.acquired.count ticket = 1 ∧
      s.permits.released.count ticket = if call.stage = .finished then 1 else 0
  exits : ∀ (ticket : ℕ) (call : Call α), s.calls[ticket]? = some call → call.stage = .spawned →
    call.pc = .returned ∨ call.pc = .panicked →
    ∃ s' call', Reaches engine (OnlyCall ticket) s s' ∧ s'.calls[ticket]? = some call' ∧
      call'.stage = .finished ∧ s'.permits.released = s.permits.released ++ [ticket]
  wellFormed : ∀ call ∈ s.calls, WellFormed call.client.sent

section Main

variable [Kernels α] {engine : NaiveEngine α} {s s' : State α} {ticket : ℕ} {call call' : Call α}

omit [Kernels α] in
theorem getElem?_putCall (hcall : s.calls[ticket]? = some call) (call' : Call α) :
    (s.putCall ticket call').calls[ticket]? = some call' :=
  List.getElem?_set_self (lt_length_of_getElem? hcall)

theorem step_call (hcall : s.calls[ticket]? = some call) :
    step engine (.call ticket) s = callStep engine ticket call s := by
  change s.calls[ticket]?.bind _ = _
  rw [hcall]
  rfl

omit [Kernels α] in
/-- A permit is live exactly where it is in scope. -/
theorem Accounts.mem_live_iff (haccounts : Accounts engine s) (hcall : s.calls[ticket]? = some call) :
    ticket ∈ s.permits.live ↔ call.stage.HoldsPermit := by
  have hagrees := haccounts.agrees ticket call hcall
  have hnever : ticket ∉ s.permits.acquired → ticket ∉ s.permits.live :=
    fun hnot hlive ↦ hnot (Permits.mem_live.mp hlive).1
  cases hstage : call.stage with
  | entered | acquiring =>
      rw [hstage] at hagrees
      exact iff_of_false (hnever hagrees) id
  | admitted | spawned | unwinding =>
      rw [hstage] at hagrees
      exact iff_of_true hagrees trivial
  | withdrawn =>
      rw [hstage] at hagrees
      exact iff_of_true hagrees.1 trivial
  | finished =>
      rw [hstage] at hagrees
      exact iff_of_false (fun hlive ↦ (Permits.mem_live.mp hlive).2 hagrees) id
  | refused err =>
      rw [hstage] at hagrees
      cases err with
      | queueFull => exact iff_of_false (hnever hagrees) id
      | unavailable => exact iff_of_false hagrees.1 id

/-- The counter never saturates. -/
theorem Accounts.counted (haccounts : Accounts engine s) {action : Action α}
    (hstep : step engine action s = some s') : Counted s s' := by
  have hdrop : ∀ {ticket : ℕ} {call' : Call α}, ticket ∈ s.permits.live →
      Counted s ((s.putCall ticket call').dropPermit ticket) := fun hlive ↦
    .released _ rfl (Nat.sub_add_cancel (haccounts.accepted_pos hlive))
  cases action with
  | submit _ _ | shutdown =>
      obtain rfl := Option.some.inj hstep
      exact .same rfl rfl
  | client ticket action =>
      obtain ⟨call, hcall, hmap⟩ := Option.bind_eq_some_iff.mp hstep
      obtain ⟨client, -, rfl⟩ := Option.map_eq_some_iff.mp hmap
      exact .same rfl rfl
  | call ticket =>
      obtain ⟨call, hcall, hcallStep⟩ := Option.bind_eq_some_iff.mp hstep
      have hagrees := haccounts.agrees ticket call hcall
      cases callStep_cases hcallStep with
      | unavailable _ _ | goesOn _ _ | queueFull _ _ | withdraw _ _ | spawn _ _ | task _ _
      | panic _ _ => exact .same rfl rfl
      | acquire _ hroom => exact .acquired ticket rfl (tryAcquire_eq_some hroom).2
      | giveBack hstage =>
          rw [hstage] at hagrees
          exact hdrop hagrees.1
      | finish hstage _ =>
          rw [hstage] at hagrees
          exact hdrop hagrees
      | unwind hstage =>
          rw [hstage] at hagrees
          exact hdrop hagrees

/-- A call is refused for a full queue at its acquire step only. -/
theorem stage_of_queueFull {action : Action α} (hstep : step engine action s = some s')
    (hcall : s.calls[ticket]? = some call) (hcall' : s'.calls[ticket]? = some call')
    (hrefused : call'.stage = .refused .queueFull) :
    call.stage = .refused .queueFull ∨ call.stage = .acquiring := by
  have hkept : ∀ {other : ℕ} {found found' : Call α}, s.calls[other]? = some found →
      (s.calls.set other found')[ticket]? = some call' →
      (found'.stage = .refused .queueFull →
        found.stage = .refused .queueFull ∨ found.stage = .acquiring) →
      call.stage = .refused .queueFull ∨ call.stage = .acquiring := by
    intro other found found' hfound hset hself
    rcases getElem?_set_cases hset with ⟨rfl, rfl⟩ | ⟨-, hold⟩
    · obtain rfl := Option.some.inj (hcall.symm.trans hfound)
      exact hself hrefused
    · obtain rfl := Option.some.inj (hcall.symm.trans hold)
      exact Or.inl hrefused
  cases action with
  | submit req capacity =>
      obtain rfl := Option.some.inj hstep
      change (s.calls ++ [_])[ticket]? = some call' at hcall'
      rw [List.getElem?_append_left (lt_length_of_getElem? hcall), hcall] at hcall'
      exact Or.inl (Option.some.inj hcall' ▸ hrefused)
  | shutdown =>
      obtain rfl := Option.some.inj hstep
      exact Or.inl (Option.some.inj (hcall.symm.trans hcall') ▸ hrefused)
  | client other action =>
      obtain ⟨found, hfound, hmap⟩ := Option.bind_eq_some_iff.mp hstep
      obtain ⟨client, -, rfl⟩ := Option.map_eq_some_iff.mp hmap
      exact hkept hfound hcall' Or.inl
  | call other =>
      obtain ⟨found, hfound, hcallStep⟩ := Option.bind_eq_some_iff.mp hstep
      cases callStep_cases hcallStep with
      | queueFull hstage _ => exact hkept hfound hcall' fun _ ↦ Or.inr hstage
      | task _ _ => exact hkept hfound hcall' Or.inl
      | unavailable _ _ | goesOn _ _ | acquire _ _ | withdraw _ _ | spawn _ _ | giveBack _
      | panic _ _ | finish _ _ | unwind _ => exact hkept hfound hcall' fun hother ↦ nomatch hother

/-- What `try_acquire` makes of a call. -/
theorem exists_acquire (hdepth : engine.maxQueueDepth < Usize.maxValue)
    (haccounts : Accounts engine s) (hcall : s.calls[ticket]? = some call)
    (hstage : call.stage = .acquiring) :
    ∃ s' call', step engine (.call ticket) s = some s' ∧ s'.calls[ticket]? = some call' ∧
      (call'.stage = .refused .queueFull ↔ s.permits.live.length = engine.maxQueueDepth + 1) := by
  have hstep : step engine (.call ticket) s = some (acquirePermit engine ticket call s) := by
    rw [step_call hcall, callStep, hstage]
  have hfull := tryAcquire_eq_none hdepth haccounts.accepted_le
  rw [haccounts.accepted_eq] at hfull
  unfold acquirePermit at hstep
  rw [haccounts.accepted_eq] at hstep
  cases hroom : tryAcquire engine.maxQueueDepth s.permits.live.length with
  | none =>
      rw [hroom] at hstep
      exact ⟨_, _, hstep, getElem?_putCall hcall _, iff_of_true rfl (hfull.mp hroom)⟩
  | some accepted =>
      rw [hroom] at hstep
      refine ⟨_, _, hstep, getElem?_putCall hcall _, iff_of_false (nomatch ·) fun heq ↦ ?_⟩
      cases hroom.symm.trans (hfull.mpr heq)

/-- An unwinding task drops its permit. -/
theorem step_unwinding (hcall : s.calls[ticket]? = some call) (hstage : call.stage = .unwinding) :
    step engine (.call ticket) s =
      some ((s.putCall ticket { call with stage := .finished }).dropPermit ticket) := by
  rw [step_call hcall, callStep, hstage]

/-- A task that is over is done with at its next step. -/
theorem step_spawned_of_over (hcall : s.calls[ticket]? = some call) (hstage : call.stage = .spawned)
    (hover : call.pc = .returned ∨ call.pc = .panicked) :
    step engine (.call ticket) s = some (endTask ticket call s) := by
  have hnone : Naive.next engine.model call.req (s.task ticket call) = none := by
    have hsame : (s.task ticket call).pc = call.pc := rfl
    unfold Naive.next
    rcases hover with hpc | hpc
    · rw [hsame, hpc]
    · rw [hsame, hpc]
  rw [step_call hcall, callStep, hstage]
  dsimp only
  rw [runTask, hnone]

/-- **Every way out of the task ends with its permit being dropped**, and nobody else is needed. -/
theorem exists_finished (hcall : s.calls[ticket]? = some call) (hstage : call.stage = .spawned)
    (hover : call.pc = .returned ∨ call.pc = .panicked) :
    ∃ s' call', Reaches engine (OnlyCall ticket) s s' ∧ s'.calls[ticket]? = some call' ∧
      call'.stage = .finished ∧ s'.permits.released = s.permits.released ++ [ticket] := by
  have hown : ∀ s : State α, OnlyCall ticket s (.call ticket) := fun _ ↦ rfl
  have hstep : step engine (.call ticket) s = some (endTask ticket call s) :=
    step_spawned_of_over hcall hstage hover
  rcases hover with hpc | hpc
  · rw [endTask_of_returned ticket hpc] at hstep
    exact ⟨_, _, .step .refl (hown s) hstep, getElem?_putCall hcall _, rfl, rfl⟩
  · rw [endTask_of_panicked ticket hpc] at hstep
    have hput := getElem?_putCall hcall { call with stage := .unwinding }
    let unwinding : State α := { s.putCall ticket { call with stage := .unwinding } with
      owner := if s.owner = some ticket then none else s.owner }
    have hunwind : step engine (.call ticket) unwinding = some _ := step_unwinding hput rfl
    exact ⟨_, _, .step (.step .refl (hown s) hstep) (hown unwinding) hunwind,
      getElem?_putCall hput _, rfl, rfl⟩

omit [Kernels α] in
/-- An accepted call has one permit, and has given it back when it is finished. -/
theorem Accounts.released_once (haccounts : Accounts engine s) (hcall : s.calls[ticket]? = some call)
    (haccepted : call.stage.IsAccepted) :
    s.permits.acquired.count ticket = 1 ∧
      s.permits.released.count ticket = if call.stage = .finished then 1 else 0 := by
  have hsound := haccounts.sound
  have hagrees := haccounts.agrees ticket call hcall
  have hlive : ticket ∈ s.permits.live → s.permits.acquired.count ticket = 1 ∧
      s.permits.released.count ticket = 0 := by
    intro hlive
    obtain ⟨hacquired, hkept⟩ := Permits.mem_live.mp hlive
    exact ⟨List.count_eq_one_of_mem hsound.acquired_nodup hacquired, List.count_eq_zero.mpr hkept⟩
  cases hstage : call.stage with
  | spawned | unwinding =>
      rw [hstage] at hagrees
      exact hlive hagrees
  | finished =>
      rw [hstage] at hagrees
      exact ⟨List.count_eq_one_of_mem hsound.acquired_nodup (hsound.released_subset hagrees),
        List.count_eq_one_of_mem hsound.released_nodup hagrees⟩
  | entered | acquiring | admitted | withdrawn | refused _ =>
      rw [hstage] at haccepted
      cases haccepted

end Main

instance (s : State α) (action : Action α) : Decidable (Anything s action) := isTrue trivial

/-- **Admission to the naive engine and the life of its calls.** In every run of any calls, tasks and
connections and the operator: the counter is the number of live permits, at most one more than
`max_queue_depth`, and never saturates; a call is refused for a full queue exactly when that many
permits are live at its acquire step, and for unavailability only after the shutdown and without a
permit; one task runs the model at a time; an accepted call releases its permit once, whatever way
its task ends; and its channel carries tokens and then at most one terminal item. -/
theorem naive_admission [Kernels α] (engine : NaiveEngine α)
    (hdepth : engine.maxQueueDepth < Usize.maxValue) :
    ∀ s, Reaches engine Anything init s → Lifecycle engine s := by
  intro s hreach
  have haccounts := accounts_reachable hreach
  have hprojects := projects_reachable hreach
  constructor
  case accepted_eq => exact haccounts.accepted_eq
  case accepted_le => exact haccounts.accepted_le
  case live_iff => exact fun ticket call hcall ↦ haccounts.mem_live_iff hcall
  case counted => exact fun action s' hstep ↦ haccounts.counted hstep
  case queueFull => exact fun ticket call hcall hstage ↦ exists_acquire hdepth haccounts hcall hstage
  case queueFull_only =>
    exact fun action s' ticket call call' hstep hcall hcall' hrefused ↦
      stage_of_queueFull hstep hcall hcall' hrefused
  case unavailable =>
    intro ticket call hcall hstage
    have hagrees := haccounts.agrees ticket call hcall
    rw [hstage] at hagrees
    exact ⟨hagrees.2, hagrees.1⟩
  case exclusive =>
    rintro first second call call' hcall hcall' ⟨hstage, hholds⟩ ⟨hstage', hholds'⟩
    have howner := hprojects.owner_of_holdsModel hcall hstage hholds
    have howner' := hprojects.owner_of_holdsModel hcall' hstage' hholds'
    exact Option.some.inj (howner.symm.trans howner')
  case released => exact fun ticket call hcall haccepted ↦ haccounts.released_once hcall haccepted
  case exits => exact fun ticket call hcall hstage hover ↦ exists_finished hcall hstage hover
  case wellFormed =>
    intro call hmem
    obtain ⟨ticket, hcall⟩ := List.mem_iff_getElem?.mp hmem
    exact hprojects.wellFormed hcall

/-- One request may be in the engine at a time. -/
def tinyEngine : NaiveEngine ℚ := ⟨.scripted tinyScripted, 0⟩

def tinyRequest : GenerationRequest ℚ := ⟨"a", [1], tinyConfig, 0, 0, 0⟩

/-- One call has spawned its task, and another is about to ask for a permit. -/
def tinyBusy : State ℚ :=
  (Transition.run (step tinyEngine) Anything
    ([.submit tinyRequest 5, .submit tinyRequest 5] ++ List.replicate 3 (.call 0) ++ [.call 1])
    init).getD init

/-- The task of the first call has run to its end. -/
def tinyServed : State ℚ :=
  (Transition.run (step tinyEngine) Anything (List.replicate 36 (.call 0)) tinyBusy).getD tinyBusy

theorem naive_admission_tinyBusy :
    tinyBusy.permits.live = [0] ∧ (∃ s' call', step tinyEngine (.call 1) tinyBusy = some s' ∧
      s'.calls[1]? = some call' ∧ call'.stage = .refused .queueFull) ∧
    tinyServed.permits.released.count 0 = 1 ∧ tinyServed.accepted = 0 := by
  have hbusy : Reaches tinyEngine Anything init tinyBusy :=
    Transition.reaches_getD_run (by decide +kernel) init
  have hserved : Reaches tinyEngine Anything init tinyServed :=
    hbusy.trans (Transition.reaches_getD_run (by decide +kernel) tinyBusy)
  have hlive : tinyBusy.permits.live = [0] := by decide +kernel
  have hbefore := naive_admission tinyEngine (by decide) tinyBusy hbusy
  have hafter := naive_admission tinyEngine (by decide) tinyServed hserved
  refine ⟨hlive, ?_, ?_, by decide +kernel⟩
  · obtain ⟨call, hcall⟩ := Option.isSome_iff_exists.mp
      (by decide +kernel : (tinyBusy.calls[1]?).isSome = true)
    have hstage : call.stage = .acquiring := by
      have hstage : (tinyBusy.calls[1]?).map Call.stage = some .acquiring := by decide +kernel
      rw [hcall] at hstage
      exact Option.some.inj hstage
    obtain ⟨s', call', hstep, hcall', hfull⟩ := hbefore.queueFull 1 call hcall hstage
    refine ⟨s', call', hstep, hcall', hfull.mpr ?_⟩
    rw [hlive]
    rfl
  · obtain ⟨call, hcall⟩ := Option.isSome_iff_exists.mp
      (by decide +kernel : (tinyServed.calls[0]?).isSome = true)
    have hstage : call.stage = .finished := by
      have hstage : (tinyServed.calls[0]?).map Call.stage = some .finished := by decide +kernel
      rw [hcall] at hstage
      exact Option.some.inj hstage
    obtain ⟨-, hreleased⟩ := hafter.released 0 call hcall (hstage ▸ trivial)
    rw [hreleased, if_pos hstage]

end NaiveEngine

end HotBatch
