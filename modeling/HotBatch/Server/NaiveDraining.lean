import HotBatch.Server.Admission
import HotBatch.Server.NaiveAnswers

/-!
# The naive engine comes to rest

Every task ends, however it is disturbed, if it gets the model whenever it asks for it. A call that
has been spawned while nobody else holds the model therefore ends on its own, and gives the model
back. So the calls of the engine can always be brought to their ends, one after the other, the holder
of the model first.
-/

namespace HotBatch

namespace Naive

variable {α : Type} {model : SmallTransformer α} {req : GenerationRequest α} {s s' : State α}

/-! ## A task holds the model only inside the mutex -/

/-- The mutex is the task's only while it runs the model. -/
def State.Tenured (s : State α) : Prop := s.owner = .task → s.pc.HoldsModel

theorem Pc.not_holdsModel_of_isOutside {pc : Pc α} (houtside : pc.IsOutside) : ¬ pc.HoldsModel := by
  cases pc with
  | checkShutdown stage | checkDone stage | checkClosed stage => exact fun hholds ↦ hholds houtside
  | acquire => exact id
  | _ => exact houtside.elim

theorem tenured_leave (serving : Option (Serving α)) (pc : Pc α) (s : State α) :
    (s.leave serving pc).Tenured := by
  intro howner
  change (if s.owner = .task then Owner.nobody else s.owner) = .task at howner
  split at howner
  case isTrue => cases howner
  case isFalse hnot => exact absurd howner hnot

theorem tenured_goto {pc : Pc α} (htenured : s.Tenured) (hpc : s.pc.HoldsModel → pc.HoldsModel) :
    (s.goto pc).Tenured := fun howner ↦ hpc (htenured howner)

theorem tenured_abandon (stage : Stage α) (s : State α) : (abandon stage s).Tenured := by
  cases stage <;> exact tenured_leave _ _ s

theorem tenured_enterLoop (serving : Serving α) (s : State α) : (enterLoop serving s).Tenured := by
  unfold enterLoop
  split
  · exact tenured_leave _ _ s
  · exact fun _ ↦ id

theorem tenured_proceed {stage : Stage α} (htenured : s.Tenured)
    (hstage : s.pc.HoldsModel → ¬ stage.IsOutside) : (proceed stage s).Tenured := by
  cases stage with
  | entry | waiting => exact tenured_goto htenured fun hholds ↦ absurd trivial (hstage hholds)
  | prefilled serving => exact tenured_enterLoop _ s
  | locked | looping _ | passed _ _ | created _ => exact fun _ ↦ trivial

theorem tenured_endTurn (serving : Serving α) (s : State α) : (endTurn serving s).Tenured :=
  tenured_enterLoop _ _

variable [Kernels α]

theorem tenured_task (htenured : s.Tenured) (hstep : TaskStep model req s s') : s'.Tenured := by
  cases hstep with
  | shutdown _ _ => exact tenured_leave _ _ s
  | goesOn hpc _ | looksAtReceiver hpc _ _ =>
      refine tenured_goto htenured fun hholds ↦ ?_
      rw [hpc] at hholds
      exact hholds
  | responseDone _ _ => exact tenured_abandon _ s
  | responseWanted hpc _ _ | stillOpen hpc _ =>
      refine tenured_proceed htenured fun hholds ↦ ?_
      rw [hpc] at hholds
      exact hholds
  | closed _ _ => exact tenured_abandon _ _
  | acquire hpc =>
      unfold acquire
      split
      · exact fun _ ↦ id
      · refine tenured_goto htenured fun hholds ↦ ?_
        rw [hpc] at hholds
        exact hholds.elim
  | create _ =>
      unfold create
      split
      · exact tenured_leave _ _ s
      · exact fun _ ↦ id
  | prefill _ =>
      unfold prefill
      split
      · exact tenured_leave _ _ s
      · exact fun _ ↦ id
  | forward _ =>
      unfold forward
      split
      · exact tenured_leave _ _ s
      · exact fun _ ↦ id
  | @sampleToken serving logits _ =>
      unfold sampleToken
      split
      · exact tenured_leave _ _ s
      split
      · exact fun _ ↦ trivial
      dsimp only
      split
      · exact fun _ ↦ trivial
      · exact tenured_endTurn _ _
  | @sendItems serving items _ =>
      cases items with
      | nil => exact tenured_endTurn serving s
      | cons item rest => exact fun _ ↦ trivial
  | answer hpc =>
      intro howner
      have hholds := htenured howner
      rw [hpc] at hholds
      exact hholds.elim

theorem tenured_reachable {capacity : ℕ}
    (hreach : Reaches model req Anything (init capacity) s) : s.Tenured := by
  have hstart : (init capacity : State α).Tenured := by
    intro howner
    cases howner
  refine hreach.invariant ?_ hstart
  intro s s' action _ htenured _ hstep
  cases action with
  | task => exact tenured_task htenured (taskStep_of_next hstep)
  | client action =>
      obtain ⟨client, -, rfl⟩ := Option.map_eq_some_iff.mp hstep
      exact htenured
  | shutdown =>
      obtain rfl := Option.some.inj hstep
      exact htenured
  | lockModel | unlockModel =>
      simp only [step] at hstep
      split at hstep
      · obtain rfl := Option.some.inj hstep
        intro howner
        cases howner
      · cases hstep

/-! ## Every step comes closer to the end -/

/-- One more token has been generated, or its update has been refused and the task gives up. -/
theorem smaller_sampleToken_of_tracks (hnew : 0 < req.maxNewTokens) {serving : Serving α}
    {logits : List (LogitRow α)} (hpc : s.pc = .sampleToken serving logits)
    (hstage : (Stage.passed serving logits).OnCourse model req (s.view req)) :
    Smaller ((sampleToken serving logits s).measure req) (s.measure req) := by
  obtain ⟨hdone, -, turns, hturn, -, rfl, -⟩ := hstage
  obtain ⟨tokens, stepped, hadvance⟩ := hturn.serves.exists_advance
    (model.decodeRow (PrivateState.after model req serving.seq.kvHandle turns).store
      serving.seq.decodeInput).1
  obtain ⟨-, -, -, -, -, -, hgenerated⟩ := Sequence.advance_frame hadvance
  obtain ⟨hlength, hlt⟩ := PrivateState.generated_length hnew (hturn.after_not_done hdone)
  rw [← hturn.seq_eq] at hlength
  unfold sampleToken logitRow
  rw [List.getElem?_cons_zero]
  dsimp only
  rw [hadvance]
  dsimp only
  split
  · apply Prod.Lex.left
    rw [hpc]
    change req.maxNewTokens - stepped.generatedTokens.length <
      req.maxNewTokens - serving.seq.generatedTokens.length
    rw [hgenerated, List.length_append, hlength, List.length_singleton]
    omega
  · unfold endTurn enterLoop
    rw [if_pos stepped.cancel_isDone]
    refine smaller_of_rank (Nat.zero_le _) ?_
    rw [hpc]
    exact Nat.zero_lt_succ 4

/-- **Every step brings a task closer to its end**, disturbed or not, if it finds the model free. -/
theorem smaller_of_tracks (hadmissible : req.Admissible) (htracks : s.Tracks model req)
    (hfree : s.pc.IsOutside → s.owner = .nobody) (hstep : TaskStep model req s s') :
    Smaller (s'.measure req) (s.measure req) := by
  have hmoved : ∀ {s' : State α} {pc pc' : Pc α}, s.pc = pc → s'.pc = pc' →
      pc'.toGo req ≤ pc.toGo req → pc'.rank < pc.rank →
        Smaller (s'.measure req) (s.measure req) := by
    rintro s' _ _ rfl rfl htoGo hrank
    exact smaller_of_rank htoGo hrank
  have habandon : ∀ (stage : Stage α) (s : State α), (abandon stage s).pc = .returned := by
    intro stage s
    cases stage <;> rfl
  have hproceed : ∀ {stage : Stage α}, s.pc.toGo req = stage.toGo req →
      stage.rank ≤ s.pc.rank → Smaller ((proceed stage s).measure req) (s.measure req) :=
    fun htoGo hrank ↦ smaller_proceed htoGo.ge hrank
  cases hstep with
  | shutdown hpc _ => exact hmoved hpc rfl (Nat.zero_le _) (by simp [Pc.rank])
  | goesOn hpc _ => exact hmoved hpc rfl (Nat.le_refl _) (Nat.lt_succ_self _)
  | @responseDone stage hpc _ =>
      exact hmoved hpc (habandon stage s) (Nat.zero_le _) (Nat.zero_lt_succ _)
  | looksAtReceiver hpc _ _ => exact hmoved hpc rfl (Nat.le_refl _) (Nat.lt_succ_self _)
  | responseWanted hpc _ _ => exact hproceed (by rw [hpc]; rfl) (by rw [hpc]; exact Nat.le_succ _)
  | stillOpen hpc _ => exact hproceed (by rw [hpc]; rfl) (by rw [hpc]; exact Nat.le_refl _)
  | @closed stage hpc _ =>
      refine hmoved hpc (habandon stage _) (Nat.zero_le _) ?_
      cases stage <;> exact Nat.zero_lt_succ _
  | acquire hpc =>
      unfold acquire
      rw [if_pos (hfree (by rw [hpc]; trivial))]
      exact hmoved hpc rfl (Nat.le_refl _) (by simp [Pc.rank, Stage.rank])
  | create hpc =>
      unfold create
      split
      · exact hmoved hpc rfl (Nat.zero_le _) (by simp [Pc.rank])
      · exact hmoved hpc rfl (Nat.sub_le _ _) (by simp [Pc.rank, Stage.rank])
  | prefill hpc =>
      unfold prefill
      split
      · exact hmoved hpc rfl (Nat.zero_le _) (by simp [Pc.rank])
      · exact hmoved hpc rfl (Nat.le_refl _) (by simp [Pc.rank, Stage.rank])
  | forward hpc =>
      unfold forward
      split
      · exact hmoved hpc rfl (Nat.zero_le _) (by simp [Pc.rank])
      · exact hmoved hpc rfl (Nat.le_refl _) (by simp [Pc.rank, Stage.rank])
  | sendItems hpc => exact smaller_sendItems hpc
  | answer hpc => exact hmoved hpc rfl (Nat.le_refl _) Nat.zero_lt_one
  | @sampleToken serving logits hpc =>
      have hstage : (Stage.passed serving logits).OnCourse model req (s.view req) := by
        unfold State.Tracks at htracks
        rw [hpc] at htracks
        exact htracks
      exact smaller_sampleToken_of_tracks hadmissible.maxNew_pos hpc hstage

end Naive

namespace NaiveEngine

variable {α : Type}

/-- A call that has come to its end takes no step any more. -/
def Stage.rests : Stage → Bool
  | refused _ | finished => true
  | entered | acquiring | admitted | withdrawn | spawned | unwinding => false

def Stage.rank : Stage → ℕ
  | entered => 5
  | acquiring => 4
  | admitted => 3
  | spawned => 2
  | withdrawn | unwinding => 1
  | refused _ | finished => 0

/-- How far a call still has to go. -/
def Call.measure (call : Call α) : ℕ × ℕ × ℕ :=
  (call.stage.rank, call.pc.toGo call.req, call.pc.rank)

abbrev Smaller : ℕ × ℕ × ℕ → ℕ × ℕ × ℕ → Prop := Prod.Lex (· < ·) Naive.Smaller

theorem wellFounded_smaller : WellFounded Smaller :=
  WellFounded.prod_lex wellFounded_lt (WellFounded.prod_lex wellFounded_lt wellFounded_lt)

/-- Everything that is submitted has a prompt and a limit, and they do not overflow. -/
def Admits : State α → Action α → Prop
  | _, .submit req _ => req.Admissible
  | _, .call _ | _, .client _ _ | _, .shutdown => True

/-- Only the calls take steps, and nobody disturbs them. -/
def OnlyCalls : State α → Action α → Prop
  | _, .call _ => True
  | _, .submit _ _ | _, .client _ _ | _, .shutdown => False

theorem OnlyCall.onlyCalls {ticket : ℕ} {s : State α} {action : Action α}
    (honly : OnlyCall ticket s action) : OnlyCalls s action := by
  cases action with
  | submit _ _ | client _ _ | shutdown => exact honly.elim
  | call _ => trivial

theorem OnlyCall.admits {ticket : ℕ} {s : State α} {action : Action α}
    (honly : OnlyCall ticket s action) : Admits s action := by
  cases action with
  | submit _ _ => exact honly.elim
  | call _ | client _ _ | shutdown => trivial

/-- No call can take a step, no permit is out, and the model is free. -/
structure State.Rests (s : State α) : Prop where
  calls : ∀ call ∈ s.calls, call.stage.rests = true
  accepted : s.accepted = 0
  permits : s.permits.live = []
  owner : s.owner = none

/-- Every request is admissible, and whoever holds the model has been spawned. -/
structure State.Orderly (s : State α) : Prop where
  admissible : ∀ call ∈ s.calls, call.req.Admissible
  owner : ∀ (ticket : ℕ) (call : Call α), s.calls[ticket]? = some call → s.owner = some ticket →
    call.stage = .spawned

section Runs

variable [Kernels α] {engine : NaiveEngine α} {s s' : State α} {ticket : ℕ} {call : Call α}

/-- What an engine with admissible requests keeps to. -/
structure Served (engine : NaiveEngine α) (s : State α) : Prop where
  projects : Projects engine s
  accounts : Accounts engine s
  orderly : s.Orderly

/-- The task of a call that is not over, as the task alone that it follows. -/
theorem Served.exists_task (hserved : Served engine s) (hcall : s.calls[ticket]? = some call)
    (hover : ¬ call.stage.IsOver) : ∃ capacity task,
      Naive.Reaches engine.model call.req Naive.Anything (Naive.init capacity) task ∧
      Naive.SameTask (s.task ticket call) task := by
  obtain ⟨capacity, task, hreach, hpc, hclient, hhistory, hshared⟩ :=
    hserved.projects.tracked ticket call hcall
  obtain ⟨hshutdown, howner⟩ := hshared hover
  exact ⟨capacity, task, hreach, hpc, hclient, hshutdown, howner, hhistory⟩

theorem Served.admissible_of_call (hserved : Served engine s)
    (hcall : s.calls[ticket]? = some call) : call.req.Admissible :=
  hserved.orderly.admissible call (List.mem_of_getElem? hcall)

/-- A task that has returned does not hold the model. -/
theorem Served.not_owner_of_returned (hserved : Served engine s)
    (hcall : s.calls[ticket]? = some call) (hover : ¬ call.stage.IsOver)
    (hpc : call.pc = .returned) : s.owner ≠ some ticket := by
  intro howner
  obtain ⟨capacity, task, hreach, hsame⟩ := hserved.exists_task hcall hover
  have htask : task.owner = .task := by
    rw [hsame.owner]
    change ownerFor ticket s.owner = .task
    rw [howner]
    exact if_pos rfl
  have hholds := Naive.tenured_reachable hreach htask
  rw [hsame.pc] at hholds
  change call.pc.HoldsModel at hholds
  rw [hpc] at hholds
  exact hholds

/-- The calls that a step leaves alone. -/
theorem orderly_put (hserved : Served engine s) (hcall : s.calls[ticket]? = some call)
    (call' : Call α) (hcalls : s'.calls = s.calls.set ticket call') (hreq : call'.req = call.req)
    (howner : s'.owner = some ticket → call'.stage = .spawned)
    (hothers : ∀ other, other ≠ ticket → s'.owner = some other → s.owner = some other) :
    s'.Orderly := by
  have hcases : ∀ {other : ℕ} {found : Call α}, s'.calls[other]? = some found →
      other = ticket ∧ found = call' ∨ other ≠ ticket ∧ s.calls[other]? = some found := by
    intro other found hfound
    rw [hcalls] at hfound
    exact getElem?_set_cases hfound
  constructor
  · intro found hmem
    obtain ⟨other, hfound⟩ := List.mem_iff_getElem?.mp hmem
    rcases hcases hfound with ⟨-, rfl⟩ | ⟨-, hbefore⟩
    · rw [hreq]
      exact hserved.admissible_of_call hcall
    · exact hserved.admissible_of_call hbefore
  · intro other found hfound hholder
    rcases hcases hfound with ⟨rfl, rfl⟩ | ⟨hother, hbefore⟩
    · exact howner hholder
    · exact hserved.orderly.owner other found hbefore (hothers other hother hholder)

theorem orderly_call (hserved : Served engine s) (hcall : s.calls[ticket]? = some call)
    (hstep : CallStep engine ticket call s s') : s'.Orderly := by
  have howned := hserved.orderly.owner ticket call hcall
  have hnever : call.stage ≠ .spawned → s.owner ≠ some ticket :=
    fun hstage howner ↦ hstage (howned howner)
  cases hstep with
  | unavailable hstage _ | goesOn hstage _ | queueFull hstage _ | acquire hstage _
  | withdraw hstage _ | spawn hstage _ | giveBack hstage | unwind hstage =>
      have hnot : s.owner ≠ some ticket := hnever (by rw [hstage]; exact nofun)
      exact orderly_put hserved hcall _ rfl rfl (fun howner ↦ absurd howner hnot) fun _ _ ↦ id
  | @task task hstage hnext =>
      refine orderly_put hserved hcall _ rfl rfl (fun _ ↦ hstage) fun other hother howner ↦ ?_
      unfold State.putTask at howner
      dsimp only at howner
      split at howner
      · cases howner
      · exact absurd (Option.some.inj howner).symm hother
      · exact howner
  | panic hstage _ =>
      refine orderly_put hserved hcall _ rfl rfl ?_ fun other hother howner ↦ ?_
      · intro howner
        change (if s.owner = some ticket then none else s.owner) = some ticket at howner
        split at howner
        case isTrue => cases howner
        case isFalse hnot => exact absurd howner hnot
      · change (if s.owner = some ticket then none else s.owner) = some other at howner
        split at howner
        case isTrue => cases howner
        case isFalse => exact howner
  | finish hstage hpc =>
      have hnot : s.owner ≠ some ticket :=
        hserved.not_owner_of_returned hcall (by rw [hstage]; exact id) hpc
      exact orderly_put hserved hcall _ rfl rfl (fun howner ↦ absurd howner hnot) fun _ _ ↦ id

theorem served_reachable (hreach : Reaches engine Admits init s) : Served engine s := by
  induction hreach with
  | refl =>
      exact ⟨projects_reachable .refl, accounts_reachable .refl,
        fun _ hmem ↦ absurd hmem List.not_mem_nil, fun _ _ _ howner ↦ nomatch howner⟩
  | @step before after action hbefore hallowed hstep ih =>
      have hany : Reaches engine Anything init after :=
        (hbefore.step hallowed hstep).mono fun _ _ _ ↦ trivial
      have hprojects := projects_reachable hany
      have haccounts := accounts_reachable hany
      cases action with
      | submit req capacity =>
          obtain rfl := Option.some.inj hstep
          refine ⟨hprojects, haccounts, fun call hmem ↦ ?_, fun ticket call hcall howner ↦ ?_⟩
          · rcases List.mem_append.mp hmem with hold | hnew
            · exact ih.orderly.admissible call hold
            · rw [List.mem_singleton.mp hnew]
              exact hallowed
          · have hlt : ticket < before.calls.length := ih.projects.owner_lt ticket howner
            have hcall' : (before.calls ++ [Call.new req capacity])[ticket]? = some call := hcall
            rw [List.getElem?_append_left hlt] at hcall'
            exact ih.orderly.owner ticket call hcall' howner
      | call ticket =>
          obtain ⟨call, hcall, hcallStep⟩ := Option.bind_eq_some_iff.mp hstep
          exact ⟨hprojects, haccounts, orderly_call ih hcall (callStep_cases hcallStep)⟩
      | client ticket action =>
          obtain ⟨call, hcall, hmap⟩ := Option.bind_eq_some_iff.mp hstep
          obtain ⟨client, -, rfl⟩ := Option.map_eq_some_iff.mp hmap
          exact ⟨hprojects, haccounts, orderly_put ih hcall { call with client := client } rfl rfl
            (ih.orderly.owner ticket call hcall) fun _ _ ↦ id⟩
      | shutdown =>
          obtain rfl := Option.some.inj hstep
          exact ⟨hprojects, haccounts, ih.orderly.admissible, ih.orderly.owner⟩

/-! ## One call comes to its end -/

/-- A call that does not rest can take a step. -/
theorem callStep_isSome (hrests : call.stage.rests = false) :
    ∃ s', callStep engine ticket call s = some s' := by
  unfold callStep
  cases hstage : call.stage with
  | refused _ | finished =>
      rw [hstage] at hrests
      cases hrests
  | entered | acquiring | admitted | withdrawn | spawned | unwinding => exact ⟨_, rfl⟩

/-- **A step of a call brings it closer to its end**, if nobody else holds the model. -/
theorem smaller_call (hserved : Served engine s) (hcall : s.calls[ticket]? = some call)
    (hfree : s.owner = none ∨ s.owner = some ticket) (hstep : CallStep engine ticket call s s') :
    (s'.owner = none ∨ s'.owner = some ticket) ∧
      ∃ call', s'.calls = s.calls.set ticket call' ∧ Smaller call'.measure call.measure := by
  have hstaged : ∀ {stage stage' : Stage}, call.stage = stage → stage'.rank < stage.rank →
      Smaller ({ call with stage := stage' } : Call α).measure call.measure := by
    rintro _ stage' rfl hlt
    exact Prod.Lex.left _ _ hlt
  cases hstep with
  | unavailable hstage _ | goesOn hstage _ | queueFull hstage _ | acquire hstage _
  | withdraw hstage _ | spawn hstage _ | giveBack hstage | unwind hstage =>
      exact ⟨hfree, _, rfl, hstaged hstage (by decide)⟩
  | finish hstage _ => exact ⟨hfree, _, rfl, hstaged hstage (by decide)⟩
  | panic hstage _ =>
      refine ⟨?_, _, rfl, hstaged hstage (by decide)⟩
      change (if s.owner = some ticket then none else s.owner) = none ∨
        (if s.owner = some ticket then none else s.owner) = some ticket
      split
      case isTrue => exact Or.inl rfl
      case isFalse hnot => exact Or.inl (hfree.resolve_right hnot)
  | @task task hstage hnext =>
      have hadmissible := hserved.admissible_of_call hcall
      obtain ⟨capacity, alone, hreach, hsame⟩ :=
        hserved.exists_task hcall (by rw [hstage]; exact id)
      obtain ⟨alone', hnext', hsame'⟩ := Naive.sameTask_next hsame hnext
      have htracks := Naive.tracks_reachable hadmissible hreach
      have howner : alone.owner = .nobody ∨ alone.owner = .task := by
        rw [hsame.owner]
        change ownerFor ticket s.owner = _ ∨ ownerFor ticket s.owner = _
        rcases hfree with hnone | hself
        · rw [hnone]
          exact Or.inl rfl
        · rw [hself]
          exact Or.inr (if_pos rfl)
      have houtside : alone.pc.IsOutside → alone.owner = .nobody := by
        intro houtside
        refine howner.resolve_right fun htask ↦ ?_
        exact Naive.Pc.not_holdsModel_of_isOutside houtside (Naive.tenured_reachable hreach htask)
      have hsmaller := Naive.smaller_of_tracks hadmissible htracks houtside
        (Naive.taskStep_of_next hnext')
      have hcontained := Naive.contained_task (Naive.taskStep_of_next hnext)
      refine ⟨?_, _, rfl, ?_⟩
      · obtain ⟨-, hmoves⟩ := ownerFor_putTask hcontained
        rcases hmoves with hsameOwner | ⟨-, htaken⟩ | ⟨-, hreleased⟩
        · rw [hsameOwner]
          exact hfree
        · exact Or.inr htaken
        · exact Or.inl hreleased
      · unfold Naive.State.measure at hsmaller
        rw [hsame.pc, hsame'.pc] at hsmaller
        exact Prod.Lex.right _ hsmaller

/-- Runs of one call change this call only. -/
structure Attended (start : State α) (ticket : ℕ) (s : State α) : Prop where
  free : s.owner = none ∨ s.owner = some ticket
  calls : ∃ call, s.calls = start.calls.set ticket call ∧ s.calls[ticket]? = some call

theorem attended_step (hserved : Served engine s') {start : State α} {action : Action α}
    {after : State α} (hattended : Attended start ticket s') (honly : OnlyCall ticket s' action)
    (hstep : step engine action s' = some after) : Attended start ticket after := by
  cases action with
  | submit _ _ | client _ _ | shutdown => exact honly.elim
  | call other =>
      obtain rfl : other = ticket := honly
      obtain ⟨call, hcalls, hcall⟩ := hattended.calls
      rw [step_call hcall] at hstep
      obtain ⟨hfree, call', hset, -⟩ :=
        smaller_call hserved hcall hattended.free (callStep_cases hstep)
      refine ⟨hfree, call', ?_, ?_⟩
      · rw [hset, hcalls, List.set_set]
      · rw [hset]
        exact List.getElem?_set_self (lt_length_of_getElem? hcall)

/-- **A call that nobody keeps from the model comes to its end on its own**, and leaves the model
free. -/
theorem exists_rests (hreach : Reaches engine Admits init s) (hcall : s.calls[ticket]? = some call)
    (hfree : s.owner = none ∨ s.owner = some ticket) :
    ∃ s' call', Reaches engine (OnlyCall ticket) s s' ∧ s'.calls = s.calls.set ticket call' ∧
      call'.stage.rests = true ∧ s'.owner = none := by
  have hadmits : ∀ s', Reaches engine (OnlyCall ticket) s s' → Served engine s' := by
    intro s' hrun
    exact served_reachable (hreach.trans (hrun.mono fun _ _ ↦ OnlyCall.admits))
  have hattended : ∀ s', Reaches engine (OnlyCall ticket) s s' → Attended s ticket s' := by
    intro s' hrun
    refine hrun.invariant (fun s' after action hbefore hattended honly hstep ↦
      attended_step (hadmits s' hbefore) hattended honly hstep) ⟨hfree, call, ?_, hcall⟩
    obtain ⟨hlt, rfl⟩ := List.getElem?_eq_some_iff.mp hcall
    exact (List.set_getElem_self hlt).symm
  have hends : ∃ s', Reaches engine (OnlyCall ticket) s s' ∧
      ∃ call', s'.calls[ticket]? = some call' ∧ call'.stage.rests = true := by
    refine Transition.exists_reaches_final wellFounded_smaller
      (fun s ↦ (s.calls[ticket]?.map Call.measure).getD (0, 0, 0)) ?_
    intro before hrun hnot
    obtain ⟨found, -, hfound⟩ := (hattended before hrun).calls
    have hmoves : found.stage.rests = false :=
      Bool.eq_false_iff.mpr fun hrests ↦ hnot ⟨found, hfound, hrests⟩
    obtain ⟨after, hcallStep⟩ : ∃ after, callStep engine ticket found before = some after :=
      callStep_isSome hmoves
    have hstep : step engine (.call ticket) before = some after := (step_call hfound).trans hcallStep
    obtain ⟨-, call', hset, hsmaller⟩ := smaller_call (hadmits before hrun) hfound
      (hattended before hrun).free (callStep_cases hcallStep)
    have hafter : after.calls[ticket]? = some call' := by
      rw [hset]
      exact List.getElem?_set_self (lt_length_of_getElem? hfound)
    refine ⟨.call ticket, after, rfl, hstep, ?_⟩
    rw [hafter, hfound]
    exact hsmaller
  obtain ⟨s', hrun, call', hcall', hrests⟩ := hends
  obtain ⟨found, hcalls, hfound⟩ := (hattended s' hrun).calls
  obtain rfl : call' = found := Option.some.inj (hcall'.symm.trans hfound)
  refine ⟨s', call', hrun, hcalls, hrests, ?_⟩
  refine (hattended s' hrun).free.resolve_right fun howner ↦ ?_
  rw [(hadmits s' hrun).orderly.owner ticket call' hcall' howner] at hrests
  cases hrests

/-! ## All calls come to their ends -/

/-- The calls that are still under way. -/
def State.underway (s : State α) : ℕ := s.calls.countP fun call ↦ !call.stage.rests

/-- A call to go on with: that of the holder of the model, or any that does not rest. -/
theorem exists_next_call (hserved : Served engine s) (hunderway : s.underway ≠ 0) :
    ∃ (ticket : ℕ) (call : Call α), s.calls[ticket]? = some call ∧ call.stage.rests = false ∧
      (s.owner = none ∨ s.owner = some ticket) := by
  cases howner : s.owner with
  | some holder =>
      have hlt := hserved.projects.owner_lt holder howner
      have hcall := List.getElem?_eq_getElem hlt
      refine ⟨holder, s.calls[holder], hcall, ?_, Or.inr rfl⟩
      rw [hserved.orderly.owner holder _ hcall howner]
      rfl
  | none =>
      obtain ⟨call, hmem, hmoves⟩ := List.countP_pos_iff.mp (Nat.pos_of_ne_zero hunderway)
      obtain ⟨ticket, hcall⟩ := List.mem_iff_getElem?.mp hmem
      exact ⟨ticket, call, hcall, (Bool.not_eq_true' _).mp hmoves, Or.inl rfl⟩

/-- Where no call is under way, no permit is out and the model is free. -/
theorem rests_of_underway (hserved : Served engine s) (hunderway : s.underway = 0) : s.Rests := by
  have hcalls : ∀ call ∈ s.calls, call.stage.rests = true := by
    intro call hmem
    have hnot := List.countP_eq_zero.mp hunderway call hmem
    simpa using hnot
  have hpermits : s.permits.live = [] := by
    refine List.eq_nil_iff_forall_not_mem.mpr fun ticket hlive ↦ ?_
    have hlt := hserved.accounts.known ticket (Permits.mem_live.mp hlive).1
    have hcall := List.getElem?_eq_getElem hlt
    have hholds := (hserved.accounts.mem_live_iff hcall).mp hlive
    have hrests := hcalls _ (List.mem_of_getElem? hcall)
    cases hstage : s.calls[ticket].stage with
    | refused _ | finished =>
        rw [hstage] at hholds
        exact hholds
    | entered | acquiring | admitted | withdrawn | spawned | unwinding =>
        rw [hstage] at hrests
        cases hrests
  refine ⟨hcalls, ?_, hpermits, ?_⟩
  · rw [hserved.accounts.accepted_eq, hpermits]
    rfl
  · cases howner : s.owner with
    | none => rfl
    | some holder =>
        have hlt := hserved.projects.owner_lt holder howner
        have hcall := List.getElem?_eq_getElem hlt
        have hrests := hcalls _ (List.mem_of_getElem? hcall)
        rw [hserved.orderly.owner holder _ hcall howner] at hrests
        cases hrests

/-- **The naive engine is never stuck.** Its calls alone can always be brought to their ends, by
induction on those under way. -/
theorem exists_drained (hreach : Reaches engine Admits init s) :
    ∃ s', Reaches engine OnlyCalls s s' ∧ s'.Rests := by
  induction hcount : s.underway using Nat.strong_induction_on generalizing s with
  | _ count ih =>
      have hserved := served_reachable hreach
      by_cases hunderway : s.underway = 0
      · exact ⟨s, .refl, rests_of_underway hserved hunderway⟩
      · obtain ⟨ticket, call, hcall, hmoves, hfree⟩ := exists_next_call hserved hunderway
        obtain ⟨mid, call', hrun, hcalls, hrests, -⟩ := exists_rests hreach hcall hfree
        have hfewer : mid.underway < count := by
          rw [← hcount]
          obtain ⟨hlt, rfl⟩ := List.getElem?_eq_some_iff.mp hcall
          have hpos : 0 < s.underway := Nat.pos_of_ne_zero hunderway
          unfold State.underway at hpos ⊢
          rw [hcalls, List.countP_set hlt, hmoves, hrests]
          simp only [Bool.not_false, if_true, Bool.not_true, Bool.false_eq_true, if_false]
          omega
        have hadmits : Reaches engine Admits s mid := hrun.mono fun _ _ ↦ OnlyCall.admits
        have honly : Reaches engine OnlyCalls s mid := hrun.mono fun _ _ ↦ OnlyCall.onlyCalls
        obtain ⟨s', hrest, hrests'⟩ := ih _ hfewer (hreach.trans hadmits) rfl
        exact ⟨s', honly.trans hrest, hrests'⟩

end Runs

end NaiveEngine

end HotBatch
