import HotBatch.Scheduler.FullAnswers
import HotBatch.Server.NaiveDraining

/-!
# The naive engine answers everybody

A call that is finished has its private answer on its channel, the whole of it, unless the channel was
too small, nobody wanted the answer any more, the model rejects the request or the server was being
shut down. The engine can always bring all of its calls to their ends.
-/

namespace HotBatch

/-- The model processes every row of a request that fits it and ends within the vocabulary. -/
theorem servable_of_fits {α : Type} [Kernels α] {model : SmallTransformer α}
    {req : GenerationRequest α} (hadmissible : req.Admissible)
    (haccepts : model.AcceptsPrompt req.promptTokens)
    (hfits : req.promptLen + req.maxNewTokens ≤ model.maxPositions)
    (hends : model.EndsInVocab req.promptTokens) : Servable model req := by
  refine ⟨haccepts, fun turn _ hdone ↦ ⟨?_, ?_⟩⟩
  · have hnext := PrivateState.decodePosition_lt hadmissible hdone
    exact hnext.trans ((Nat.sub_le _ _).trans hfits)
  · cases model with
    | gpt2 model =>
        exact (PrivateState.lastToken_after_lt_iff hadmissible.prompt_ne turn).mpr fun _ ↦ hends
    | scripted model => trivial

namespace NaiveEngine

section Runs

variable {α : Type} [Kernels α] {engine : NaiveEngine α} {s s' : State α} {ticket : ℕ}
  {call : Call α}

/-- The task of a call that is over has ended, and an error on a channel has its fault. -/
structure Excused (engine : NaiveEngine α) (s : State α) (call : Call α) : Prop where
  ended : call.stage.IsOver → call.pc = .returned ∨ call.pc = .panicked
  errors : ∀ message, .error message ∈ call.client.sent →
    s.shutdown = true ∨ ¬ Servable engine.model call.req

/-- What the task alone knows about an error. -/
theorem Served.excused (hserved : Served engine s) (hcall : s.calls[ticket]? = some call)
    (hover : ¬ call.stage.IsOver) : Excused engine s call := by
  obtain ⟨capacity, task, hreach, hsame⟩ := hserved.exists_task hcall hover
  have hbegins := Naive.begins_reachable (hserved.admissible_of_call hcall) hreach
  refine ⟨fun hover' ↦ absurd hover' hover, fun message hmem ↦ ?_⟩
  have hmem' : .error message ∈ task.client.sent := by
    rw [hsame.client]
    exact hmem
  refine (hbegins.2 message hmem').imp_left fun hshutdown ↦ ?_
  rw [hsame.shutdown] at hshutdown
  exact hshutdown

theorem Excused.keep (hexcused : Excused engine s call) {call' : Call α}
    (hreq : call'.req = call.req) (hpc : call'.pc = call.pc)
    (hsent : call'.client.sent = call.client.sent)
    (hended : call'.stage.IsOver → call.stage.IsOver ∨ call.pc = .returned ∨ call.pc = .panicked)
    (hshutdown : s.shutdown = true → s'.shutdown = true) : Excused engine s' call' := by
  constructor
  · intro hover
    rw [hpc]
    exact (hended hover).elim hexcused.ended id
  · intro message hmem
    rw [hsent] at hmem
    rw [hreq]
    exact (hexcused.errors message hmem).imp_left hshutdown

/-- A step of a call keeps what is known of it once it is over. -/
theorem excused_call (hexcused : Excused engine s call) (hcall : s.calls[ticket]? = some call)
    (hstep : CallStep engine ticket call s s') {call' : Call α}
    (hcall' : s'.calls[ticket]? = some call') (hover : call'.stage.IsOver) :
    Excused engine s' call' := by
  have hput : ∀ {found : Call α}, (s.calls.set ticket found)[ticket]? = some call' →
      call' = found := by
    intro found hfound
    rw [List.getElem?_set_self (lt_length_of_getElem? hcall)] at hfound
    exact (Option.some.inj hfound).symm
  cases hstep with
  | unavailable _ _ | goesOn _ _ | queueFull _ _ | acquire _ _ | withdraw _ _ | spawn _ _
  | giveBack _ =>
      obtain rfl := hput hcall'
      exact hover.elim
  | task hstage _ =>
      obtain rfl := hput hcall'
      change call.stage.IsOver at hover
      rw [hstage] at hover
      exact hover.elim
  | panic _ hpc =>
      obtain rfl := hput hcall'
      exact hexcused.keep rfl rfl rfl (fun _ ↦ Or.inr (Or.inr hpc)) id
  | finish _ hpc =>
      obtain rfl := hput hcall'
      exact hexcused.keep rfl rfl rfl (fun _ ↦ Or.inr (Or.inl hpc)) id
  | unwind hstage =>
      obtain rfl := hput hcall'
      refine hexcused.keep rfl rfl rfl (fun _ ↦ Or.inl ?_) id
      rw [hstage]
      trivial

theorem excused_reachable (hreach : Reaches engine Admits init s) :
    ∀ (ticket : ℕ) (call : Call α), s.calls[ticket]? = some call → Excused engine s call := by
  induction hreach with
  | refl => exact fun _ _ hcall ↦ nomatch hcall
  | @step before after action hbefore hallowed hstep ih =>
      have hserved := served_reachable (hbefore.step hallowed hstep)
      intro ticket call hcall
      by_cases hover : call.stage.IsOver
      case neg => exact hserved.excused hcall hover
      case pos =>
        cases action with
        | submit req capacity =>
            obtain rfl := Option.some.inj hstep
            change (before.calls ++ [Call.new req capacity])[ticket]? = some call at hcall
            rcases Nat.lt_or_ge ticket before.calls.length with hold | hnew
            · rw [List.getElem?_append_left hold] at hcall
              exact (ih ticket call hcall).keep rfl rfl rfl Or.inl id
            · rw [List.getElem?_append_right hnew] at hcall
              obtain rfl := List.mem_singleton.mp (List.mem_of_getElem? hcall)
              exact hover.elim
        | call other =>
            obtain ⟨found, hfound, hcallStep⟩ := Option.bind_eq_some_iff.mp hstep
            have hcases := callStep_cases hcallStep
            obtain ⟨found', hset⟩ : ∃ found', after.calls = before.calls.set other found' := by
              cases hcases <;> exact ⟨_, rfl⟩
            have hshutdown : after.shutdown = before.shutdown := by cases hcases <;> rfl
            by_cases hother : ticket = other
            · subst hother
              exact excused_call (ih ticket found hfound) hfound hcases hcall hover
            · rw [hset, List.getElem?_set_ne (Ne.symm hother)] at hcall
              exact (ih ticket call hcall).keep rfl rfl rfl Or.inl (by rw [hshutdown]; exact id)
        | client other action =>
            obtain ⟨found, hfound, hmap⟩ := Option.bind_eq_some_iff.mp hstep
            obtain ⟨client, hact, rfl⟩ := Option.map_eq_some_iff.mp hmap
            rcases getElem?_set_cases hcall with ⟨rfl, rfl⟩ | ⟨-, hbefore⟩
            · exact (ih ticket found hfound).keep rfl rfl (Client.act_sent hact) Or.inl id
            · exact (ih ticket call hbefore).keep rfl rfl rfl Or.inl id
        | shutdown =>
            obtain rfl := Option.some.inj hstep
            exact (ih ticket call hcall).keep rfl rfl rfl Or.inl fun _ ↦ rfl

/-- **A call that is finished has the whole answer.** -/
theorem sent_eq_of_finished (hreach : Reaches engine Admits init s)
    (hcall : s.calls[ticket]? = some call) (hstage : call.stage = .finished)
    (hshutdown : s.shutdown = false) (hservable : Servable engine.model call.req)
    (hample : call.client.Ample call.req.maxNewTokens)
    (hwanted : call.client.responseDone = false) :
    call.client.sent = privateAnswer engine.model call.req := by
  have hserved := served_reachable hreach
  have hadmissible := hserved.admissible_of_call hcall
  have hexcused := excused_reachable hreach ticket call hcall
  obtain ⟨capacity, task, hrun, hpc, hclient, -, -⟩ := hserved.projects.tracked ticket call hcall
  have hagrees := Naive.agrees_reachable hrun
  have hbegins := (Naive.begins_reachable hadmissible hrun).1
  have hreturned : task.pc = .returned := by
    rw [hpc]
    refine (hexcused.ended (by rw [hstage]; trivial)).resolve_right fun hpanicked ↦ ?_
    rw [hpanicked] at hpc
    unfold Naive.State.Agrees at hagrees
    rw [hpc] at hagrees
    exact hagrees
  have hended : Ended call.req task.client (task.view call.req) := by
    unfold Naive.State.Agrees at hagrees
    rwa [hreturned] at hagrees
  rw [hclient] at hended hbegins
  have houtgoing : (task.view call.req).outgoing = call.client.sent := by
    rw [Naive.view_outgoing_of_idle (by rw [hreturned]; rfl), hclient]
  have hterminal := (hended.terminal hample).resolve_left (by simp [hwanted])
  rw [houtgoing] at hterminal
  obtain ⟨reason, -, hanswer⟩ := exists_privateAnswer_eq engine.model hadmissible.maxNew_pos
  rw [hanswer] at hbegins ⊢
  refine hbegins.eq_of_terminal hterminal fun message hmem ↦ ?_
  rcases hexcused.errors message hmem with hdown | hrejected
  · rw [hshutdown] at hdown
    cases hdown
  · exact hrejected hservable

end Runs

/-- **Every call of the naive engine ends, and with the whole answer.** After any run whose requests
are admissible: the calls alone can bring the engine to rest; and in every state without a shutdown,
every finished call whose request the model accepts has its private answer on its channel, the whole
of it and nothing else, if the channel has room for the limit and one more, the receiver is open and
`response_done` is not set. -/
theorem calls_answered {α : Type} [Kernels α] (engine : NaiveEngine α) :
    ∀ s, Reaches engine Admits init s →
      (∃ s', Reaches engine OnlyCalls s s' ∧ s'.Rests) ∧
      ∀ (ticket : ℕ) (call : Call α), s.calls[ticket]? = some call → call.stage = .finished →
        s.shutdown = false → Servable engine.model call.req →
          call.client.Ample call.req.maxNewTokens → call.client.responseDone = false →
            call.client.sent = privateAnswer engine.model call.req := by
  intro s hreach
  refine ⟨exists_drained hreach, ?_⟩
  intro ticket call hcall hstage hshutdown hservable hample hwanted
  exact sent_eq_of_finished hreach hcall hstage hshutdown hservable hample hwanted

instance {α : Type} (s : State α) : (action : Action α) → Decidable (OnlyCalls s action)
  | .call _ => isTrue trivial
  | .submit _ _ | .client _ _ | .shutdown => isFalse id

/-- One request may be in the engine at a time. -/
def tinyGpt2Engine : NaiveEngine ℚ := ⟨.gpt2 tinyGpt2, 0⟩

/-- Two clients have come. -/
def tinyAsked : State ℚ :=
  { (init : State ℚ) with calls := [.new tinyRequest 5, .new tinyRequest 5] }

/-- The first of them has been served, and the second one refused. -/
def tinyDrained : State ℚ :=
  (Transition.run (step tinyGpt2Engine) OnlyCalls
    ([.call 0, .call 0, .call 1, .call 1] ++ List.replicate 37 (.call 0)) tinyAsked).getD tinyAsked

theorem calls_answered_tinyDrained :
    (∃ s', Reaches tinyGpt2Engine OnlyCalls tinyAsked s' ∧ s'.Rests) ∧
    ∃ call, tinyDrained.calls[0]? = some call ∧
      call.client.sent = privateAnswer (.gpt2 tinyGpt2) call.req ∧
      call.client.sent = [.token 1, .token 1, .finished .length] := by
  have hadmissible : tinyRequest.Admissible := ⟨by decide, by decide, by decide⟩
  have hsubmit : ∀ s : State ℚ, Admits s (.submit tinyRequest 5) := fun _ ↦ hadmissible
  have hasked : Reaches tinyGpt2Engine Admits init tinyAsked :=
    .step (.step .refl (hsubmit _) rfl) (hsubmit _) rfl
  have hrun : Reaches tinyGpt2Engine OnlyCalls tinyAsked tinyDrained :=
    Transition.reaches_getD_run (by decide +kernel) tinyAsked
  have hdrained : Reaches tinyGpt2Engine Admits init tinyDrained := by
    refine hasked.trans (hrun.mono ?_)
    intro s action honly
    cases action with
    | submit _ _ => exact honly.elim
    | call _ | client _ _ | shutdown => trivial
  refine ⟨(calls_answered tinyGpt2Engine tinyAsked hasked).1, ?_⟩
  obtain ⟨call, hcall⟩ := Option.isSome_iff_exists.mp
    (by decide +kernel : (tinyDrained.calls[0]?).isSome = true)
  have hstage : call.stage = .finished := by
    have hget : (tinyDrained.calls[0]?).map Call.stage = some .finished := by decide +kernel
    rw [hcall] at hget
    exact Option.some.inj hget
  have hclient : call.client = ⟨5, [.token 1, .token 1, .finished .length], 0, true, false⟩ := by
    have hget : (tinyDrained.calls[0]?).map Call.client =
        some ⟨5, [.token 1, .token 1, .finished .length], 0, true, false⟩ := by decide +kernel
    rw [hcall] at hget
    exact Option.some.inj hget
  have hreq : (call.req.promptTokens, call.req.maxNewTokens) = ([1], 2) := by
    have hget : (tinyDrained.calls[0]?).map (fun call ↦
        (call.req.promptTokens, call.req.maxNewTokens)) = some ([1], 2) := by decide +kernel
    rw [hcall] at hget
    exact Option.some.inj hget
  obtain ⟨hprompt, hnew⟩ := Prod.mk.inj hreq
  have hservable : Servable (.gpt2 tinyGpt2) call.req := by
    have hlength : call.req.promptLen = 1 := congrArg List.length hprompt
    refine servable_of_fits ⟨?_, ?_, ?_⟩ ⟨?_, Or.inl ?_⟩ ?_ ?_
    · rw [hprompt]
      exact List.cons_ne_nil _ _
    · rw [hnew]
      exact Nat.zero_lt_two
    · rw [hlength, hnew]
      decide
    · rw [hprompt]
      decide
    · rw [hprompt]
      rfl
    · rw [hlength, hnew]
      decide
    · rw [hprompt]
      intro last hlast
      obtain rfl : 1 = last := Option.some.inj hlast
      decide
  have hsent := (calls_answered tinyGpt2Engine tinyDrained hdrained).2 0 call hcall hstage
    (by decide +kernel) hservable (by rw [hclient, hnew]; exact ⟨by decide, by decide, rfl⟩)
      (by rw [hclient])
  exact ⟨call, hcall, hsent, by rw [hclient]⟩

end NaiveEngine

end HotBatch
