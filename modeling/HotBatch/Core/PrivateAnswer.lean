import HotBatch.Core.PrivateRun

/-!
# The private answer to a request

What the channel of a request would carry if its private run were served to the end: the tokens that
the run releases, and the reason why it stops. It depends on the model, the prompt and the sampling
settings; who asks, how urgently, and which slot of the cache is used do not matter.

An engine need not get to the end of it. `Begins` says that a channel carries the private answer as
far as it goes, possibly broken off by an error.
-/

namespace HotBatch

/-- `items` is a beginning of the answer, or some of its tokens and then an error. -/
def Begins (answer items : List StreamItem) : Prop :=
  items <+: answer ∨ ∃ (tokens : List Token) (message : String),
    tokens.map .token <+: answer ∧ items = tokens.map .token ++ [.error message]

namespace Begins

variable {answer items more : List StreamItem}

theorem nil (answer : List StreamItem) : Begins answer [] := Or.inl List.nil_prefix

theorem error (answer : List StreamItem) (message : String) : Begins answer [.error message] :=
  Or.inr ⟨[], message, List.nil_prefix, rfl⟩

/-- Less of it begins the answer too. -/
theorem of_append (hbegins : Begins answer (items ++ more)) : Begins answer items := by
  rcases hbegins with hprefix | ⟨tokens, message, hprefix, hitems⟩
  · exact Or.inl <| (List.prefix_append items more).trans hprefix
  · have hbefore : items <+: tokens.map .token ++ [.error message] :=
      hitems ▸ List.prefix_append items more
    rcases List.prefix_concat_iff.mp hbefore with hall | hearlier
    · exact Or.inr ⟨tokens, message, hprefix, hall⟩
    · exact Or.inl <| hearlier.trans hprefix

/-- Whatever ends with a finish is the whole answer. -/
theorem eq_of_finished {tokens : List Token} {reason last : FinishReason}
    (hbegins : Begins (tokens.map .token ++ [.finished last]) items)
    (hreason : .finished reason ∈ items) : items = tokens.map .token ++ [.finished last] := by
  have hnone : ∀ before : List Token, StreamItem.finished reason ∉ before.map .token := by
    intro before hmem
    obtain ⟨token, -, heq⟩ := List.mem_map.mp hmem
    cases heq
  rcases hbegins with hprefix | ⟨before, message, -, rfl⟩
  · rcases List.prefix_concat_iff.mp hprefix with hall | hearlier
    · exact hall
    · exact absurd (hearlier.subset hreason) (hnone tokens)
  · rcases List.mem_append.mp hreason with htoken | herror
    · exact absurd htoken (hnone before)
    · cases List.mem_singleton.mp herror

end Begins

/-! ## Who asks does not matter -/

/-- The same prompt with the same sampling settings. -/
structure GenerationRequest.AsksSame {α : Type} (req other : GenerationRequest α) : Prop where
  promptTokens_eq : other.promptTokens = req.promptTokens
  samplerConfig_eq : other.samplerConfig = req.samplerConfig
  promptHash_eq : other.promptHash = req.promptHash

namespace Sequence

variable {α : Type}

/-- The same sequence for somebody else, behind another cache handle. -/
def relabel (id : String) (client : ClientId) (handle : KvHandle) (seq : Sequence α) : Sequence α :=
  { seq with id := id, client := client, kvHandle := handle }

variable {id : String} {client : ClientId} {handle : KvHandle}

theorem appendToken_relabel (token : Token) (seq : Sequence α) :
    (seq.relabel id client handle).appendToken token =
      (seq.appendToken token).relabel id client handle := by
  unfold appendToken
  dsimp only
  split_ifs <;> first | rfl | contradiction

theorem advance_relabel [Floats α] {row : LogitRow α} {seq stepped : Sequence α}
    {tokens : List Token} (hadvance : seq.advance row = some (tokens, stepped)) :
    (seq.relabel id client handle).advance row =
      some (tokens, stepped.relabel id client handle) := by
  have happend : (seq.relabel id client handle).appendSampled row =
      (seq.appendSampled row).relabel id client handle :=
    appendToken_relabel (seq.sampler.sample row).1 { seq with sampler := (seq.sampler.sample row).2 }
  rw [advance_eq_some, happend]
  obtain ⟨hsafe, htokens, rfl⟩ := advance_eq_some.mp hadvance
  exact ⟨hsafe, htokens, rfl⟩

end Sequence

namespace PrivateState

variable {α : Type} [Kernels α] {model : SmallTransformer α} {req other : GenerationRequest α}
  {handle : KvHandle}

theorem decodeRow_relabel (store : KvStore α) (seq : Sequence α) (id : String) (client : ClientId)
    (handle : KvHandle) : model.decodeRow store (seq.relabel id client handle).decodeInput =
      model.decodeRow store seq.decodeInput := by
  cases model with
  | gpt2 model => rfl
  | scripted model => rfl

/-- Two runs for the same prompt and settings differ in their labels only. -/
theorem after_relabel (hsame : req.AsksSame other) (turns : ℕ) (handle' : KvHandle) :
    after model other handle' turns =
      ⟨(after model req handle turns).seq.relabel other.id other.client handle',
        (after model req handle turns).store⟩ := by
  induction turns with
  | zero =>
      obtain ⟨hprompt, hconfig, hhash⟩ := hsame
      unfold after start Sequence.ofRequest
      rw [hprompt, hconfig, hhash]
      rfl
  | succ turns ih =>
      cases hdone : (after model req handle turns).seq.isDone with
      | true =>
          rw [after, after, turn_of_done hdone, ih]
          exact turn_of_done hdone
      | false =>
          obtain ⟨tokens, stepped, hadvance, hafter⟩ := after_succ hdone
          have hmoved : ((after model req handle turns).seq.relabel other.id other.client
              handle').advance (model.decodeRow (after model req handle turns).store
                ((after model req handle turns).seq.relabel other.id other.client
                  handle').decodeInput).1 =
              some (tokens, stepped.relabel other.id other.client handle') := by
            rw [decodeRow_relabel]
            exact Sequence.advance_relabel hadvance
          rw [hafter, after, ih, ← decodeRow_relabel _ _ other.id other.client handle']
          apply turn_of_not_done
          · exact hdone
          · exact hmoved

/-- What has been taken is never more than what has been generated. -/
theorem emitted_after_le (turns : ℕ) : (after model req handle turns).seq.emittedTokens ≤
    (after model req handle turns).seq.generatedTokens.length :=
  (serves_after turns).emitted_le.trans (Sequence.safeEnd_le _)

theorem taken_after_succ_prefix (turns : ℕ) : (after model req handle turns).seq.takenTokens <+:
    (after model req handle (turns + 1)).seq.takenTokens := by
  cases hdone : (after model req handle turns).seq.isDone with
  | true => rw [after, turn_of_done hdone]
  | false =>
      obtain ⟨tokens, stepped, hadvance, hafter⟩ := after_succ hdone
      rw [hafter, Sequence.advance_takenTokens hadvance (emitted_after_le turns)]
      exact List.prefix_append _ _

/-- What has been released is never taken back. -/
theorem taken_after_prefix {earlier later : ℕ} (hle : earlier ≤ later) :
    (after model req handle earlier).seq.takenTokens <+:
      (after model req handle later).seq.takenTokens := by
  induction later, hle using Nat.le_induction with
  | base => exact List.prefix_rfl
  | succ later _ ih => exact ih.trans <| taken_after_succ_prefix later

/-- Where the private run ends, behind a handle of no importance. -/
def final (model : SmallTransformer α) (req : GenerationRequest α) : Sequence α :=
  (after model req ⟨0, 0, 0⟩ req.maxNewTokens).seq

theorem seq_after_eq (model : SmallTransformer α) (req : GenerationRequest α) (handle : KvHandle)
    (turns : ℕ) : (after model req handle turns).seq =
      (after model req ⟨0, 0, 0⟩ turns).seq.withHandle handle :=
  congrArg PrivateState.seq (after_withHandle turns handle)

theorem final_isDone (model : SmallTransformer α) (hnew : 0 < req.maxNewTokens) :
    (final model req).isDone = true := done_after_maxNewTokens hnew

/-- A run that is done has come to the end. -/
theorem seq_eq_final_of_done (hnew : 0 < req.maxNewTokens) {turns : ℕ}
    (hdone : (after model req handle turns).seq.isDone = true) :
    (after model req handle turns).seq = (final model req).withHandle handle := by
  rw [seq_after_eq] at hdone ⊢
  unfold final
  have hend : (after model req ⟨0, 0, 0⟩ req.maxNewTokens).seq.isDone = true :=
    final_isDone model hnew
  rcases Nat.le_total turns req.maxNewTokens with hle | hle
  · rw [after_of_done hle hdone]
  · rw [after_of_done hle hend]

/-- The tokens released so far are the first ones of all. -/
theorem taken_prefix_final (hnew : 0 < req.maxNewTokens) (turns : ℕ) :
    (after model req handle turns).seq.takenTokens <+: (final model req).takenTokens := by
  have hsame : (after model req handle turns).seq.takenTokens =
      (after model req ⟨0, 0, 0⟩ turns).seq.takenTokens := by
    rw [seq_after_eq]
    rfl
  rw [hsame]
  rcases Nat.le_total turns req.maxNewTokens with hle | hle
  · exact taken_after_prefix hle
  · unfold final
    rw [after_of_done hle (final_isDone model hnew)]

/-- The run stops for a reason. -/
theorem final_finishReason (model : SmallTransformer α) (hnew : 0 < req.maxNewTokens) :
    ∃ reason, (final model req).finishReason = some reason := by
  have hserves : Sequence.Serves req (final model req) := serves_after req.maxNewTokens
  rcases hserves.status with ⟨hrunning, -⟩ | ⟨-, hreason⟩
  · have hdone := final_isDone model hnew
    rw [Sequence.isDone, hrunning] at hdone
    cases hdone
  · exact Option.isSome_iff_exists.mp hreason

end PrivateState

/-- **The private answer**: everything that the private run releases, and why it stops. -/
def privateAnswer {α : Type} [Kernels α] (model : SmallTransformer α) (req : GenerationRequest α) :
    List StreamItem :=
  (PrivateState.final model req).takenTokens.map .token ++
    ((PrivateState.final model req).finishReason.map .finished).toList

section Answer

variable {α : Type} [Kernels α] {model : SmallTransformer α} {req other : GenerationRequest α}

theorem privateAnswer_congr (hsame : req.AsksSame other) :
    privateAnswer model other = privateAnswer model req := by
  have hlimit : other.maxNewTokens = req.maxNewTokens := by
    unfold GenerationRequest.maxNewTokens
    rw [hsame.samplerConfig_eq]
  have hfinal : PrivateState.final model other =
      (PrivateState.final model req).relabel other.id other.client ⟨0, 0, 0⟩ := by
    unfold PrivateState.final
    rw [hlimit, PrivateState.after_relabel hsame]
  unfold privateAnswer
  rw [hfinal]
  rfl

theorem exists_privateAnswer_eq (model : SmallTransformer α) (hnew : 0 < req.maxNewTokens) :
    ∃ reason, (PrivateState.final model req).finishReason = some reason ∧ privateAnswer model req =
      (PrivateState.final model req).takenTokens.map .token ++ [.finished reason] := by
  obtain ⟨reason, hreason⟩ := PrivateState.final_finishReason model hnew
  refine ⟨reason, hreason, ?_⟩
  unfold privateAnswer
  rw [hreason]
  rfl

/-- The tokens of any turn begin the answer. -/
theorem taken_prefix_privateAnswer (hnew : 0 < req.maxNewTokens) (handle : KvHandle) (turns : ℕ)
    {tokens : List Token}
    (htokens : tokens <+: (PrivateState.after model req handle turns).seq.takenTokens) :
    tokens.map .token <+: privateAnswer model req := by
  have hfinal := htokens.trans (PrivateState.taken_prefix_final hnew turns)
  have hmapped : tokens.map StreamItem.token <+:
      (PrivateState.final model req).takenTokens.map .token := hfinal.map _
  exact hmapped.trans (List.prefix_append _ _)

end Answer

end HotBatch
